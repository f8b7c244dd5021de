import Autodialer.Gateways

/-!
# A pass ends

In a reachable state a pass of `pull_groups` follows valid pointers only, up to the one it does
not check: the result set of the actions.

* `memDerefCampaign_avoids`: a campaign with an empty process list can be destroyed.
* `pullGateways_avoids`, `pullCampaigns_avoids`: the loops over the rows make no fault.
* `pass_ends`: the only fault of a pass is a null result set.
-/

namespace Autodialer

open Fallible

variable {s s' : Sys} {cp : CampId} {camp : Campaign} {bad : Fault → Prop}
  {ans : CallId → Addr → Prop}

theorem load_avoids {α : Type} {o : Obj} {h : Heap α} {p : Nat} {a : α}
    (live : h.get p = some a) : Avoids bad (load o h p) := by
  rw [load, live]
  exact .ok a

/-! ## Gateways -/

theorem findGateway_avoids {id : Nat} {l : List GatewayId}
    (live : ∀ g ∈ l, ∃ gateway, s.gateways.get g = some gateway) :
    Avoids bad (findGateway s id l) := by
  induction l with
  | nil => exact .ok none
  | cons g rest ih =>
    obtain ⟨gateway, here⟩ := live g List.mem_cons_self
    refine (load_avoids here).bind fun gateway' _ => ?_
    split
    · exact .pure _
    · exact ih fun g' mem => live g' (List.mem_cons_of_mem _ mem)

theorem pullGateway_avoids (catalogued : Catalogued s) (row : GatewayRow) :
    Avoids bad (pullGateway s row) := by
  refine (findGateway_avoids catalogued.live).bind fun found search => ?_
  cases found with
  | none => exact .pure _
  | some g =>
    obtain ⟨gateway, live⟩ := catalogued.live g (findGateway_some search).1
    exact (load_avoids live).bind fun _ _ => .pure _

theorem pullGateways_avoids (catalogued : Catalogued s) (rows : List GatewayRow) :
    Avoids bad (pullGateways s rows) :=
  .foldlM (I := Catalogued) (fun _ row _ catalogued => pullGateway_avoids catalogued row)
    (fun _ _ _ catalogued run => by
      obtain ⟨_, _, mirrored⟩ := pullGateway_mirrored catalogued run
      exact mirrored.catalogued catalogued)
    catalogued

/-! ## Campaigns -/

theorem findCampaign_avoids {id : Nat} {l : List CampId}
    (live : ∀ cp ∈ l, ∃ camp, s.book.camps.get cp = some camp) :
    Avoids bad (findCampaign s id l) := by
  induction l with
  | nil => exact .ok none
  | cons cp rest ih =>
    obtain ⟨camp, here⟩ := live cp List.mem_cons_self
    refine (load_avoids here).bind fun camp' _ => ?_
    split
    · exact .pure _
    · exact ih fun cp' mem => live cp' (List.mem_cons_of_mem _ mem)

/-- Contacts without a call can be flushed. -/
theorem flushDests_avoids {l : List DestId} (nodup : l.Nodup)
    (idle : ∀ d ∈ l, ∃ dest, s.book.dests.get d = some dest ∧ dest.call = none) :
    Avoids bad (flushDests l s) := by
  induction l generalizing s with
  | nil => exact .ok s
  | cons d rest ih =>
    obtain ⟨new, nodup⟩ := List.nodup_cons.mp nodup
    obtain ⟨dest, live, noCall⟩ := idle d List.mem_cons_self
    have unlinked : (s.setDest d fun dest => { dest with le := none }).book.dests.get d =
        some { dest with le := none } := by
      simp [Sys.setDest, live]
    rw [flushDests, memDerefDest_idle unlinked noCall, ok_bind]
    refine ih nodup fun e mem => ?_
    obtain ⟨other, liveOther, noCall'⟩ := idle e (List.mem_cons_of_mem _ mem)
    have ne : e ≠ d := by
      rintro rfl
      exact new mem
    refine ⟨other, ?_, noCall'⟩
    show ((s.setDest d _).book.remove d).dests.get e = _
    rw [Book.remove_dests, if_neg ne, Sys.setDest, Book.dests_setDest, Heap.get_modify_ne ne]
    exact liveOther

/-- A campaign whose process list is empty can be destroyed: its contacts have no calls. -/
theorem memDerefCampaign_avoids (inv : Inv ans s) (live : s.book.camps.get cp = some camp)
    (empty : camp.processl = []) : Avoids bad (memDerefCampaign s cp) := by
  refine (load_avoids live).bind fun camp' loaded => ?_
  have loaded := load_eq_ok.mp loaded
  cases live.symm.trans loaded
  rw [empty]
  have nodup : camp.destinations.Nodup :=
    inv.partition.nodup cp camp (.destinations cp) live rfl
  refine (flushDests_avoids nodup fun d mem => ?_).bind fun t _ => ?_
  · obtain ⟨dest, liveDest, onCp, onList⟩ := inv.partition.on_destinations live mem
    refine ⟨dest, liveDest, (inv.supervised d dest liveDest).waiting ?_⟩
    rw [onList, onCp]
  · exact (Avoids.ok t).bind fun _ _ => .pure _

theorem readCampaign_avoids (inv : Inv ans s) (catalogued : Catalogued s) (row : CampaignRow)
    (live : s.book.camps.get cp = some camp) : Avoids bad (readCampaign s cp row) := by
  have liveHead : (s.setCamp cp fun camp => camp.readHead row).book.camps.get cp =
      some (camp.readHead row) := by
    simp [Sys.setCamp, live]
  refine (load_avoids liveHead).bind fun camp' loaded => ?_
  have loaded := load_eq_ok.mp loaded
  cases liveHead.symm.trans loaded
  split
  next stop =>
    rw [Bool.and_eq_true, List.isEmpty_iff] at stop
    have head : Inv ans (s.setCamp cp fun camp => camp.readHead row) :=
      inv.setCamp fun _ => ⟨rfl, rfl, rfl⟩
    exact memDerefCampaign_avoids head liveHead stop.2
  next go =>
    have head : Catalogued (s.setCamp cp fun camp => camp.readHead row) := catalogued.congr rfl rfl
    refine (findGateway_avoids head.live).bind fun gateway _ => ?_
    exact (findGateway_avoids head.live).bind fun pbxGateway _ => .pure _

theorem pullCampaign_avoids (inv : Inv ans s) (catalogued : Catalogued s) (row : CampaignRow) :
    Avoids bad (pullCampaign s row) := by
  refine (findCampaign_avoids fun cp mem => (inv.rostered.mem cp).mp mem).bind fun found search => ?_
  cases found with
  | some cp =>
    obtain ⟨-, camp, live, -⟩ := findCampaign_some search
    exact readCampaign_avoids inv catalogued row live
  | none =>
    dsimp only
    split
    · exact .pure _
    · have created : Catalogued s.createCamp := catalogued.congr rfl rfl
      exact readCampaign_avoids inv.createCamp created row (createCamp_new s)

theorem pullCampaign_catalogued {row : CampaignRow} (catalogued : Catalogued s)
    (run : pullCampaign s row = .ok s') : Catalogued s' := by
  obtain ⟨gateways, list⟩ := pullCampaign_gateways run
  exact catalogued.congr gateways list

theorem pullCampaigns_avoids (inv : Inv ans s) (catalogued : Catalogued s)
    (rows : List CampaignRow) : Avoids bad (pullCampaigns s rows) :=
  .foldlM (I := fun t => Inv ans t ∧ Catalogued t)
    (fun _ row _ ⟨inv, catalogued⟩ => pullCampaign_avoids inv catalogued row)
    (fun _ _ _ ⟨inv, catalogued⟩ run => ⟨inv.campaign run, pullCampaign_catalogued catalogued run⟩)
    ⟨inv, catalogued⟩

/-! ## Services -/

theorem loadAction_avoids (catalogued : Catalogued s) (row : ActionRow) :
    Avoids bad (loadAction cp s row) := by
  have target : Avoids bad (actionTarget s row) := by
    unfold actionTarget
    split
    · exact .pure _
    · split
      · exact (findGateway_avoids catalogued.live).bind fun _ _ => .pure _
      · exact .pure _
  unfold loadAction
  dsimp only
  split
  · exact target.bind fun _ _ => .pure _
  · exact .pure _

theorem loadAction_catalogued {row : ActionRow} (catalogued : Catalogued s)
    (run : loadAction cp s row = .ok s') : Catalogued s' := by
  obtain ⟨_, -, -, rfl⟩ := loadAction_cases run
  exact catalogued.congr rfl rfl

theorem loadActions_avoids (catalogued : Catalogued s) (rows : List ActionRow) :
    Avoids bad (rows.foldlM (loadAction cp) s) :=
  .foldlM (I := Catalogued) (fun _ row _ catalogued => loadAction_avoids catalogued row)
    (fun _ _ _ catalogued run => loadAction_catalogued catalogued run) catalogued

/-- The only fault of a service is that the query for the actions fails. -/
theorem pullService_avoids {actions : Nat → Option (List ActionRow)}
    (spared : ∀ id, actions id = none → ¬ bad (.null .result)) (catalogued : Catalogued s)
    (live : s.book.camps.get cp = some camp) (calls : Nat → Option (List CallRow)) :
    Avoids bad (pullService calls actions s cp) := by
  refine (load_avoids live).bind fun camp' _ => ?_
  split
  · exact .pure _
  · split
    · exact .pure _
    · refine Avoids.bind ?_ fun _ _ => .pure _
      have rows : Avoids bad (get? (Fault.null .result) (actions camp'.campaignId)) := by
        cases failed : actions camp'.campaignId with
        | none => exact .error (spared _ failed)
        | some rows => exact .ok rows
      refine rows.bind fun rows _ => loadActions_avoids ?_ rows
      exact catalogued.congr rfl rfl

/-- The only fault of a pass is that the query for the actions of a campaign fails. -/
theorem pullGroups_avoids {snap : Snapshot}
    (spared : ∀ id, snap.actions id = none → ¬ bad (.null .result)) (inv : Inv ans s)
    (catalogued : Catalogued s) : Avoids bad (pullGroups s snap) := by
  unfold pullGroups
  split
  · exact .pure _
  next gateways _ =>
    refine (pullGateways_avoids catalogued gateways).bind fun t pulled => ?_
    have catalogued' := pullGateways_catalogued catalogued pulled
    have inv' := inv.gateways pulled
    split
    · exact .pure _
    next campaigns _ =>
      refine (pullCampaigns_avoids inv' catalogued' campaigns).bind fun u read => ?_
      obtain ⟨inv'', catalogued''⟩ := foldlM_rule (I := fun _ t => Inv ans t ∧ Catalogued t)
        (fun _ _ _ _ ⟨inv, catalogued⟩ run =>
          ⟨inv.campaign run, pullCampaign_catalogued catalogued run⟩) ⟨inv', catalogued'⟩ read
      refine .foldlM (I := fun v => Inv ans v ∧ Catalogued v ∧ v.services = u.services)
        (fun v cp mem ⟨inv, catalogued, same⟩ => ?_) (fun v cp v' ⟨inv, catalogued, same⟩ run => ?_)
        ⟨inv'', catalogued'', rfl⟩
      · obtain ⟨camp, live⟩ := (inv.rostered.mem cp).mp (same ▸ mem)
        exact pullService_avoids spared catalogued live _
      · obtain ⟨gateways, list⟩ := pullService_gateways run
        exact ⟨inv.service run, catalogued.congr gateways list,
          (pullService_services run).trans same⟩

/-- The gateways of the list are live in every reachable state, and a pass that starts there makes
no fault but a null result set. -/
theorem reachable_catalogued (reach : dialer.Reachable s) : Catalogued s := by
  obtain ⟨h, run⟩ := reach
  refine (run.induct (C := fun _ _ => True) (I := fun h s => Inv (Answered h) s ∧ Catalogued s)
    (fun _ _ => trivial) ?_ fun _ _ _ _ _ ⟨inv, catalogued⟩ step _ => ?_).2
  · rintro s ⟨n, audioPath, -, rfl⟩
    exact ⟨.boot n audioPath, .boot n audioPath⟩
  · exact ⟨step_inv inv step, step_catalogued inv catalogued step⟩

/-- A pass of a reachable state ends, or it reads a null result set. -/
theorem pass_ends (reach : dialer.Reachable s) (snap : Snapshot) :
    (∃ s', pullGroups s snap = .ok s') ∨ pullGroups s snap = .error (.null .result) := by
  obtain ⟨ans, inv⟩ := reachable_inv reach
  have avoids : Avoids (fun fault => fault ≠ .null .result) (pullGroups s snap) :=
    pullGroups_avoids (fun _ _ => not_not.mpr rfl) inv (reachable_catalogued reach)
  cases run : pullGroups s snap with
  | ok s' => exact .inl ⟨s', rfl⟩
  | error fault => exact .inr (congrArg _ (not_not.mp (avoids fault run)))

/-- All queries of the pass succeed. -/
structure Snapshot.Succeeds (snap : Snapshot) : Prop where
  gateways : snap.gateways.isSome = true
  campaigns : snap.campaigns.isSome = true
  calls : ∀ id, (snap.calls id).isSome = true
  actions : ∀ id, (snap.actions id).isSome = true

theorem pass_succeeds {snap : Snapshot} (reach : dialer.Reachable s) (succeeds : snap.Succeeds) :
    ∃ s', pullGroups s snap = .ok s' := by
  obtain ⟨ans, inv⟩ := reachable_inv reach
  refine Avoids.total (pullGroups_avoids (fun id failed => ?_) inv (reachable_catalogued reach))
  have found := succeeds.actions id
  rw [failed] at found
  cases found

end Autodialer
