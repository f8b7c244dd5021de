import Autodialer.Invariant

/-!
# Contacts through a run

Whatever a step does about a contact, it changes neither who the contact is nor
the campaign it belongs to, and a destroyed destination never comes back.

* `mainStep_fewer`: the main loop destroys destinations and creates none.
* `step_onward`, `run_onward`: what any step, and any run, leaves of a
  destination.
-/

namespace Autodialer

variable {s s' : Sys} {b b' b'' : Book} {d : DestId} {cp : CampId} {dest dest' : Destination}
  {now : Time} {ans : CallId → Addr → Prop}

/-! ## Two relations between books -/

/-- Every destination of `b'` is one of `b`, for the same contact of the same
campaign. -/
structure Fewer (b b' : Book) : Prop where
  next : b'.dests.next = b.dests.next
  same : ∀ d dest', b'.dests.get d = some dest' →
    ∃ dest, b.dests.get d = some dest ∧ dest'.destId = dest.destId ∧ dest'.cp = dest.cp

/-- `b'` is a later state of the book `b`: what is destroyed stays so, and what
is still there is the same contact. -/
structure Onward (b b' : Book) : Prop where
  later : b.dests.Later b'.dests
  same : ∀ d dest dest', b.dests.get d = some dest → b'.dests.get d = some dest' →
    dest'.destId = dest.destId ∧ dest'.cp = dest.cp

namespace Fewer

@[refl] theorem refl (b : Book) : Fewer b b := ⟨rfl, fun _ dest' live => ⟨dest', live, rfl, rfl⟩⟩

theorem trans (first : Fewer b b') (second : Fewer b' b'') : Fewer b b'' := by
  refine ⟨second.next.trans first.next, fun d dest'' live => ?_⟩
  obtain ⟨dest', live', id', cp'⟩ := second.same d dest'' live
  obtain ⟨dest, live, id, cp⟩ := first.same d dest' live'
  exact ⟨dest, live, id'.trans id, cp'.trans cp⟩

/-- Only the campaigns differ. -/
theorem of_dests (same : b'.dests = b.dests) : Fewer b b' := by
  refine ⟨by rw [same], fun d dest' live => ⟨dest', ?_, rfl, rfl⟩⟩
  rw [← same, live]

theorem rearranged (change : Rearranged b b') : Fewer b b' := by
  refine ⟨change.nextDest, fun d dest' live => ?_⟩
  obtain ⟨old, le, liveOld, rfl⟩ := change.of_dest live
  exact ⟨old, liveOld, rfl, rfl⟩

theorem setDest {f : Destination → Destination}
    (same : ∀ dest, (f dest).destId = dest.destId ∧ (f dest).cp = dest.cp) :
    Fewer b (b.setDest d f) := by
  refine ⟨rfl, fun e dest' live => ?_⟩
  rw [Book.dests_setDest, Heap.get_modify] at live
  split at live
  · obtain ⟨dest, old, rfl⟩ := Option.map_eq_some_iff.mp live
    exact ⟨dest, old, same dest⟩
  · exact ⟨dest', live, rfl, rfl⟩

theorem remove (b : Book) (d : DestId) : Fewer b (b.remove d) := by
  refine ⟨(rearranged (Rearranged.unlink b d)).next, fun e dest' live => ?_⟩
  rw [Book.remove_dests] at live
  split at live
  · cases live
  · exact ⟨dest', live, rfl, rfl⟩

theorem onward (fewer : Fewer b b') : Onward b b' where
  later := by
    refine ⟨Nat.le_of_eq fewer.next.symm, fun d _ dead => ?_⟩
    cases live : b'.dests.get d with
    | none => rfl
    | some dest' =>
      obtain ⟨dest, live, -⟩ := fewer.same d dest' live
      rw [dead] at live
      cases live
  same d dest dest' live live' := by
    obtain ⟨old, liveOld, same⟩ := fewer.same d dest' live'
    obtain rfl := Option.some.inj (live.symm.trans liveOld)
    exact same

end Fewer

namespace Onward

@[refl] theorem refl (b : Book) : Onward b b := (Fewer.refl b).onward

theorem trans (first : Onward b b') (second : Onward b' b'') : Onward b b'' := by
  refine ⟨first.later.trans second.later, fun d dest dest'' live live'' => ?_⟩
  have inside : d < b'.dests.next := Nat.lt_of_lt_of_le (Heap.lt_next live) first.later.1
  cases live' : b'.dests.get d with
  | none =>
    rw [second.later.2 d inside live'] at live''
    cases live''
  | some dest' =>
    obtain ⟨id, cp⟩ := first.same d dest dest' live live'
    obtain ⟨id', cp'⟩ := second.same d dest' dest'' live' live''
    exact ⟨id'.trans id, cp'.trans cp⟩

/-- A destroyed destination stays destroyed. -/
theorem dead (onward : Onward b b') (old : d < b.dests.next) (gone : b.dests.get d = none) :
    b'.dests.get d = none := onward.later.2 d old gone

end Onward

/-! ## The main loop -/

theorem DialResult.fewer {env : DialEnv} {destroyed : Bool}
    (result : DialResult s now env d dest s' destroyed) : Fewer s.book s'.book := by
  cases result with
  | skipped => exact Fewer.refl _
  | destroyed => exact Fewer.remove _ d
  | undone => exact Fewer.setDest fun _ => ⟨rfl, rfl⟩
  | placed => exact Fewer.setDest fun _ => ⟨rfl, rfl⟩

theorem startFakeCalling_fewer {env : DestId → DialEnv}
    (run : startFakeCalling s cp now env = .ok s') : Fewer s.book s'.book :=
  startFakeCalling_rule (I := fun t => Fewer s.book t.book)
    (fun _ _ fewer _ => fewer.trans (.of_dests rfl))
    (fun _ fewer filled => fewer.trans (.rearranged (fillProcessl_rearranged filled)))
    (fun _ _ _ _ _ _ fewer _ result => fewer.trans result.fewer) (Fewer.refl _) run

theorem EndResult.fewer {env : AllocEnv} {c : CallId} {call : Call}
    (result : EndResult s now env d dest c call s') : Fewer s.book s'.book := by
  cases result with
  | rearmed _ rules =>
    rw [rules.frame]
    exact Fewer.setDest fun _ => ⟨rfl, rfl⟩
  | destroyed => exact Fewer.remove _ d
  | requeued =>
    have idle : Fewer s.book (s.book.setDest d fun dest => { dest with call := none }) :=
      Fewer.setDest fun _ => ⟨rfl, rfl⟩
    exact idle.trans (.rearranged (Rearranged.moveTo _ d _))

theorem mainStep_fewer {e : Event} (inv : Inv ans s) (main : e.isMain = true)
    (step : dialer.step s e s') : Fewer s.book s'.book := by
  cases step_cases step with
  | pulled => cases main
  | @ticked _ cp _ _ _ _ ticks run =>
    obtain ⟨f, msgq, torn, lost, -, rfl⟩ := ticks.state
    have starts : Fewer s.book (s.book.setCamp cp f) := .of_dests rfl
    exact starts.trans (startFakeCalling_fewer run)
  | @supervised d _ _ _ _ live armed run =>
    obtain ⟨c, call, -, -, result⟩ := inv.supervised_cases live armed run
    have disarmed : Fewer s.book (s.disarmDest d).book := .setDest fun _ => ⟨rfl, rfl⟩
    exact disarmed.trans result.fewer
  | calledBack => exact Fewer.refl _
  | lost => exact Fewer.refl _

/-! ## The pass -/

theorem memDerefCampaign_fewer (run : memDerefCampaign s cp = .ok s') : Fewer s.book s'.book := by
  obtain ⟨camp, t, -, flushed, rfl⟩ := memDerefCampaign_cases run
  obtain ⟨dests, -, next⟩ := flushDests_book flushed
  refine ⟨next, fun d dest' live => ⟨dest', ?_, rfl, rfl⟩⟩
  rw [dests] at live
  split at live
  · cases live
  · exact live

theorem readCampaign_fewer {row : CampaignRow} (run : readCampaign s cp row = .ok s') :
    Fewer s.book s'.book := by
  obtain ⟨camp, -, ⟨-, -, run⟩ | ⟨-, gateway, pbxGateway, rfl⟩⟩ := readCampaign_cases run
  · have head : Fewer s.book (s.setCamp cp fun camp => camp.readHead row).book := .of_dests rfl
    exact head.trans (memDerefCampaign_fewer run)
  · exact Fewer.of_dests rfl

theorem pullCampaign_fewer {row : CampaignRow} (run : pullCampaign s row = .ok s') :
    Fewer s.book s'.book := by
  rcases pullCampaign_cases run with ⟨rfl, -⟩ | ⟨cp, -, -, run⟩ | ⟨-, -, run⟩
  · exact Fewer.refl _
  · exact readCampaign_fewer run
  · have created : Fewer s.book s.createCamp.book := .of_dests rfl
    exact created.trans (readCampaign_fewer run)

/-- The destination that a row becomes. -/
def CallRow.contact (row : CallRow) (cp : CampId) : Destination :=
  { destId := row.id, dest := row.contactNumber, cp := cp, le := some (.destinations cp) }

theorem loadContact_dests (cp : CampId) (b : Book) (row : CallRow) :
    (loadContact cp b row).dests = b.dests.alloc (row.contact cp) :=
  congrArg Book.dests (listAppend_alloc b (.destinations cp) rfl)

/-- The rows become the destinations at the addresses from `next` on. -/
theorem loadContacts_get (cp : CampId) (rows : List CallRow) (b : Book) (d : DestId) :
    (rows.foldl (loadContact cp) b).dests.get d =
      if d < b.dests.next then b.dests.get d
      else (rows[d - b.dests.next]?).map fun row => row.contact cp := by
  induction rows generalizing b with
  | nil =>
    split
    · rfl
    next above => exact b.dests.fresh d (Nat.le_of_not_lt above)
  | cons row rest ih =>
    rw [List.foldl_cons, ih, loadContact_dests, Heap.get_alloc, Heap.next_alloc]
    rcases Nat.lt_trichotomy d b.dests.next with below | rfl | above
    · rw [if_pos (Nat.lt_succ_of_lt below), if_neg (Nat.ne_of_lt below), if_pos below]
    · simp
    · obtain ⟨k, rfl⟩ := Nat.exists_eq_add_of_lt above
      have index : b.dests.next + k + 1 - b.dests.next = k + 1 := by omega
      have index' : b.dests.next + k + 1 - (b.dests.next + 1) = k := by omega
      rw [if_neg (Nat.not_lt.mpr above), if_neg (Nat.not_lt.mpr (Nat.le_of_lt above)), index, index',
        List.getElem?_cons_succ]

theorem loadContacts_next (cp : CampId) (rows : List CallRow) (b : Book) :
    (rows.foldl (loadContact cp) b).dests.next = b.dests.next + rows.length := by
  induction rows generalizing b with
  | nil => rfl
  | cons row rest ih =>
    rw [List.foldl_cons, ih, loadContact_dests, Heap.next_alloc, List.length_cons]
    omega

theorem loadContacts_live (cp : CampId) (rows : List CallRow) (live : b.dests.get d = some dest) :
    (rows.foldl (loadContact cp) b).dests.get d = some dest := by
  rw [loadContacts_get, if_pos (Heap.lt_next live), live]

theorem loadContacts_onward (cp : CampId) (rows : List CallRow) (b : Book) :
    Onward b (rows.foldl (loadContact cp) b) where
  later := by
    refine ⟨by rw [loadContacts_next]; omega, fun d old dead => ?_⟩
    rw [loadContacts_get, if_pos old, dead]
  same d dest dest' live live' := by
    obtain rfl := Option.some.inj ((loadContacts_live cp rows live).symm.trans live')
    exact ⟨rfl, rfl⟩

theorem pullService_onward {calls : Nat → Option (List CallRow)}
    {actions : Nat → Option (List ActionRow)} (run : pullService calls actions s cp = .ok s') :
    Onward s.book s'.book := by
  obtain ⟨camp, -, ⟨rfl, -⟩ | ⟨-, rows, acts, l, -, -, rfl⟩⟩ := pullService_cases run
  · exact Onward.refl _
  · refine (loadContacts_onward cp rows s.book).trans (Fewer.onward ?_)
    exact Fewer.of_dests rfl

theorem pull_onward {snap : Snapshot} (run : pullGroups s snap = .ok s') :
    Onward s.book s'.book :=
  pullGroups_rule (I := fun t => Onward s.book t.book)
    (fun t row t' onward run => by rw [pullGateway_frame run]; exact onward)
    (fun t row t' onward run => onward.trans (pullCampaign_fewer run).onward)
    (fun _ _ t cp t' onward _ run => onward.trans (pullService_onward run)) (Onward.refl _) run

theorem readCampaign_dests {row : CampaignRow} (run : readCampaign s cp row = .ok s')
    (live : s'.book.dests.get d = some dest) : s.book.dests.get d = some dest := by
  obtain ⟨camp, -, ⟨-, -, run⟩ | ⟨-, gateway, pbxGateway, rfl⟩⟩ := readCampaign_cases run
  · obtain ⟨_, t, -, flushed, rfl⟩ := memDerefCampaign_cases run
    obtain ⟨dests, -, -⟩ := flushDests_book flushed
    replace live : t.book.dests.get d = some dest := live
    rw [dests] at live
    split at live
    · cases live
    · exact live
  · exact live

theorem pullCampaign_dests {row : CampaignRow} (run : pullCampaign s row = .ok s')
    (live : s'.book.dests.get d = some dest) : s.book.dests.get d = some dest := by
  rcases pullCampaign_cases run with ⟨rfl, -⟩ | ⟨cp, -, -, run⟩ | ⟨-, -, run⟩
  · exact live
  · exact readCampaign_dests run live
  · have before := readCampaign_dests run live
    exact before

theorem pullService_dests {calls : Nat → Option (List CallRow)}
    {actions : Nat → Option (List ActionRow)} (run : pullService calls actions s cp = .ok s')
    (live : s'.book.dests.get d = some dest) :
    s.book.dests.get d = some dest ∨ (s.book.dests.next ≤ d ∧ ∃ camp rows,
      s.book.camps.get cp = some camp ∧ camp.isRunning = false ∧ rowsFor calls camp = some rows ∧
      ∃ row ∈ rows, dest = row.contact cp) := by
  obtain ⟨camp, liveCamp, ⟨rfl, -⟩ | ⟨stopped, rows, acts, l, found, -, rfl⟩⟩ := pullService_cases run
  · exact .inl live
  · replace live : (rows.foldl (loadContact cp) s.book).dests.get d = some dest := live
    rw [loadContacts_get] at live
    split at live
    · exact .inl live
    next above =>
      obtain ⟨row, at_, rfl⟩ := Option.map_eq_some_iff.mp live
      exact .inr ⟨Nat.le_of_not_lt above, camp, rows, liveCamp, stopped, found, row,
        List.mem_of_getElem? at_, rfl⟩

/-- A pass keeps destinations as they are, destroys them, or loads new ones. -/
theorem pull_dests {snap : Snapshot} (run : pullGroups s snap = .ok s')
    (live : s'.book.dests.get d = some dest) :
    s.book.dests.get d = some dest ∨
      (s.book.dests.next ≤ d ∧ ∃ row : CallRow, ∃ cp, dest = row.contact cp) := by
  have account : s.book.dests.next ≤ s'.book.dests.next ∧ ∀ d dest,
      s'.book.dests.get d = some dest → s.book.dests.get d = some dest ∨
        (s.book.dests.next ≤ d ∧ ∃ row : CallRow, ∃ cp, dest = row.contact cp) := by
    refine pullGroups_rule (I := fun t => s.book.dests.next ≤ t.book.dests.next ∧ ∀ d dest,
      t.book.dests.get d = some dest → s.book.dests.get d = some dest ∨
        (s.book.dests.next ≤ d ∧ ∃ row : CallRow, ∃ cp, dest = row.contact cp))
      ?_ ?_ ?_ ⟨Nat.le_refl _, fun _ _ live => .inl live⟩ run
    · rintro t row t' ⟨next, old⟩ run
      rw [pullGateway_frame run]
      exact ⟨next, old⟩
    · rintro t row t' ⟨next, old⟩ run
      exact ⟨Nat.le_trans next (Nat.le_of_eq (pullCampaign_fewer run).next.symm),
        fun d dest live => old d dest (pullCampaign_dests run live)⟩
    · rintro calls actions t cp t' ⟨next, old⟩ - run
      refine ⟨Nat.le_trans next (pullService_onward run).later.1, fun d dest live => ?_⟩
      rcases pullService_dests run live with before | ⟨above, _, _, -, -, -, row, -, isRow⟩
      · exact old d dest before
      · exact .inr ⟨Nat.le_trans next above, row, cp, isRow⟩
  exact account.2 d dest live

/-! ## Steps and runs -/

theorem step_onward {e : Event} (inv : Inv ans s) (step : dialer.step s e s') :
    Onward s.book s'.book := by
  cases main : e.isMain with
  | true => exact (mainStep_fewer inv main step).onward
  | false =>
    cases step_cases step with
    | pulled run => exact pull_onward run
    | ticked ticks => cases ticks <;> cases main
    | supervised => cases main
    | calledBack callback => cases e <;> simp_all [Event.isMain, Event.isCallback]
    | lost => cases main

theorem run_onward {h : List (Sys × Event)} (reach : dialer.Reachable s)
    (run : dialer.Run s h s') : Onward s.book s'.book := by
  induction run with
  | nil => exact Onward.refl _
  | snoc before last ih =>
    obtain ⟨ans, inv⟩ := reachable_inv (reach.run before)
    exact ih.trans (step_onward inv last)

end Autodialer
