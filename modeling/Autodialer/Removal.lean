import Autodialer.Fate
import Autodialer.Listing
import Autodialer.PassEnds
import Autodialer.Spacing
import Autodialer.Stopping

/-!
# Stopped campaigns are removed

A pass destroys a campaign that is stopped or disabled, unless there is something on its process
list.

* `pullCampaigns_removes`: without a process list its row destroys the campaign.
* `pullCampaigns_keeps`: with a process list no row does.
* `removed_iff`: the campaign is removed exactly if its process list is empty.
* `stopped_stays`: without calls it is never removed then, as long as it is stopped.
* `stopped_not_removed`: a contact that is never called stays on the process list.
-/

namespace Autodialer

variable {s s' t : Sys} {k : Nat} {d : DestId} {cp : CampId} {camp camp' : Campaign}
  {snap : Snapshot} {row : CampaignRow} {rows : List CampaignRow} {ans : CallId → Addr → Prop}

/-! ## The rows -/

/-- The rows of the campaign stop or disable it, and there is such a row. -/
structure Stops (id : Nat) (rows : List CampaignRow) : Prop where
  found : ∃ row ∈ rows, row.id = id
  stopped : ∀ row ∈ rows, row.id = id → row.status = 4 ∨ row.status = 5

/-- A campaign with something on its process list survives its rows. -/
theorem pullCampaigns_keeps (between : BetweenRows ans s) (live : s.book.camps.get cp = some camp)
    (busy : camp.processl ≠ []) (run : pullCampaigns s rows = .ok s') :
    ∃ camp', s'.book.camps.get cp = some camp' := by
  have account := Fallible.foldlM_rule (I := fun _ t => BetweenRows ans t ∧
      ∃ camp', t.book.camps.get cp = some camp' ∧ camp'.processl = camp.processl)
    (fun row _ t t' ⟨between, camp', live', same⟩ run => ?_) ⟨between, camp, live, rfl⟩ run
  · obtain ⟨-, camp', live', -⟩ := account
    exact ⟨camp', live'⟩
  · refine ⟨between.next run, ?_⟩
    rcases eq_or_ne row.id camp'.campaignId with isRow | notRow
    · have read := pullCampaign_own between.inv between.distinct live' isRow run
      obtain ⟨found, liveFound, ⟨-, empty, -⟩ | ⟨-, gateway, pbxGateway, kept⟩, -⟩ :=
        readCampaign_camps read
      · cases live'.symm.trans liveFound
        exact absurd (same.symm.trans empty) busy
      · cases live'.symm.trans liveFound
        exact ⟨_, kept, same⟩
    · exact ⟨camp', pullCampaign_other live' notRow run, same⟩

/-- A stopped campaign with nothing on its process list does not survive its row. -/
theorem pullCampaigns_removes (between : BetweenRows ans s)
    (live : s.book.camps.get cp = some camp) (empty : camp.processl = [])
    (stops : Stops camp.campaignId rows) (run : pullCampaigns s rows = .ok s') :
    s'.book.camps.get cp = none := by
  have account := Fallible.foldlM_rule (I := fun rest t => BetweenRows ans t ∧
      s.book.camps.Later t.book.camps ∧ (t.book.camps.get cp = none ∨
        (t.book.camps.get cp = some camp ∧ Stops camp.campaignId rest)))
    (fun row rest t t' ⟨between, later, place⟩ run => ?_) ⟨between, .refl _, .inr ⟨live, stops⟩⟩ run
  · obtain ⟨-, -, dead | ⟨-, found, -⟩⟩ := account
    · exact dead
    · obtain ⟨row, mem, -⟩ := found
      cases mem
  · refine ⟨between.next run, later.trans (pullCampaign_later run), ?_⟩
    have old : cp < t.book.camps.next := Nat.lt_of_lt_of_le (Heap.lt_next live) later.1
    rcases place with dead | ⟨live', stops⟩
    · exact .inl ((pullCampaign_later run).2 cp old dead)
    rcases eq_or_ne row.id camp.campaignId with isRow | notRow
    · have read := pullCampaign_own between.inv between.distinct live' isRow run
      obtain ⟨found, liveFound, ⟨-, -, dead⟩ | ⟨kept, -⟩, -⟩ := readCampaign_camps read
      · exact .inl dead
      · cases live'.symm.trans liveFound
        have status : 3 < row.status % 2 ^ 8 := by
          rcases stops.stopped row List.mem_cons_self isRow with status | status <;>
            rw [status] <;> decide
        exact absurd ⟨status, empty⟩ kept
    · refine .inr ⟨pullCampaign_other live' notRow run, ?_, fun row mem => ?_⟩
      · obtain ⟨found, mem, isFound⟩ := stops.found
        rcases List.mem_cons.mp mem with rfl | mem
        · exact absurd isFound notRow
        · exact ⟨found, mem, isFound⟩
      · exact stops.stopped row (List.mem_cons_of_mem _ mem)

theorem pullCampaigns_later (run : pullCampaigns s rows = .ok s') :
    s.book.camps.Later s'.book.camps :=
  Fallible.foldlM_rule (I := fun _ t => s.book.camps.Later t.book.camps)
    (fun _ _ _ _ later run => later.trans (pullCampaign_later run)) (.refl _) run

/-! ## The pass -/

/-- A pass whose queries succeed goes through its three loops. -/
theorem Snapshot.Succeeds.stages (succeeds : snap.Succeeds) (run : pullGroups s snap = .ok s') :
    ∃ gateways rows t u, snap.campaigns = some rows ∧ pullGateways s gateways = .ok t ∧
      pullCampaigns t rows = .ok u ∧
      u.services.foldlM (pullService snap.calls snap.actions) u = .ok s' := by
  rcases pullGroups_cases run with ⟨failed, -⟩ | ⟨gateways, t, -, pulled, ⟨failed, -⟩ |
    ⟨rows, u, hasRows, read, services⟩⟩
  · exact absurd succeeds.gateways (by simp [failed])
  · exact absurd succeeds.campaigns (by simp [failed])
  · exact ⟨gateways, rows, t, u, hasRows, pulled, read, services⟩

/-- The campaign is no service any more, and it is destroyed with its destinations. -/
structure Removed (s s' : Sys) (cp : CampId) : Prop where
  unlisted : cp ∉ s'.services
  destroyed : s'.book.camps.get cp = none
  dests : ∀ d dest, s.book.dests.get d = some dest → dest.cp = cp → s'.book.dests.get d = none

/-- A campaign that is destroyed in a pass is removed. -/
theorem removed_of_dead (inv : Inv ans s) (run : pullGroups s snap = .ok s')
    (dead : s'.book.camps.get cp = none) : Removed s s' cp := by
  have inv' := inv.pull run
  refine ⟨fun listed => ?_, dead, fun d dest live onCp => ?_⟩
  · obtain ⟨camp, live⟩ := (inv'.rostered.mem cp).mp listed
    cases live.symm.trans dead
  · cases live' : s'.book.dests.get d with
    | none => rfl
    | some dest' =>
      rcases pull_dests run live' with same | ⟨new, -⟩
      · cases live.symm.trans same
        obtain ⟨_, camp, -, -, liveCamp, -⟩ := inv'.partition.linked d dest live'
        rw [onCp, dead] at liveCamp
        cases liveCamp
      · exact absurd (Heap.lt_next live) (Nat.not_lt.mpr new)

/-- The services keep the campaigns that are there. -/
theorem services_camps (cp : CampId) {l : List CampId} {calls : Nat → Option (List CallRow)}
    {actions : Nat → Option (List ActionRow)} (run : l.foldlM (pullService calls actions) s = .ok s') :
    s.book.camps.Later s'.book.camps ∧
      ((∃ camp, s.book.camps.get cp = some camp) → ∃ camp, s'.book.camps.get cp = some camp) :=
  Fallible.foldlM_rule (I := fun _ t => s.book.camps.Later t.book.camps ∧
      ((∃ camp, s.book.camps.get cp = some camp) → ∃ camp, t.book.camps.get cp = some camp))
    (fun cp' _ t t' ⟨later, kept⟩ run => by
      refine ⟨later.trans (pullService_later run), fun there => ?_⟩
      obtain ⟨camp, live⟩ := kept there
      obtain ⟨found, liveFound, here, others⟩ := pullService_camps run
      rcases eq_or_ne cp cp' with rfl | ne
      · rcases here with ⟨rfl, -⟩ | ⟨-, -, _, _, -, loaded⟩
        · exact ⟨camp, live⟩
        · exact ⟨_, loaded⟩
      · exact ⟨camp, (others cp ne).trans live⟩)
    ⟨.refl _, id⟩ run

/-- A campaign with something on its process list survives the pass. -/
theorem pass_keeps (reach : dialer.Reachable s) (live : s.book.camps.get cp = some camp)
    (busy : camp.processl ≠ []) (run : pullGroups s snap = .ok s') :
    ∃ camp', s'.book.camps.get cp = some camp' := by
  rcases pullGroups_cases run with ⟨-, rfl⟩ | ⟨gateways, t, -, pulled, rest⟩
  · exact ⟨camp, live⟩
  obtain ⟨book, ans, between⟩ := reads_between reach pulled
  have liveThen : t.book.camps.get cp = some camp := by rw [book]; exact live
  rcases rest with ⟨-, rfl⟩ | ⟨rows, u, -, read, services⟩
  · exact ⟨camp, liveThen⟩
  · exact (services_camps cp services).2 (pullCampaigns_keeps between liveThen busy read)

/-- A stopped campaign with nothing on its process list is removed. -/
theorem pass_removes (reach : dialer.Reachable s) (live : s.book.camps.get cp = some camp)
    (empty : camp.processl = []) (succeeds : snap.Succeeds)
    (stops : ∀ rows ∈ snap.campaigns, Stops camp.campaignId rows)
    (run : pullGroups s snap = .ok s') : Removed s s' cp := by
  obtain ⟨gateways, rows, t, u, hasRows, pulled, read, services⟩ := succeeds.stages run
  obtain ⟨book, ans, between⟩ := reads_between reach pulled
  have liveThen : t.book.camps.get cp = some camp := by rw [book]; exact live
  have dead := pullCampaigns_removes between liveThen empty (stops rows hasRows) read
  have old : cp < u.book.camps.next :=
    Nat.lt_of_lt_of_le (Heap.lt_next liveThen) (pullCampaigns_later read).1
  -- The loops over the services bring nothing back.
  have gone : s'.book.camps.get cp = none := (services_camps cp services).1.2 cp old dead
  obtain ⟨_, inv⟩ := reachable_inv reach
  exact removed_of_dead inv run gone

/-- In every reachable state: a pass whose queries succeed and whose rows stop or disable the
campaign removes it exactly if its process list is empty. -/
theorem removed_iff (reach : dialer.Reachable s) (live : s.book.camps.get cp = some camp)
    (succeeds : snap.Succeeds) (stops : ∀ rows ∈ snap.campaigns, Stops camp.campaignId rows) :
    (∃ s', pullGroups s snap = .ok s' ∧ Removed s s' cp) ↔ camp.processl = [] := by
  constructor
  · rintro ⟨s', run, removed⟩
    refine Classical.byContradiction fun busy => ?_
    obtain ⟨camp', kept⟩ := pass_keeps reach live busy run
    cases removed.destroyed.symm.trans kept
  · intro empty
    obtain ⟨s', run⟩ := pass_succeeds reach succeeds
    exact ⟨s', run, pass_removes reach live empty succeeds stops run⟩

/-! ## A campaign that is never removed -/

/-- The pass does not find the campaign running. -/
def Event.HoldsStopped (k : Nat) : Event → Prop
  | .pull snap => ∀ rows ∈ snap.campaigns, ∀ row ∈ rows, row.id = k → row.status % 2 ^ 8 ≠ 2
  | _ => True

/-- No destination of the campaign has a call. -/
def Idle (s : Sys) (cp : CampId) : Prop :=
  ∀ d dest, s.book.dests.get d = some dest → dest.cp = cp → dest.call = none

/-- The campaign `k` is stopped, and a contact without a call is on its process list. -/
structure Stuck (k : Nat) (cp : CampId) (d : DestId) (b : Book) : Prop where
  stopped : ∃ camp, b.camps.get cp = some camp ∧ camp.campaignId = k ∧ camp.campaignStatus ≠ 2
  contact : ∃ dest, b.dests.get d = some dest ∧ dest.cp = cp ∧ dest.le = some (.processl cp) ∧
    dest.call = none

/-- No tick gets to the contact of a stopped campaign. -/
theorem Stuck.tick {cp' : CampId} {now : Time} {env : DestId → DialEnv} {e : Event}
    (stuck : Stuck k cp d s.book) (inv : Inv ans s) (ticks : Ticks s cp' now env e t)
    (run : startFakeCalling t cp' now env = .ok s') :
    s'.book.dests.get d = s.book.dests.get d := by
  obtain ⟨dest, live, onCp, on, -⟩ := stuck.contact
  obtain ⟨camp, liveCamp, -, stopped⟩ := stuck.stopped
  have starts : Inv ans t := inv.ticks ticks
  obtain ⟨f, msgq, torn, lost, flags, state⟩ := ticks.state
  have liveStart : t.book.dests.get d = some dest := by
    rw [state]
    exact live
  rw [live]
  refine startFakeCalling_rule (I := fun u => u.book.dests.get d = some dest) ?_ ?_ ?_ liveStart run
  · exact fun _ _ kept _ => kept
  · -- it is not on the list that the tick selects from
    refine fun book _ filled => fillProcessl_passes liveStart (fun camp' liveCamp' mem => ?_) filled
    obtain ⟨dest', live', -, waiting⟩ := starts.partition.on_destinations liveCamp' mem
    cases liveStart.symm.trans live'
    cases on.symm.trans waiting
  · intro d' u dest' u' destroyed reached live live' result
    rcases eq_or_ne d d' with rfl | ne
    · -- a tick of its campaign does not dial
      obtain ⟨_, loop⟩ := reached.dialling starts
      obtain ⟨dest'', live'', onCp', -⟩ := loop.on d List.mem_cons_self
      cases live.symm.trans live''
      obtain rfl : cp' = cp := onCp'.symm.trans onCp
      obtain ⟨camp', _, _, _, liveCamp', active, -⟩ := reached
      rw [state] at liveCamp'
      have written : (s.book.camps.modify cp' f).get cp' = some camp' := liveCamp'
      obtain ⟨_, _, eq⟩ := flags camp
      rw [Heap.get_modify_self, liveCamp, Option.map_some, eq] at written
      cases written
      exact absurd active stopped
    · rw [result.others ne]
      exact live

/-- What is stuck stays stuck as long as the passes do not find the campaign running. -/
theorem Stuck.step {e : Event} (stuck : Stuck k cp d s.book) (reach : dialer.Reachable s)
    (holds : e.HoldsStopped k) (step : dialer.step s e s') : Stuck k cp d s'.book := by
  obtain ⟨ans, inv⟩ := reachable_inv reach
  obtain ⟨_, inv'⟩ := reachable_inv (reach.step step)
  obtain ⟨dest, live, onCp, on, idle⟩ := stuck.contact
  obtain ⟨camp, liveCamp, isK, stopped⟩ := stuck.stopped
  have contact : s'.book.dests.get d = some dest := by
    cases step_cases step with
    | pulled run =>
      -- the campaign has something on its process list, so it survives the pass, and `d` with it
      have busy : camp.processl ≠ [] := by
        obtain ⟨r, camp', isRing, -, liveCamp', mem⟩ := inv.partition.linked d dest live
        rw [onCp] at liveCamp'
        cases liveCamp.symm.trans liveCamp'
        cases on.symm.trans isRing
        exact List.ne_nil_of_mem mem
      obtain ⟨camp', kept⟩ := pass_keeps reach liveCamp busy run
      cases live' : s'.book.dests.get d with
      | none =>
        have gone := pull_loss inv run live live'
        rw [onCp] at gone
        cases kept.symm.trans gone
      | some dest' =>
        rcases pull_dests run live' with same | ⟨new, -⟩
        · exact same.symm.trans live
        · exact absurd (Heap.lt_next live) (Nat.not_lt.mpr new)
    | ticked ticks run => exact (stuck.tick inv ticks run).trans live
    | @supervised d' _ _ dest' _ live' armed run =>
      rcases eq_or_ne d d' with rfl | ne
      · cases live.symm.trans live'
        -- a destination without a call has no timer
        have unarmed := (inv.supervised d dest live).armed
        rw [idle, armed] at unarmed
        cases unarmed
      · exact (inv.supervised_others live' armed run ne).trans live
    | calledBack => exact live
    | lost => exact live
  refine ⟨?_, dest, contact, onCp, on, idle⟩
  obtain ⟨_, camp', -, -, liveCamp', -⟩ := inv'.partition.linked d dest contact
  rw [onCp] at liveCamp'
  refine ⟨camp', liveCamp', (step_ids inv step liveCamp liveCamp').trans isK, ?_⟩
  cases main : e.isMain with
  | true =>
    obtain ⟨old, liveOld, _, _, _, _, rfl⟩ := mainStep_steady inv main step cp camp' liveCamp'
    cases liveCamp.symm.trans liveOld
    exact stopped
  | false =>
    obtain ⟨snap, rfl, run⟩ := pass_of_step step main
    refine (pull_camp (P := fun camp => camp.campaignStatus ≠ 2) run liveCamp stopped ?_ ?_
      liveCamp').2
    · intro gateways rows t _ hasRows _ row mem old gateway pbxGateway isCamp _ _ _
      exact holds rows hasRows row mem (isCamp.trans isK)
    · exact fun _ _ _ stopped => stopped

/-- A stopped campaign that has no calls and something on its process list is a service
in every later state of a run whose passes do not find it running. -/
theorem stopped_stays {h : List (Sys × Event)} (reach : dialer.Reachable s)
    (live : s.book.camps.get cp = some camp) (idle : Idle s cp) (stopped : camp.campaignStatus ≠ 2)
    (busy : camp.processl ≠ []) (after : dialer.Run s h t)
    (holds : ∀ x ∈ h, x.2.HoldsStopped camp.campaignId) : cp ∈ t.services := by
  obtain ⟨_, inv⟩ := reachable_inv reach
  obtain ⟨d, mem⟩ := List.exists_mem_of_ne_nil _ busy
  obtain ⟨dest, liveDest, onCp, on⟩ := inv.partition.on_processl live mem
  have start : Stuck camp.campaignId cp d s.book :=
    ⟨⟨camp, live, rfl, stopped⟩, dest, liveDest, onCp, on, idle d dest liveDest onCp⟩
  have stuck : Stuck camp.campaignId cp d t.book := by
    clear live
    induction after with
    | nil => exact start
    | @snoc h t u e before last ih =>
      have old := ih fun x mem => holds x (List.mem_append_left _ mem)
      exact old.step (reach.run before)
        (holds _ (List.mem_append_right h (List.mem_singleton_self _))) last
  obtain ⟨_, inv'⟩ := reachable_inv (reach.run after)
  obtain ⟨camp', liveCamp', -⟩ := stuck.stopped
  exact (inv'.rostered.mem cp).mpr ⟨camp', liveCamp'⟩

/-! ## One campaign -/

/-- The pass that stops the campaign of `oneCampaign`. -/
def stoppingPass : Snapshot :=
  { oneCampaign with campaigns := some (campaignOn 4) }

theorem stoppingPass_succeeds : stoppingPass.Succeeds :=
  ⟨rfl, rfl, fun _ => rfl, fun _ => rfl⟩

theorem stoppingPass_stops : ∀ rows ∈ stoppingPass.campaigns, Stops 1 rows := by
  intro rows answered
  cases Option.mem_some.mp answered
  refine ⟨⟨_, List.mem_singleton_self _, rfl⟩, fun row mem _ => .inl ?_⟩
  rw [List.mem_singleton.mp mem]

/-- The campaign is stopped before its first tick. -/
theorem removed_iff_loaded : ∃ s camp, dialer.Reachable s ∧ s.book.camps.get 0 = some camp ∧
    stoppingPass.Succeeds ∧ (∀ rows ∈ stoppingPass.campaigns, Stops camp.campaignId rows) ∧
    camp.processl = [] ∧
    ((∃ s', pullGroups s stoppingPass = .ok s' ∧ Removed s s' 0) ↔ camp.processl = []) := by
  obtain ⟨h, s, run, test⟩ := Lts.replay_exists SysInit Sys.next (s := Sys.boot 4 "/audio")
    [.pull oneCampaign]
    (fun _ s => (s.book.camps.get 0).any fun camp => camp.campaignId = 1 && camp.processl.isEmpty)
    ⟨4, "/audio", by decide, rfl⟩ (by decide)
  simp only [Option.any_eq_true, Bool.and_eq_true, decide_eq_true_eq, List.isEmpty_iff] at test
  obtain ⟨camp, live, isOne, empty⟩ := test
  have stops : ∀ rows ∈ stoppingPass.campaigns, Stops camp.campaignId rows := by
    rw [isOne]
    exact stoppingPass_stops
  exact ⟨s, camp, ⟨h, run⟩, live, stoppingPass_succeeds, stops, empty,
    removed_iff ⟨h, run⟩ live stoppingPass_succeeds stops⟩

/-- A campaign without a gateway is started. Its contacts stay on the process list, and the
campaign cannot be stopped. -/
theorem stopped_not_removed : ¬ ∀ (s : Sys) (snap : Snapshot) (cp : CampId) (camp : Campaign),
    dialer.Reachable s → s.book.camps.get cp = some camp → Idle s cp → snap.Succeeds →
    (∀ rows ∈ snap.campaigns, Stops camp.campaignId rows) →
    ∃ s', pullGroups s snap = .ok s' ∧ Removed s s' cp := by
  intro always
  obtain ⟨h, s, run, test⟩ := Lts.replay_exists SysInit Sys.next (s := Sys.boot 4 "/audio")
    [.pull { oneCampaign with gateways := some [] }, .message 100 fun _ => {}]
    (fun _ s => (s.media.calls.next = 0 && (s.book.camps.get 0).any fun camp =>
      camp.campaignId = 1 && !camp.processl.isEmpty))
    ⟨4, "/audio", by decide, rfl⟩ (by decide)
  simp only [Option.any_eq_true, Bool.and_eq_true, decide_eq_true_eq, Bool.not_eq_true',
    List.isEmpty_eq_false_iff] at test
  obtain ⟨noCalls, camp, live, isOne, busy⟩ := test
  obtain ⟨_, inv⟩ := reachable_inv ⟨h, run⟩
  have idle : Idle s 0 := by
    intro d dest liveDest _
    cases onCall : dest.call with
    | none => rfl
    | some c =>
      obtain ⟨call, liveCall, -⟩ := inv.sound.owned d c ((owner_of_live liveDest).trans onCall)
      have allocated := Heap.lt_next liveCall
      rw [noCalls] at allocated
      exact absurd allocated (Nat.not_lt_zero c)
  have stops : ∀ rows ∈ stoppingPass.campaigns, Stops camp.campaignId rows := by
    rw [isOne]
    exact stoppingPass_stops
  obtain ⟨s', pass, removed⟩ := always s stoppingPass 0 camp ⟨h, run⟩ live idle
    stoppingPass_succeeds stops
  obtain ⟨camp', kept⟩ := pass_keeps ⟨h, run⟩ live busy pass
  cases removed.destroyed.symm.trans kept

end Autodialer
