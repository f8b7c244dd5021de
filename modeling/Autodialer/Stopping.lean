import Autodialer.Listing

/-!
# Stopping a campaign

A tick goes by the status that the last pass has left in memory, and a pass selects
only the rows of `campaigns` with a status above 1. A row that is deleted or set to 0
or 1 is therefore not seen, and the campaign keeps the status it had.

* `stopped_no_calls`: if every pass that should stop a campaign finds its row, the
  campaign places no call after that until a pass sees it running again.
* `stopped_calls`: a campaign whose status was set to 0 is started and dials.
-/

namespace Autodialer

variable {s s' t : Sys} {e : Event} {k : Nat} {cp : CampId} {camp : Campaign} {now : Time}
  {rows table : List CampaignRow} {h : List (Sys × Event)} {ans : CallId → Addr → Prop}

/-! ## The table and the passes -/

/-- The rows of `campaigns` that `pull_groups` selects: `WHERE c.status > 1`. -/
def selectCampaigns (table : List CampaignRow) : List CampaignRow :=
  table.filter fun row => 1 < row.status

/-- A pass whose queries on `gateway` and `campaigns` succeed, on this table. -/
def PassOn (table : List CampaignRow) : Event → Prop
  | .pull snap => snap.gateways.isSome = true ∧ snap.campaigns = some (selectCampaigns table)
  | _ => False

/-- The rows of a pass are those that its query selects from a table. -/
def FromTable : Event → Prop
  | .pull snap => ∀ rows, snap.campaigns = some rows → ∃ table, rows = selectCampaigns table
  | _ => True

/-- No row of the table says that the campaign is running. -/
def NotRunning (k : Nat) (table : List CampaignRow) : Prop :=
  ∀ row ∈ table, row.id = k → row.status ≠ 2

def SeesStopped (k : Nat) (e : Event) : Prop := ∃ table, PassOn table e ∧ NotRunning k table

def SeesRunning (k : Nat) (e : Event) : Prop := ∃ table, PassOn table e ∧ ¬ NotRunning k table

/-- A pass on a table where the campaign is not running finds a row of it, if it has
the status 2 in memory, and no row whose status becomes 2 in eight bits. -/
def Tells (k : Nat) (s : Sys) (e : Event) : Prop :=
  ∀ table, PassOn table e → NotRunning k table →
    (∀ cp camp, s.book.camps.get cp = some camp → camp.campaignId = k → camp.campaignStatus = 2 →
      ∃ row ∈ table, row.id = k ∧ 1 < row.status) ∧
    ∀ row ∈ table, row.id = k → row.status % 2 ^ 8 ≠ 2

/-- In a tick of the campaign with the id `k` a new call is placed, or its INVITE is
sent. -/
def PlacesCall (k : Nat) (s : Sys) (e : Event) (s' : Sys) : Prop :=
  ∃ cp now env t camp c, Ticks s cp now env e t ∧ s.book.camps.get cp = some camp ∧
    camp.campaignId = k ∧ s.media.calls.next ≤ c ∧
    ((s'.media.calls.get c).isSome = true ∨
      ∃ arg isPbx tel, .invite c arg isPbx tel ∈ s'.media.wire.drop s.media.wire.length)

/-! ## The status in memory -/

/-- The campaign has not the status 2 in memory. -/
def Stopped (k : Nat) (b : Book) : Prop :=
  ∀ cp camp, b.camps.get cp = some camp → camp.campaignId = k → camp.campaignStatus ≠ 2

/-- A tick of a stopped campaign places no call. -/
theorem Stopped.quiet (stopped : Stopped k s.book) (step : dialer.step s e s') :
    ¬ PlacesCall k s e s' := by
  rintro ⟨cp, now, env, t, camp, c, ticks, live, isK, new, placed⟩
  have media : s'.media = s.media := by
    cases step_cases step with
    | pulled => cases ticks
    | supervised => cases ticks
    | calledBack callback =>
      cases ticks with
      | message | timer => cases callback
    | lost => cases ticks
    | @ticked _ cp' now' env' t' _ ticks' run =>
      obtain ⟨rfl, rfl⟩ : cp' = cp ∧ t' = t := by
        cases ticks with
        | message oldest =>
          cases ticks' with
          | message oldest' =>
            rw [oldest] at oldest'
            cases oldest'
            exact ⟨rfl, rfl⟩
        | timer =>
          cases ticks' with
          | timer => exact ⟨rfl, rfl⟩
      obtain ⟨f, msgq, torn, lost, flags, rfl⟩ := ticks.state
      obtain ⟨_, _, eq⟩ := flags camp
      obtain ⟨camp', live', ⟨-, rfl⟩ | ⟨active, -⟩⟩ := startFakeCalling_cases run
      · rfl
      · have written : (s.book.camps.modify cp' f).get cp' = some camp' := live'
        rw [Heap.get_modify_self, live, Option.map_some, eq] at written
        cases written
        exact absurd active (stopped cp' camp live isK)
  rw [media] at placed
  rcases placed with alive | ⟨arg, isPbx, tel, sent⟩
  · obtain ⟨call, alive⟩ := Option.isSome_iff_exists.mp alive
    exact absurd (Heap.lt_next alive) (Nat.not_lt.mpr new)
  · rw [List.drop_length] at sent
    cases sent

theorem Stopped.steady {b b' : Book} (stopped : Stopped k b) (steady : Steady b b') :
    Stopped k b' := by
  intro cp camp' live isK
  obtain ⟨camp, old, _, _, _, _, rfl⟩ := steady cp camp' live
  exact stopped cp camp old isK

/-! ## The pass -/

/-- The rows still to come include one of the campaign, as long as it is running in
memory, and none of them makes it run. -/
structure Stopping (ans : CallId → Addr → Prop) (k : Nat) (rest : List CampaignRow) (s : Sys) :
    Prop where
  inv : Inv ans s
  distinct : DistinctIds s.book
  rows : ∀ row ∈ rest, row.id = k → row.status ≠ 2 ∧ row.status % 2 ^ 8 ≠ 2
  found : Stopped k s.book ∨ ∃ row ∈ rest, row.id = k

/-- The row of another campaign changes nothing about this one. -/
theorem Stopped.read {row : CampaignRow} (stopped : Stopped k s.book) (other : row.id ≠ k)
    (run : readCampaign s cp row = .ok s') : Stopped k s'.book := by
  intro cp' camp' live isK
  rcases readCampaign_origin run live with ⟨-, old⟩ | ⟨-, camp, _, _, -, -, -, rfl⟩
  · exact stopped cp' camp' old isK
  · exact absurd isK other

/-- Its own row stops the campaign. -/
theorem stopped_of_read {row : CampaignRow} (distinct : DistinctIds s.book)
    (live : s.book.camps.get cp = some camp) (isK : camp.campaignId = k)
    (status : row.status % 2 ^ 8 ≠ 2) (run : readCampaign s cp row = .ok s') :
    Stopped k s'.book := by
  intro cp' camp' live' isK'
  rcases readCampaign_origin run live' with ⟨ne, old⟩ | ⟨-, _, _, _, -, -, -, rfl⟩
  · exact absurd (distinct cp' cp camp' camp old live (isK'.trans isK.symm)) ne
  · exact status

theorem Stopping.row {row : CampaignRow} {rest : List CampaignRow}
    (stopping : Stopping ans k (row :: rest) s) (run : pullCampaign s row = .ok s') :
    Stopping ans k rest s' := by
  refine ⟨stopping.inv.campaign run,
    (pullCampaign_enrolled stopping.inv run).distinct stopping.distinct,
    fun row mem => stopping.rows row (List.mem_cons_of_mem _ mem), ?_⟩
  rcases eq_or_ne row.id k with isK | other
  · obtain ⟨notTwo, status⟩ := stopping.rows row List.mem_cons_self isK
    refine .inl ?_
    rcases pullCampaign_cases run with ⟨rfl, -, none⟩ | ⟨cp, -, ⟨camp, live, id⟩, run⟩ | ⟨two, -⟩
    · -- there is no campaign with this id
      intro cp camp live id
      obtain ⟨camp', live', ne⟩ := none cp ((stopping.inv.rostered.mem cp).mpr ⟨camp, live⟩)
      obtain rfl := Option.some.inj (live.symm.trans live')
      exact absurd (id.trans isK.symm) ne
    · exact stopped_of_read stopping.distinct live (id.trans isK) status run
    · exact absurd two notTwo
  · rcases stopping.found with stopped | ⟨row', mem, isK⟩
    · refine .inl ?_
      rcases pullCampaign_cases run with ⟨rfl, -⟩ | ⟨cp, -, -, run⟩ | ⟨-, -, run⟩
      · exact stopped
      · exact stopped.read other run
      · -- the new campaign has not the status 2 before its row is read
        have created : Stopped k s.createCamp.book := by
          intro cp camp live
          rcases createCamp_camps live with ⟨-, rfl⟩ | ⟨-, live⟩
          · intro _
            decide
          · exact stopped cp camp live
        exact created.read other run
    · rcases List.mem_cons.mp mem with rfl | mem
      · exact absurd isK other
      · exact .inr ⟨row', mem, isK⟩

theorem pullServices_stopped {snap : Snapshot} {l : List CampId} (stopped : Stopped k s.book)
    (run : l.foldlM (pullService snap.calls snap.actions) s = .ok s') : Stopped k s'.book := by
  refine Fallible.foldlM_rule (I := fun _ t => Stopped k t.book) ?_ stopped run
  intro cp rest t t' stopped run cp' camp' live isK
  rcases pullService_origin run live with old | ⟨-, camp, _, _, old, -, -, rfl⟩
  · exact stopped cp' camp' old isK
  · exact stopped cp camp old isK

/-- A pass that should stop the campaign stops it. -/
theorem pass_stops {snap : Snapshot} (inv : Inv ans s) (distinct : DistinctIds s.book)
    (pass : PassOn table (.pull snap)) (stops : NotRunning k table) (tells : Tells k s (.pull snap))
    (run : pullGroups s snap = .ok s') : Stopped k s'.book := by
  obtain ⟨found, eightBits⟩ := tells table pass stops
  obtain ⟨sent, selected⟩ := pass
  rcases pullGroups_cases run with ⟨failed, -⟩ | ⟨gateways, t, -, first, ⟨failed, -⟩ |
    ⟨rows, u, answered, second, run⟩⟩
  · rw [failed] at sent
    cases sent
  · rw [failed] at selected
    cases selected
  · obtain rfl : rows = selectCampaigns table := Option.some.inj (answered.symm.trans selected)
    have book := pullGateways_book first
    have invT := inv.gateways first
    have start : Stopping ans k (selectCampaigns table) t := by
      refine ⟨invT, by rwa [book], fun row mem isK => ?_, ?_⟩
      · have mem := (List.mem_filter.mp mem).1
        exact ⟨stops row mem isK, eightBits row mem isK⟩
      · rw [book]
        refine or_iff_not_imp_left.mpr fun running => ?_
        unfold Stopped at running
        push Not at running
        obtain ⟨cp, camp, live, isK, two⟩ := running
        obtain ⟨row, mem, isRow, selected⟩ := found cp camp live isK two
        exact ⟨row, List.mem_filter.mpr ⟨mem, decide_eq_true selected⟩, isRow⟩
    have done := Fallible.foldlM_rule (I := fun rest t => Stopping ans k rest t)
      (fun _ _ _ _ stopping run => stopping.row run) start second
    rcases done.found with stopped | ⟨row, mem, -⟩
    · exact pullServices_stopped stopped run
    · cases mem

/-- A stopped campaign starts only with a pass that sees it running. -/
theorem Stopped.step (stopped : Stopped k s.book) (reach : dialer.Reachable s)
    (fromTable : FromTable e) (tells : Tells k s e) (unseen : ¬ SeesRunning k e)
    (step : dialer.step s e s') : Stopped k s'.book := by
  obtain ⟨ans, inv⟩ := reachable_inv reach
  cases main : e.isMain with
  | true => exact stopped.steady (mainStep_steady inv main step)
  | false =>
    obtain ⟨snap, rfl, run⟩ := pass_of_step step main
    rcases pullGroups_cases run with ⟨-, rfl⟩ | ⟨gateways, t, some, first, ⟨-, rfl⟩ |
      ⟨rows, u, answered, -⟩⟩
    · exact stopped
    · rwa [pullGateways_book first]
    · obtain ⟨table, rfl⟩ := fromTable rows answered
      have pass : PassOn table (.pull snap) := ⟨by rw [some]; rfl, answered⟩
      have stops : NotRunning k table := by
        by_contra running
        exact unseen ⟨table, pass, running⟩
      exact pass_stops inv (distinct_ids reach) pass stops tells run

/-! ## Runs -/

theorem Stopped.run (between : dialer.Run s h t) (reach : dialer.Reachable s)
    (stopped : Stopped k s.book)
    (each : ∀ y ∈ h, FromTable y.2 ∧ Tells k y.1 y.2 ∧ ¬ SeesRunning k y.2) : Stopped k t.book := by
  induction between with
  | nil => exact stopped
  | @snoc h u v e before step ih =>
    have here := ih fun y mem => each y (List.mem_append_left _ mem)
    obtain ⟨fromTable, tells, unseen⟩ :=
      each (u, e) (List.mem_append_right h (List.mem_singleton_self _))
    exact here.step (reach.run before) fromTable tells unseen step

/-- After a pass that has seen a campaign not running, no tick places a call for it
before a pass sees it running. -/
theorem stopped_no_calls (run : dialer.Execution h s) (tables : ∀ x ∈ h, FromTable x.2)
    (tells : ∀ x ∈ h, Tells k x.1 x.2) :
    ∀ h₁ t e h₂ u e' h₃ u', h = h₁ ++ (t, e) :: h₂ ++ (u, e') :: h₃ → SeesStopped k e →
      (∀ y ∈ h₂, ¬ SeesRunning k y.2) → dialer.step u e' u' → ¬ PlacesCall k u e' u' := by
  rintro h₁ t e h₂ u e' h₃ u' rfl ⟨table, pass, stops⟩ unseen step
  obtain ⟨_, before, -, -⟩ := run.split
  obtain ⟨v, first, stopping, between⟩ := before.split
  have notMain : e.isMain = false := by
    cases e with
    | pull => rfl
    | message | campTimer | destTimer | progress | establish | close | rtp | played | lose | astray =>
      cases pass
  obtain ⟨snap, rfl, passed⟩ := pass_of_step stopping notMain
  obtain ⟨ans, inv⟩ := reachable_inv first.reachable
  have start : Stopped k v.book :=
    pass_stops inv (distinct_ids first.reachable) pass stops (tells (t, .pull snap) (by simp)) passed
  have stopped : Stopped k u.book := start.run between (first.reachable.step stopping) fun y mem =>
    ⟨tables y (by simp [mem]), tells y (by simp [mem]), unseen y mem⟩
  exact stopped.quiet step

/-- The pass selects a row of the campaign, and all its statuses fit in eight bits. -/
def Event.finds (k : Nat) : Event → Bool
  | .pull snap => snap.campaigns.all fun rows =>
      rows.any (fun row => row.id = k) && rows.all fun row => 1 < row.status && row.status < 2 ^ 8
  | _ => true

theorem tells_of_finds (finds : e.finds k = true) : FromTable e ∧ ∀ s, Tells k s e := by
  cases e with
  | pull snap =>
    rw [Event.finds, Option.all_eq_true] at finds
    have split : ∀ rows, snap.campaigns = some rows → (∃ row ∈ rows, row.id = k) ∧
        ∀ row ∈ rows, 1 < row.status ∧ row.status < 2 ^ 8 := by
      intro rows answered
      have both := finds rows answered
      simpa only [Bool.and_eq_true, List.any_eq_true, List.all_eq_true, decide_eq_true_eq] using both
    refine ⟨fun rows answered => ⟨rows, ?_⟩, ?_⟩
    · exact (List.filter_eq_self.mpr fun row mem =>
        decide_eq_true ((split rows answered).2 row mem).1).symm
    · rintro s table ⟨-, answered⟩ stops
      obtain ⟨⟨row, mem, isK⟩, bits⟩ := split _ answered
      refine ⟨fun _ _ _ _ _ => ⟨row, (List.mem_filter.mp mem).1, isK, (bits row mem).1⟩, ?_⟩
      intro row mem isK
      rcases Nat.lt_or_ge 1 row.status with selected | low
      · have bound := (bits row (List.mem_filter.mpr ⟨mem, decide_eq_true selected⟩)).2
        rw [Nat.mod_eq_of_lt bound]
        exact stops row mem isK
      · rw [Nat.mod_eq_of_lt (Nat.lt_of_le_of_lt low (by decide))]
        exact stops row mem isK
  | message | campTimer | destTimer | progress | establish | close | rtp | played | lose | astray =>
    exact ⟨trivial, fun _ _ pass => absurd pass id⟩

/-- The row of the campaign of `oneCampaign`, with this status. -/
def campaignOn (status : Nat) : List CampaignRow :=
  [{ id := 1, frequency := 2, fileName := some "offer.gsm", maxCallRetry := 1, gatewayId := 1,
     pbxGatewayId := 1, pbxNumber := some "600", status := status }]

/-- The pass that finds this status in the table. -/
def statusPass (status : Nat) : Snapshot :=
  { oneCampaign with campaigns := some (selectCampaigns (campaignOn status)) }

/-- The campaign is paused before its first tick. -/
theorem stopped_no_calls_paused : ∃ h t u u', dialer.Execution (h ++ [(t, .pull (statusPass 3))]) u ∧
    dialer.step u (.message 100 fun _ => {}) u' ∧
    ¬ PlacesCall 1 u (.message 100 fun _ => {}) u' := by
  obtain ⟨h, t, run, test⟩ := Lts.replay_exists SysInit Sys.next (s := Sys.boot 4 "/audio")
    [.pull (statusPass 2)]
    (fun h t => h.all (fun x => x.2.finds 1) && (t.next (.pull (statusPass 3))).any fun u =>
      (u.next (.message 100 fun _ => {})).isSome)
    ⟨4, "/audio", by decide, rfl⟩ (by decide)
  obtain ⟨first, test⟩ := Bool.and_eq_true_iff.mp test
  obtain ⟨u, pauses, goesOn⟩ := (Option.any_eq_true ..).mp test
  obtain ⟨u', ticks⟩ := Option.isSome_iff_exists.mp goesOn
  have paused := run.snoc (T := dialer) pauses
  have all : ∀ x ∈ h ++ [(t, .pull (statusPass 3))] ++ [(u, .message 100 fun _ => {})],
      x.2.finds 1 = true := by
    intro x mem
    rw [List.append_assoc, List.mem_append] at mem
    rcases mem with old | new
    · exact List.all_eq_true.mp first x old
    · rcases List.mem_cons.mp new with rfl | new
      · show Event.finds 1 (.pull (statusPass 3)) = true
        decide
      · rw [List.mem_singleton.mp new]
        rfl
  have sees : SeesStopped 1 (.pull (statusPass 3)) := by
    refine ⟨campaignOn 3, ⟨rfl, rfl⟩, fun row mem _ => ?_⟩
    rw [List.mem_singleton.mp mem]
    decide
  have quiet := stopped_no_calls (paused.snoc ticks) (fun x mem => (tells_of_finds (all x mem)).1)
    (fun x mem => (tells_of_finds (all x mem)).2 x.1) h t _ [] u _ [] u' rfl sees
    (fun y mem => absurd mem List.not_mem_nil) ticks
  exact ⟨h, t, u, u', paused, ticks, quiet⟩

/-- The status is set to 0 before the first tick, and the campaign is started and
dials. -/
theorem stopped_calls : ∃ h t u u', dialer.Execution (h ++ [(t, .pull (statusPass 0))]) u ∧
    SeesStopped 1 (.pull (statusPass 0)) ∧ dialer.step u (.message 100 fun _ => {}) u' ∧
    PlacesCall 1 u (.message 100 fun _ => {}) u' := by
  obtain ⟨h, t, run, test⟩ := Lts.replay_exists SysInit Sys.next (s := Sys.boot 4 "/audio")
    [.pull (statusPass 2)]
    (fun _ t => (t.next (.pull (statusPass 0))).any fun u =>
      (u.msgq.head? = some (1, 0) && u.media.calls.next = 0) &&
      (u.book.camps.get 0).any fun camp => camp.campaignId = 1 &&
        (u.next (.message 100 fun _ => {})).any fun u' => (u'.media.calls.get 0).isSome)
    ⟨4, "/audio", by decide, rfl⟩ (by decide)
  simp only [Option.any_eq_true, Bool.and_eq_true, decide_eq_true_eq] at test
  obtain ⟨u, pass, ⟨oldest, none⟩, camp, live, isK, u', ticks, placed⟩ := test
  obtain ⟨rest, queue⟩ := List.head?_eq_some_iff.mp oldest
  refine ⟨h, t, u, u', run.snoc (T := dialer) pass, ⟨campaignOn 0, ⟨rfl, rfl⟩, ?_⟩, ticks, 0, 100, _,
    _, camp, 0, .message queue, live, isK, Nat.le_of_eq none, .inl placed⟩
  intro row mem _
  cases List.mem_singleton.mp mem
  decide

end Autodialer
