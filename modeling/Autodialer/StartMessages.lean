import Autodialer.Campaigns
import Autodialer.CallLimit

/-!
# Start messages

A pass sends a message for every campaign that is not running, and the campaign
runs only when the main loop takes the message. A message that is still in the
queue when the next pass comes is sent again, or its campaign is destroyed
under it. `Undisturbed` says of a pass that it does neither.

* `step_queued`: what a step keeps of the queue.
* `start_messages`: the protocol holds in runs of undisturbed messages.
-/

namespace Autodialer

variable {s s' t : Sys} {b b' : Book} {d : DestId} {cp : CampId} {dest : Destination}
  {camp : Campaign} {now : Time} {ans : CallId → Addr → Prop} {snap : Snapshot}

/-! ## Timers -/

/-- The timer of a campaign is armed exactly while it is running. -/
def Clocked (b : Book) : Prop :=
  ∀ cp camp, b.camps.get cp = some camp → camp.tmr = camp.isRunning

theorem Relisted.clocked (change : Relisted b b') (clocked : Clocked b) : Clocked b' := by
  intro cp camp' live
  obtain ⟨camp, ds, ps, old, rfl⟩ := change.of_camp live
  exact clocked cp camp old

/-- A campaign is running when it is ticked, and its timer is not armed. -/
theorem Ticks.camps {env : DestId → DialEnv} {e : Event} (ticks : Ticks s cp now env e t)
    (clocked : Clocked s.book) :
    (∀ camp, t.book.camps.get cp = some camp → camp.isRunning = true ∧ camp.tmr = false) ∧
      ∀ cp', cp' ≠ cp → t.book.camps.get cp' = s.book.camps.get cp' := by
  cases ticks with
  | @message id rest queue =>
    rw [startCamp_eq]
    refine ⟨fun camp live => ?_, fun cp' ne => Heap.get_modify_ne ne⟩
    rw [Sys.setCamp, Book.camps_setCamp, Heap.get_modify_self] at live
    obtain ⟨old, -, rfl⟩ := Option.map_eq_some_iff.mp live
    exact ⟨rfl, rfl⟩
  | @timer camp₀ live₀ armed =>
    refine ⟨fun camp live => ?_, fun cp' ne => Heap.get_modify_ne ne⟩
    rw [Sys.disarmCamp, Sys.setCamp, Book.camps_setCamp, Heap.get_modify_self, live₀] at live
    cases live
    exact ⟨(clocked cp camp₀ live₀).symm.trans armed, rfl⟩

theorem tick_clocked {env : DestId → DialEnv} {e : Event} (ticks : Ticks s cp now env e t)
    (run : startFakeCalling t cp now env = .ok s') (clocked : Clocked s.book) :
    Clocked s'.book := by
  obtain ⟨running, others⟩ := ticks.camps clocked
  obtain ⟨camp, live, ⟨ds, ps, here⟩, apart⟩ := startFakeCalling_camps run
  intro cp' camp' live'
  by_cases same : cp' = cp
  · subst same
    obtain rfl := Option.some.inj (here.symm.trans live')
    split
    · exact (running camp live).1.symm
    · exact (running camp live).2
  · obtain ⟨ds', ps', eq⟩ := apart cp' same
    rw [eq, others cp' same] at live'
    obtain ⟨old, liveOld, rfl⟩ := Option.map_eq_some_iff.mp live'
    exact clocked cp' old liveOld

theorem readCampaign_clocked {row : CampaignRow} (clocked : Clocked s.book)
    (run : readCampaign s cp row = .ok s') : Clocked s'.book := by
  intro cp' camp' live'
  rcases readCampaign_origin run live' with ⟨-, live⟩ | ⟨-, camp, _, _, live, -, -, rfl⟩
  · exact clocked cp' camp' live
  · exact clocked cp camp live

theorem createCamp_clocked (clocked : Clocked s.book) : Clocked s.createCamp.book := by
  intro cp camp live
  rcases createCamp_camps live with ⟨-, rfl⟩ | ⟨-, live⟩
  · rfl
  · exact clocked cp camp live

theorem pullService_clocked {calls : Nat → Option (List CallRow)}
    {actions : Nat → Option (List ActionRow)} (clocked : Clocked s.book)
    (run : pullService calls actions s cp = .ok s') : Clocked s'.book := by
  intro cp' camp' live'
  rcases pullService_origin run live' with live | ⟨-, camp, _, _, live, -, -, rfl⟩
  · exact clocked cp' camp' live
  · exact clocked cp camp live

theorem step_clocked {e : Event} (inv : Inv ans s) (clocked : Clocked s.book)
    (step : dialer.step s e s') : Clocked s'.book := by
  cases step_cases step with
  | pulled run =>
    refine pullGroups_rule (I := fun t => Clocked t.book) ?_ ?_ ?_ clocked run
    · intro t row t' clocked run
      rw [pullGateway_frame run]
      exact clocked
    · intro t row t' clocked run
      rcases pullCampaign_cases run with ⟨rfl, -⟩ | ⟨cp, -, -, run⟩ | ⟨-, -, run⟩
      · exact clocked
      · exact readCampaign_clocked clocked run
      · exact readCampaign_clocked (createCamp_clocked clocked) run
    · intro calls actions t cp t' clocked _ run
      exact pullService_clocked clocked run
  | ticked ticks run => exact tick_clocked ticks run clocked
  | @supervised d _ _ _ _ live armed run =>
    obtain ⟨c, call, -, -, result⟩ := inv.supervised_cases live armed run
    have disarmed : Relisted s.book (s.disarmDest d).book := .of_camps rfl
    exact (disarmed.trans result.relisted).clocked clocked
  | calledBack => exact clocked
  | lost => exact clocked

/-! ## The queue -/

/-- The messages in the queue are for different campaigns, all of them alive and
not running. -/
structure Queued (s : Sys) : Prop where
  nodup : (s.msgq.map Prod.snd).Nodup
  stopped : ∀ cp ∈ s.msgq.map Prod.snd, ∃ camp, s.book.camps.get cp = some camp ∧
    camp.isRunning = false

/-- The pass neither ends the campaign nor sends it a message, if it is not
running: it returns early, or no row ends the campaign, which has no
destinations, and the query for them fails. -/
def LeavesAlone (snap : Snapshot) (camp : Campaign) : Prop :=
  snap.gateways = none ∨ ∀ rows, snap.campaigns = some rows →
    (∀ row ∈ rows, row.id = camp.campaignId → ¬ (3 < row.status % 2 ^ 8 ∧ camp.processl = [])) ∧
    camp.destinations = [] ∧ snap.calls camp.campaignId = none

/-- No pass comes while it would disturb a message in the queue. -/
def Undisturbed (s : Sys) : Event → Prop
  | .pull snap => ∀ msg ∈ s.msgq, ∀ camp, s.book.camps.get msg.2 = some camp → LeavesAlone snap camp
  | _ => True

theorem DialResult.msgq {env : DialEnv} {destroyed : Bool}
    (result : DialResult s now env d dest s' destroyed) : s'.msgq = s.msgq := by
  cases result <;> rfl

theorem startFakeCalling_msgq {env : DestId → DialEnv}
    (run : startFakeCalling s cp now env = .ok s') : s'.msgq = s.msgq :=
  startFakeCalling_rule (I := fun t => t.msgq = s.msgq) (fun _ _ same _ => same)
    (fun _ same _ => same) (fun _ _ _ _ _ _ same _ result => result.msgq.trans same) rfl run

theorem EndResult.msgq {env : AllocEnv} {c : CallId} {call : Call}
    (result : EndResult s now env d dest c call s') : s'.msgq = s.msgq := by
  cases result with
  | rearmed _ rules =>
    rw [rules.frame]
    rfl
  | destroyed => rfl
  | requeued => rfl

theorem Queued.relisted (queued : Queued s) (change : Relisted s.book s'.book)
    (msgq : s'.msgq = s.msgq) : Queued s' := by
  refine ⟨msgq ▸ queued.nodup, fun cp mem => ?_⟩
  obtain ⟨camp, live, stopped⟩ := queued.stopped cp (msgq ▸ mem)
  obtain ⟨ds, ps, live'⟩ := change.camp_of live
  exact ⟨_, live', stopped⟩

/-- A campaign is ticked when its message is taken, or when it is running and has
no message in the queue. -/
theorem Queued.tick {env : DestId → DialEnv} {e : Event} (queued : Queued s)
    (clocked : Clocked s.book) (ticks : Ticks s cp now env e t)
    (run : startFakeCalling t cp now env = .ok s') : Queued s' := by
  obtain ⟨-, others⟩ := ticks.camps clocked
  obtain ⟨_, -, -, apart⟩ := startFakeCalling_camps run
  have msgq := startFakeCalling_msgq run
  have waiting : (t.msgq.map Prod.snd).Nodup ∧ ∀ cp' ∈ t.msgq.map Prod.snd,
      cp' ≠ cp ∧ cp' ∈ s.msgq.map Prod.snd := by
    cases ticks with
    | @message id rest queue =>
      have distinct := queued.nodup
      rw [queue, List.map_cons, List.nodup_cons] at distinct
      refine ⟨distinct.2, fun cp' mem => ⟨?_, ?_⟩⟩
      · rintro rfl
        exact distinct.1 mem
      · rw [queue]
        exact List.mem_cons_of_mem _ mem
    | @timer camp live armed =>
      refine ⟨queued.nodup, fun cp' mem => ⟨?_, mem⟩⟩
      rintro rfl
      obtain ⟨camp', live', stopped⟩ := queued.stopped cp' mem
      obtain rfl := Option.some.inj (live.symm.trans live')
      rw [clocked cp' camp live, stopped] at armed
      cases armed
  refine ⟨msgq ▸ waiting.1, fun cp' mem => ?_⟩
  obtain ⟨ne, mem⟩ := waiting.2 cp' (msgq ▸ mem)
  obtain ⟨camp', live', stopped⟩ := queued.stopped cp' mem
  obtain ⟨ds, ps, eq⟩ := apart cp' ne
  rw [others cp' ne, live'] at eq
  exact ⟨_, eq, stopped⟩

/-! ## Passes and messages in the queue -/

/-- The campaign is alive and not running, and the rest of the pass leaves it
alone. -/
def Left (snap : Snapshot) (rows : List CampaignRow) (cp : CampId) (b : Book) : Prop :=
  ∃ camp, b.camps.get cp = some camp ∧ camp.isRunning = false ∧
    (∀ row ∈ rows, row.id = camp.campaignId → ¬ (3 < row.status % 2 ^ 8 ∧ camp.processl = [])) ∧
    camp.destinations = [] ∧ snap.calls camp.campaignId = none

theorem readCampaign_msgq {row : CampaignRow} (run : readCampaign s cp row = .ok s') :
    s'.msgq = s.msgq := by
  obtain ⟨camp, -, ⟨-, -, run⟩ | ⟨-, gateway, pbxGateway, rfl⟩⟩ := readCampaign_cases run
  · obtain ⟨_, t, -, flushed, rfl⟩ := memDerefCampaign_cases run
    have frame := flushDests_frame flushed
    show t.msgq = s.msgq
    rw [frame]
    rfl
  · rfl

theorem pullCampaign_msgq {row : CampaignRow} (run : pullCampaign s row = .ok s') :
    s'.msgq = s.msgq := by
  rcases pullCampaign_cases run with ⟨rfl, -⟩ | ⟨cp, -, -, run⟩ | ⟨-, -, run⟩
  · rfl
  · exact readCampaign_msgq run
  · have same := readCampaign_msgq run
    exact same

theorem Left.campaign {rows : List CampaignRow} {row : CampaignRow} (left : Left snap rows cp s.book)
    (mem : row ∈ rows) (run : pullCampaign s row = .ok s') : Left snap rows cp s'.book := by
  obtain ⟨camp, live, stopped, going, empty, noCalls⟩ := left
  rcases pullCampaign_cases run with ⟨rfl, -⟩ | ⟨cp', -, ⟨found, isFound, sameId⟩, run⟩ | ⟨-, -, run⟩
  · exact ⟨camp, live, stopped, going, empty, noCalls⟩
  · obtain ⟨camp', live', here, others⟩ := readCampaign_camps run
    by_cases same : cp = cp'
    · subst same
      obtain rfl := Option.some.inj (live.symm.trans live')
      obtain rfl := Option.some.inj (live.symm.trans isFound)
      rcases here with ⟨ends, noList, -⟩ | ⟨-, gateway, pbxGateway, kept⟩
      · exact absurd ⟨ends, noList⟩ (going row mem sameId.symm)
      · refine ⟨_, kept, stopped, fun row' mem' isRow => going row' mem' (isRow.trans sameId.symm),
          empty, ?_⟩
        show snap.calls row.id = none
        rw [← sameId]
        exact noCalls
    · exact ⟨camp, by rw [others cp same, live], stopped, going, empty, noCalls⟩
  · obtain ⟨_, -, -, others⟩ := readCampaign_camps run
    have ne : cp ≠ s.book.camps.next := Heap.ne_next live
    refine ⟨camp, ?_, stopped, going, empty, noCalls⟩
    rw [others cp ne]
    exact Heap.get_alloc_of_live live

/-- The services that the pass has still to visit are `rest`; it has sent the
messages `new`, none of them for a campaign with a message of before. -/
structure Sending (snap : Snapshot) (rows : List CampaignRow) (old : List (Nat × CampId))
    (rest : List CampId) (s : Sys) : Prop where
  left : ∀ cp ∈ old.map Prod.snd, Left snap rows cp s.book
  nodup : rest.Nodup
  sent : ∃ new, s.msgq = old ++ new ∧ (new.map Prod.snd).Nodup ∧ ∀ cp ∈ new.map Prod.snd,
    cp ∉ rest ∧ cp ∉ old.map Prod.snd ∧
      ∃ camp, s.book.camps.get cp = some camp ∧ camp.isRunning = false

theorem Sending.service {rows : List CampaignRow} {old : List (Nat × CampId)} {rest : List CampId}
    (sending : Sending snap rows old (cp :: rest) s)
    (run : pullService snap.calls snap.actions s cp = .ok s') : Sending snap rows old rest s' := by
  obtain ⟨left, nodup, new, msgq, distinct, fresh⟩ := sending
  have notHere := List.nodup_cons.mp nodup
  obtain ⟨camp, live, here, others⟩ := pullService_camps run
  rcases here with ⟨rfl, -⟩ | ⟨stopped, pushed, loaded, l, found, kept⟩
  · exact ⟨left, notHere.2, new, msgq, distinct, fun cp' mem =>
      ⟨fun mem' => (fresh cp' mem).1 (List.mem_cons_of_mem _ mem'), (fresh cp' mem).2⟩⟩
  · -- a campaign with a message of before is not sent another one
    have apart : cp ∉ old.map Prod.snd := by
      intro mem
      obtain ⟨camp', live', -, -, empty, noCalls⟩ := left cp mem
      obtain rfl := Option.some.inj (live.symm.trans live')
      rw [rowsFor, empty] at found
      simp [noCalls] at found
    refine ⟨fun cp' mem => ?_, notHere.2, new ++ [(camp.campaignId, cp)], ?_, ?_, fun cp' mem => ?_⟩
    · have ne : cp' ≠ cp := by
        rintro rfl
        exact apart mem
      unfold Left
      rw [others cp' ne]
      exact left cp' mem
    · rw [pushed, msgq, List.append_assoc]
    · rw [List.map_append]
      refine List.nodup_append.mpr ⟨distinct, by simp, fun a mem b isNew eq => ?_⟩
      obtain rfl : b = cp := by simpa using isNew
      exact (fresh a mem).1 (eq ▸ List.mem_cons_self)
    · rw [List.map_append, List.mem_append] at mem
      rcases mem with mem | isNew
      · obtain ⟨notRest, notOld, camp', live', stopped'⟩ := fresh cp' mem
        have ne : cp' ≠ cp := fun eq => notRest (eq ▸ List.mem_cons_self)
        exact ⟨fun mem' => notRest (List.mem_cons_of_mem _ mem'), notOld, camp',
          by rw [others cp' ne, live'], stopped'⟩
      · obtain rfl : cp' = cp := by simpa using isNew
        exact ⟨notHere.1, apart, _, kept, stopped⟩

theorem Queued.pull (queued : Queued s) (inv : Inv ans s) (alone : Undisturbed s (.pull snap))
    (run : pullGroups s snap = .ok s') : Queued s' := by
  rcases pullGroups_cases run with ⟨-, rfl⟩ | ⟨gateways, t, someGateways, first, rest⟩
  · exact queued
  · have bookT := pullGateways_book first
    have msgqT : t.msgq = s.msgq := by
      refine Fallible.foldlM_rule (I := fun _ t => t.msgq = s.msgq) ?_ rfl first
      intro row rest u u' msgq run
      rw [pullGateway_frame run]
      exact msgq
    rcases rest with ⟨-, rfl⟩ | ⟨rows, u, someRows, second, run⟩
    · exact queued.relisted (.of_camps (by rw [bookT])) msgqT
    · have startLeft : ∀ cp ∈ s.msgq.map Prod.snd, Left snap rows cp t.book := by
        intro cp mem
        obtain ⟨camp, live, stopped⟩ := queued.stopped cp mem
        obtain ⟨msg, isMsg, rfl⟩ := List.mem_map.mp mem
        rcases alone msg isMsg camp live with none | going
        · rw [someGateways] at none
          cases none
        · rw [bookT]
          exact ⟨camp, live, stopped, going rows someRows⟩
      obtain ⟨-, msgqU, leftU⟩ : (∀ row ∈ ([] : List CampaignRow), row ∈ rows) ∧
          u.msgq = s.msgq ∧ ∀ cp ∈ s.msgq.map Prod.snd, Left snap rows cp u.book := by
        refine Fallible.foldlM_rule (I := fun rest u => (∀ row ∈ rest, row ∈ rows) ∧
          u.msgq = s.msgq ∧ ∀ cp ∈ s.msgq.map Prod.snd, Left snap rows cp u.book)
          ?_ ⟨fun _ mem => mem, msgqT, startLeft⟩ second
        rintro row rest u u' ⟨sub, msgq, left⟩ run
        exact ⟨fun row mem => sub row (List.mem_cons_of_mem _ mem),
          (pullCampaign_msgq run).trans msgq,
          fun cp mem => (left cp mem).campaign (sub row List.mem_cons_self) run⟩
      have invU := (inv.gateways first).campaigns second
      have sending := Fallible.foldlM_rule (I := Sending snap rows s.msgq)
        (fun cp rest v v' sending run => sending.service run)
        ⟨leftU, invU.rostered.nodup, [], by simpa using msgqU, List.nodup_nil, nofun⟩ run
      obtain ⟨left, -, new, msgq, distinct, fresh⟩ := sending
      -- the messages of before, and those that the pass has sent
      refine ⟨?_, fun cp mem => ?_⟩
      · rw [msgq, List.map_append]
        exact List.nodup_append.mpr ⟨queued.nodup, distinct, fun a old b mem eq =>
          (fresh b mem).2.1 (eq ▸ old)⟩
      · rw [msgq, List.map_append, List.mem_append] at mem
        rcases mem with mem | mem
        · obtain ⟨camp, live, stopped, -⟩ := left cp mem
          exact ⟨camp, live, stopped⟩
        · exact (fresh cp mem).2.2

theorem step_queued {e : Event} (inv : Inv ans s) (clocked : Clocked s.book) (queued : Queued s)
    (alone : Undisturbed s e) (step : dialer.step s e s') : Queued s' := by
  cases step_cases step with
  | pulled run => exact queued.pull inv alone run
  | ticked ticks run => exact queued.tick clocked ticks run
  | @supervised d _ _ _ _ live armed run =>
    obtain ⟨c, call, -, -, result⟩ := inv.supervised_cases live armed run
    have disarmed : Relisted s.book (s.disarmDest d).book := .of_camps rfl
    exact queued.relisted (disarmed.trans result.relisted) result.msgq
  | calledBack => exact queued.relisted (.refl _) rfl
  | lost => exact queued.relisted (.refl _) rfl

/-! ## Runs -/

/-- In a run whose passes leave the campaigns with messages in the queue alone, a
message that is taken is for a campaign in `services` that is not running and
whose timer is not armed. -/
theorem start_messages {h : List (Sys × Event)} (run : dialer.Execution h s)
    (alone : ∀ x ∈ h, Undisturbed x.1 x.2) :
    ∀ t, Lts.Visits h s t → ∀ id cp rest, t.msgq = (id, cp) :: rest →
      cp ∈ t.services ∧ ∃ camp, t.book.camps.get cp = some camp ∧ camp.isRunning = false ∧
        camp.tmr = false := by
  intro t visit id cp rest queue
  obtain ⟨h₁, h₂, rfl, run₁⟩ := run.of_visits visit
  obtain ⟨inv, clocked, queued⟩ := run₁.induct (C := Undisturbed)
    (I := fun h s => Inv (Answered h) s ∧ Clocked s.book ∧ Queued s)
    (fun x mem => alone x (List.mem_append_left _ mem))
    (fun _ ⟨n, audioPath, _, eq⟩ => eq ▸
      ⟨Inv.boot n audioPath, nofun, ⟨List.nodup_nil, nofun⟩⟩)
    (fun _ _ _ _ _ ⟨inv, clocked, queued⟩ step alone =>
      ⟨step_inv inv step, step_clocked inv clocked step,
        step_queued inv clocked queued alone step⟩)
  obtain ⟨camp, live, stopped⟩ := queued.stopped cp (by simp [queue])
  exact ⟨(inv.rostered.mem cp).mpr ⟨camp, live⟩, camp, live, stopped,
    (clocked cp camp live).trans stopped⟩

theorem start_messages_first : ∃ h s camp, dialer.Execution h s ∧ s.msgq = [(1, 0)] ∧
    s.book.camps.get 0 = some camp ∧ camp.isRunning = false ∧ camp.tmr = false := by
  obtain ⟨h, s, run, test⟩ := Lts.replay_exists SysInit Sys.next (s := Sys.boot 4 "/audio")
    [.pull oneCampaign] (fun h s => s.msgq == [(1, 0)] && h.all fun x => x.1.msgq.isEmpty)
    ⟨4, "/audio", by decide, rfl⟩ (by decide)
  simp only [Bool.and_eq_true, beq_iff_eq, List.all_eq_true, List.isEmpty_iff] at test
  have alone : ∀ x ∈ h, Undisturbed x.1 x.2 := by
    rintro ⟨t, e⟩ mem
    cases e with
    | pull snap =>
      intro msg isMsg
      rw [test.2 _ mem] at isMsg
      cases isMsg
    | _ => trivial
  obtain ⟨-, camp, live, stopped, unarmed⟩ := start_messages run alone s (.inl rfl) 1 0 [] test.1
  exact ⟨h, s, camp, run, test.1, live, stopped, unarmed⟩

/-- Two passes before the first message is taken: the second message finds the
campaign running, its timer armed. -/
theorem start_message_repeated : ∃ h s camp, dialer.Execution h s ∧ s.msgq = [(1, 0)] ∧
    s.book.camps.get 0 = some camp ∧ camp.isRunning = true ∧ camp.tmr = true := by
  obtain ⟨h, s, run, test⟩ := Lts.replay_exists SysInit Sys.next (s := Sys.boot 4 "/audio")
    [.pull oneCampaign, .pull oneCampaign, .message 100 fun _ => {}]
    (fun _ s => s.msgq == [(1, 0)] &&
      (s.book.camps.get 0).any fun camp => camp.isRunning && camp.tmr)
    ⟨4, "/audio", by decide, rfl⟩ (by decide)
  simp only [Bool.and_eq_true, beq_iff_eq, Option.any_eq_true] at test
  obtain ⟨queue, camp, live, running, armed⟩ := test
  exact ⟨h, s, camp, run, queue, live, running, armed⟩

end Autodialer
