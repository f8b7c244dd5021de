import Autodialer.CallLog

/-!
# The final record of a call

A call has a timer for `on_call_end` from the step that places it until the step
in which the handler sees its end, and all its statements come from the steps in
between.

* `step_account`: what one step enqueues for a call, and what becomes of it.
* `call_statements`: the statements of a call are status records, then its final
  record, then the forwarding record if it has a PBX leg, and nothing after that.
-/

namespace Autodialer

variable {s s' t : Sys} {e : Event} {d : DestId} {c : CallId} {dest : Destination} {call : Call}
  {now : Time} {ans : CallId → Addr → Prop} {h h₁ h₂ : List (Sys × Event)}

/-! ## Steps -/

/-- A pass takes no call from a destination. -/
theorem pull_owner {snap : Snapshot} (inv : Inv ans s) (run : pullGroups s snap = .ok s') :
    s'.book.owner = s.book.owner := by
  have read : ∀ {t t' : Sys} {cp row}, Inv ans t → readCampaign t cp row = .ok t' →
      t'.book.owner = t.book.owner := by
    intro t t' cp row inv run
    obtain ⟨camp, live, ⟨-, idle, run⟩ | ⟨-, gateway, pbxGateway, rfl⟩⟩ := readCampaign_cases run
    · -- the destroyed campaign has no call
      obtain ⟨dests, -⟩ := memDerefCampaign_book
        (s := t.setCamp cp fun camp => camp.readHead row)
        (inv.partition.setCamp fun _ r _ => by cases r <;> exact .refl _) run
      funext d
      rw [Book.owner, dests]
      cases liveDest : t.book.dests.get d with
      | none =>
        rw [show (t.setCamp cp _).book.dests.get d = none from liveDest, Book.owner, liveDest]
        rfl
      | some dest =>
        rw [show (t.setCamp cp _).book.dests.get d = some dest from liveDest, owner_of_live liveDest]
        rcases eq_or_ne dest.cp cp with rfl | ne
        · cases has : dest.call with
          | none => simp
          | some c =>
            have mem := inv.processl_of_call live liveDest rfl has
            rw [idle] at mem
            cases mem
        · rw [Option.filter_some, if_pos (decide_eq_true ne)]
          rfl
    · rfl
  have kept : Inv ans s' ∧ s'.book.owner = s.book.owner := by
    refine pullGroups_rule (I := fun t => Inv ans t ∧ t.book.owner = s.book.owner) ?_ ?_ ?_
      ⟨inv, rfl⟩ run
    · rintro t row t' ⟨inv, same⟩ run
      refine ⟨inv.gateway run, ?_⟩
      rw [pullGateway_frame run]
      exact same
    · rintro t row t' ⟨inv, same⟩ run
      refine ⟨inv.campaign run, ?_⟩
      rcases pullCampaign_cases run with ⟨rfl, -⟩ | ⟨cp, -, -, run⟩ | ⟨-, -, run⟩
      · exact same
      · exact (read inv run).trans same
      · exact (read inv.createCamp run).trans same
    · rintro calls actions t cp t' ⟨inv, same⟩ - run
      refine ⟨inv.service run, ?_⟩
      obtain ⟨camp, -, ⟨rfl, -⟩ | ⟨-, rows, acts, l, -, -, rfl⟩⟩ := pullService_cases run
      · exact same
      · exact (owner_loadContacts cp rows t.book).trans same
  exact kept.2

theorem pull_db {snap : Snapshot} (run : pullGroups s snap = .ok s') : s'.db = s.db := by
  refine pullGroups_rule (I := fun t => t.db = s.db) ?_ ?_ ?_ rfl run
  · intro t row t' same run
    rw [pullGateway_frame run]
    exact same
  · exact fun t row t' same run => (pullCampaign_db run).trans same
  · exact fun calls actions t cp t' same _ run => (pullService_db run).trans same

/-- What a step means for the statements of the call `c`. -/
inductive Account (s : Sys) (e : Event) (s' : Sys) (c : CallId) : Prop
  | bystander : ¬ Owned s c → ¬ Owned s' c → entriesOf c (stepLog s e s') = [] → Account s e s' c
  /-- The call is placed in this step. -/
  | starts : s.media.calls.next ≤ c → Owned s' c →
      (∀ sql ∈ entriesOf c (stepLog s e s'), IsStatus sql) → Account s e s' c
  | goesOn : Owned s c → Owned s' c → (∀ call, ¬ EndsAt c call (s, e)) →
      (∀ sql ∈ entriesOf c (stepLog s e s'), IsStatus sql) → Account s e s' c
  | ends {call : Call} : Owned s c → ¬ Owned s' c → EndsAt c call (s, e) →
      Closes call (entriesOf c (stepLog s e s')) → Account s e s' c

theorem EndsAt.owned {x : Sys × Event} (ends : EndsAt c call x) : Owned x.1 c := by
  obtain ⟨d, _, _, dest, _, -, ends⟩ := ends
  exact ⟨d, (owner_of_live ends.live).trans ends.has⟩

theorem EndsAt.unique {x : Sys × Event} {call' : Call} (ends : EndsAt c call x)
    (ends' : EndsAt c call' x) : call = call' := by
  obtain ⟨_, _, _, _, _, -, ends⟩ := ends
  obtain ⟨_, _, _, _, _, -, ends'⟩ := ends'
  exact Option.some.inj (ends.liveCall.symm.trans ends'.liveCall)

/-- Only the timer of a destination ends a call. -/
theorem not_endsAt (other : ∀ d now env, e ≠ .destTimer d now env) (call : Call) :
    ¬ EndsAt c call (s, e) := by
  rintro ⟨d, now, env, _, _, isTimer, -⟩
  exact other d now env isTimer

/-- No call starts or ends in the step. -/
theorem Account.of_owner (owner : s'.book.owner = s.book.owner)
    (noEnd : ∀ call, ¬ EndsAt c call (s, e))
    (silent : ¬ Owned s c → entriesOf c (stepLog s e s') = [])
    (statuses : ∀ sql ∈ entriesOf c (stepLog s e s'), IsStatus sql) : Account s e s' c := by
  have same : Owned s' c ↔ Owned s c := by rw [Owned, Owned, owner]
  by_cases owned : Owned s c
  · exact .goesOn owned (same.mpr owned) noEnd statuses
  · exact .bystander owned (mt same.mp owned) (silent owned)

theorem isStatus_of {status : CallStatus} {duration : Int} {connectTm establishTm : Time} {id : Nat}
    (up : status ≠ .disconnected) :
    IsStatus (.status status duration connectTm establishTm id) := by
  refine ⟨_, _, _, _, _, rfl, ?_⟩
  cases status with
  | disconnected => exact absurd rfl up
  | connecting | trying | ringing | established => decide

theorem callback_account (inv : Inv ans s)
    (alive : EveryCall (fun call => call.callStatus ≠ .disconnected) s'.media)
    (callback : e.isCallback = true) (step : dialer.step s e s') :
    s'.db = s.db.execAll ((stepLog s e s').map Prod.snd) ∧ ∀ c, Account s e s' c := by
  have owner : s'.book.owner = s.book.owner := by
    rw [(callback_frame callback (step_iff.mp step).2).1]
  have noEnd : ∀ c call, ¬ EndsAt c call (s, e) := fun c call => not_endsAt (by
    rintro d now env rfl
    cases callback) call
  rcases callback_log callback step with ⟨db, log⟩ | ⟨p, call, live, main, reports, log⟩
  · refine ⟨by rw [log]; exact db, fun c => .of_owner owner (noEnd c) (fun _ => by rw [log]; rfl) ?_⟩
    rw [log]
    exact fun sql mem => absurd mem List.not_mem_nil
  · obtain ⟨q, call', connectTm, establishTm, id, live', wrote⟩ := reports
    have entries : stepLog s e s' =
        [(p, .status call'.callStatus 0 connectTm establishTm id)] := by
      rw [log]
      have one : s'.db = s.db.execAll [.status call'.callStatus 0 connectTm establishTm id] := wrote
      exact enqueuedFor_eq one
    obtain ⟨d, -, ⟨-, owns⟩ | leg⟩ := inv.sound.role p call live
    · rw [entries]
      refine ⟨wrote, fun c => .of_owner owner (noEnd c) ?_ ?_⟩
      · intro notOwned
        rw [entries]
        refine entriesOf_none fun x mem => ?_
        obtain rfl := List.mem_singleton.mp mem
        rintro rfl
        exact notOwned ⟨d, owns⟩
      · intro sql mem
        rw [entries, mem_entriesOf, List.mem_singleton] at mem
        cases mem
        exact isStatus_of (alive q call' live')
    · rw [leg.ispbxcall] at main
      cases main

theorem owner_disarmDest (live : s.book.dests.get d = some dest) :
    (s.disarmDest d).book.owner = s.book.owner := by
  show (s.book.setDest d _).owner = _
  rw [owner_setDest live, ← owner_of_live live, Function.update_eq_self]

/-- The handler that finds the call going leaves it to its destination. -/
theorem EndResult.owner_kept {env : AllocEnv} {u : Sys} {call' : Call}
    (result : EndResult (s.disarmDest d) now env d { dest with tmr := false } c call s')
    (live : s.book.dests.get d = some dest) (has : dest.call = some c)
    (liveCall : s.media.calls.get c = some call)
    (ruled : endRules (s.disarmDest d) d now env = .ok u)
    (after : u.media.calls.get c = some call') (notEnded : call'.ended = false) :
    s'.book.owner = s.book.owner := by
  cases result with
  | @rearmed u _ rules =>
    have book : u.book = (s.disarmDest d).book := by rw [rules.frame]
    have owns : s.book.owner d = some c := (owner_of_live live).trans has
    show (u.book.setDest d _).owner = _
    rw [book, owner_setDest (dests_disarmDest live), owner_disarmDest live]
    exact (congrArg _ (has.trans owns.symm)).trans (Function.update_eq_self d _)
  | destroyed ruled' | requeued ruled' =>
    cases ruled.symm.trans ruled'
    rw [Sys.setCall, calls_setCall, Heap.get_modify_self, media_disarmDest, liveCall] at after
    cases after
    cases notEnded

/-- The handler that finds the call ended takes it from its destination. -/
theorem EndResult.owner_ended {env : AllocEnv} {u : Sys} {call' : Call}
    (result : EndResult (s.disarmDest d) now env d { dest with tmr := false } c call s')
    (live : s.book.dests.get d = some dest) (liveCall : s.media.calls.get c = some call)
    (ruled : endRules (s.disarmDest d) d now env = .ok u)
    (after : u.media.calls.get c = some call') (ended : call'.ended = true) :
    s'.book.owner = Function.update s.book.owner d none := by
  cases result with
  | rearmed ruled' rules =>
    cases ruled.symm.trans ruled'
    obtain ⟨call'', after', notEnded, -⟩ := rules.call_after liveCall
    cases after.symm.trans after'
    rw [ended] at notEnded
    cases notEnded
  | destroyed => exact (owner_remove _ d).trans (by rw [owner_disarmDest live])
  | requeued =>
    refine (owner_rearranged (Rearranged.moveTo _ d _)).trans ?_
    rw [owner_setDest (dests_disarmDest live), owner_disarmDest live]

/-- Nothing is recorded while the call goes on. -/
theorem going_account {env : AllocEnv} {u : Sys} {call' : Call}
    (live : s.book.dests.get d = some dest) (has : dest.call = some c)
    (owner : s'.book.owner = s.book.owner) (ruled : endRules (s.disarmDest d) d now env = .ok u)
    (after : u.media.calls.get c = some call') (notEnded : call'.ended = false)
    (nothing : stepLog s (.destTimer d now env) s' = []) (p : CallId) :
    Account s (.destTimer d now env) s' p := by
  refine .of_owner owner ?_ (fun _ => by rw [nothing]; rfl) (by
    rw [nothing]
    exact fun sql mem => absurd mem List.not_mem_nil)
  rintro call ⟨d', now', env', dest', camp', isTimer, ends⟩
  cases isTimer
  obtain rfl := Option.some.inj (live.symm.trans ends.live)
  obtain rfl := Option.some.inj (has.symm.trans ends.has)
  obtain ⟨u', call'', ruled', after', ended⟩ := ends.halted
  cases ruled.symm.trans ruled'
  cases after.symm.trans after'
  rw [notEnded] at ended
  cases ended

/-- What is recorded of an ended call is its own, and the other calls go on. -/
theorem ended_account {env : AllocEnv} {ws : List Sql} (inv : Inv ans s)
    (ends : EndsAt c call (s, .destTimer d now env)) (owns : s.book.owner d = some c)
    (owner : s'.book.owner = Function.update s.book.owner d none) (closes : Closes call ws)
    (entries : stepLog s (.destTimer d now env) s' = ws.map fun sql => (c, sql)) (p : CallId) :
    Account s (.destTimer d now env) s' p := by
  rcases eq_or_ne p c with rfl | ne
  · refine .ends ⟨d, owns⟩ ?_ ends (by rw [entries, entriesOf_self]; exact closes)
    rintro ⟨f, owned⟩
    rw [owner] at owned
    rcases eq_or_ne f d with rfl | other
    · rw [Function.update_self] at owned
      cases owned
    · rw [Function.update_of_ne other] at owned
      exact other (inv.sound.owner_unique owned owns)
  · have silent : entriesOf p (stepLog s (.destTimer d now env) s') = [] := by
      rw [entries, entriesOf_other ne.symm]
    have same : Owned s' p ↔ Owned s p := by
      refine exists_congr fun f => ?_
      rw [owner]
      rcases eq_or_ne f d with rfl | other
      · rw [Function.update_self, owns]
        refine ⟨fun eq => ?_, fun eq => absurd (Option.some.inj eq).symm ne⟩
        cases eq
      · rw [Function.update_of_ne other]
    by_cases owned : Owned s p
    · refine .goesOn owned (same.mpr owned) ?_ (by
        rw [silent]
        exact fun sql mem => absurd mem List.not_mem_nil)
      -- a destination has one call, so the timer ends no other
      rintro call' ⟨d', _, _, dest', _, isTimer, ends'⟩
      cases isTimer
      exact ne (Option.some.inj (((owner_of_live ends'.live).trans ends'.has).symm.trans owns))
    · exact .bystander owned (mt same.mp owned) silent

theorem supervised_account {env : AllocEnv} (inv : Inv ans s)
    (live : s.book.dests.get d = some dest) (armed : dest.tmr = true)
    (run : onCallEnd (s.disarmDest d) d now env = .ok s') :
    s'.db = s.db.execAll ((stepLog s (.destTimer d now env) s').map Prod.snd) ∧
      ∀ c, Account s (.destTimer d now env) s' c := by
  obtain ⟨p, call, has, liveCall, result⟩ := inv.supervised_cases live armed run
  have owns : s.book.owner d = some p := (owner_of_live live).trans has
  have log : stepLog s (.destTimer d now env) s' = enqueuedFor (some p) s s' := by
    rw [stepLog, owns]
  obtain ⟨_, camp, -, -, liveCamp, -⟩ := inv.partition.linked d dest live
  rcases onCallEnd_writes (dests_disarmDest live) has liveCall run with
    ⟨t, call', ruled, after, notEnded, db⟩ | ⟨⟨t, call', ruled, after, ended⟩, ws, closes, db, -⟩
  · have nothing : stepLog s (.destTimer d now env) s' = [] :=
      log.trans (enqueuedFor_same (some p) db)
    have owner := result.owner_kept live has liveCall ruled after notEnded
    exact ⟨by rw [nothing]; exact db,
      going_account live has owner ruled after notEnded nothing⟩
  · have ends : EndsAt p call (s, .destTimer d now env) :=
      ⟨d, now, env, dest, camp, rfl, live, liveCamp, has, liveCall, t, call', ruled, after, ended⟩
    have entries : stepLog s (.destTimer d now env) s' = ws.map fun sql => (p, sql) :=
      log.trans (enqueuedFor_eq db)
    have owner := result.owner_ended live liveCall ruled after ended
    exact ⟨by rw [entries, map_snd_tagged]; exact db,
      ended_account inv ends owns owner closes entries⟩

/-- Every statement of a step is in its log, and the log is in order for every call. -/
theorem step_account (inv : Inv ans s)
    (alive : EveryCall (fun call => call.callStatus ≠ .disconnected) s'.media)
    (step : dialer.step s e s') :
    s'.db = s.db.execAll ((stepLog s e s').map Prod.snd) ∧ ∀ c, Account s e s' c := by
  cases step_cases step with
  | pulled run =>
    refine ⟨pull_db run, fun c => .of_owner (pull_owner inv run) (not_endsAt ?_) (fun _ => rfl) ?_⟩
    · exact fun d now env => Event.noConfusion
    · exact fun sql mem => absurd mem List.not_mem_nil
  | @ticked _ cp now env t _ ticks run =>
    have log : stepLog s e s' = tickLog t cp now env := by
      cases ticks with
      | message oldest => simp only [stepLog, oldest]
      | timer => rfl
    have logged := startFakeCalling_logged run
    have noEnd : ∀ c call, ¬ EndsAt c call (s, e) := fun c call => not_endsAt (by
      rintro d now env rfl
      cases ticks) call
    obtain ⟨f, msgq, torn, lost, -, rfl⟩ := ticks.state
    rw [← log] at logged
    refine ⟨logged.wrote, fun c => ?_⟩
    have statuses : ∀ sql ∈ entriesOf c (stepLog s e s'), IsStatus sql := fun sql mem =>
      (logged.entry _ (mem_entriesOf.mp mem)).2.2
    by_cases owned : Owned s' c
    · rcases logged.new c owned with old | new
      · exact .goesOn old owned (noEnd c) statuses
      · exact .starts new owned statuses
    · refine .bystander (fun old => owned (logged.kept c old)) owned (entriesOf_none ?_)
      rintro x mem rfl
      exact owned (logged.entry x mem).2.1
  | supervised live armed run => exact supervised_account inv live armed run
  | calledBack callback => exact callback_account inv alive callback step
  | lost =>
    refine ⟨rfl, fun c => .of_owner rfl (not_endsAt ?_) (fun _ => rfl) ?_⟩
    · exact fun d now env => Event.noConfusion
    · exact fun sql mem => absurd mem List.not_mem_nil

/-! ## Runs -/

/-- What the account of a step relies on. -/
structure Ready (s : Sys) : Prop where
  inv : Inv (fun _ _ => True) s
  alive : EveryCall (fun call => call.callStatus ≠ .disconnected) s.media

theorem Ready.boot (n : Nat) (audioPath : String) : Ready (Sys.boot n audioPath) where
  inv := .boot n audioPath
  alive _ _ live := by cases live

theorem Ready.step (ready : Ready s) (step : dialer.step s e s') : Ready s' where
  inv := step_inv_hears ready.inv (.anything s e) step
  alive := step_notDisconnected ready.inv ready.alive step

theorem Ready.account (ready : Ready s) (step : dialer.step s e s') :
    s'.db = s.db.execAll ((stepLog s e s').map Prod.snd) ∧ ∀ c, Account s e s' c :=
  step_account ready.inv (ready.step step).alive step

theorem execution_ready (run : dialer.Execution h s) : Ready s := by
  obtain ⟨_, ⟨n, audioPath, -, rfl⟩, run⟩ := run
  exact run.invariant (fun _ _ _ => Ready.step) (.boot n audioPath)

/-- A call that has its timer is live. -/
theorem Inv.owned_live (inv : Inv ans s) (owned : Owned s c) :
    ∃ call, s.media.calls.get c = some call ∧ call.ispbxcall = false := by
  obtain ⟨d, owned⟩ := owned
  obtain ⟨call, live, main, -⟩ := inv.sound.owned d c owned
  exact ⟨call, live, main⟩

theorem Inv.owned_lt (inv : Inv ans s) (owned : Owned s c) : c < s.media.calls.next := by
  obtain ⟨call, live, -⟩ := inv.owned_live owned
  exact Heap.lt_next live

theorem Inv.timed (inv : Inv ans t) (visit : Lts.Visits h s t) (owned : Owned t c) :
    Timed h s c := by
  obtain ⟨d, owned⟩ := owned
  obtain ⟨dest, live, has⟩ := owner_eq_some owned
  refine ⟨t, d, dest, visit, live, has, ?_⟩
  rw [← (inv.supervised d dest live).armed, has]
  rfl

theorem Timed.owned (timed : Timed h s c) : ∃ t, Lts.Visits h s t ∧ Owned t c := by
  obtain ⟨t, d, dest, visit, live, has, -⟩ := timed
  exact ⟨t, visit, d, (owner_of_live live).trans has⟩

/-- Where a call stands at the end of a run. -/
inductive Stage (h : List (Sys × Event)) (s : Sys) (c : CallId) : Prop
  | unseen : ¬ Owned s c → ¬ Timed h s c → entriesOf c (runLog h) = [] → Stage h s c
  | timed : Owned s c → (∀ x ∈ h, ∀ call, ¬ EndsAt c call x) →
      (∀ sql ∈ entriesOf c (runLog h), IsStatus sql) → Stage h s c
  | closed {x : Sys × Event} {call : Call} : ¬ Owned s c → c < s.media.calls.next → x ∈ h →
      EndsAt c call x → Stage h s c

theorem Stage.step (stage : Stage h s c) (ready : Ready s) (run : dialer.Execution h s)
    (step : dialer.step s e s') : Stage (h ++ [(s, e)]) s' c := by
  have entries : entriesOf c (runLog (h ++ [(s, e)])) =
      entriesOf c (runLog h) ++ entriesOf c (stepLog s e s') := by
    rw [runLog_snoc step, entriesOf_append]
  have last : (s, e) ∈ h ++ [(s, e)] := by simp
  cases (ready.account step).2 c with
  | bystander before after silent =>
    cases stage with
    | unseen _ untimed none =>
      refine .unseen after (fun timed => ?_) (by rw [entries, none, silent]; rfl)
      obtain ⟨t, visit, owned⟩ := timed.owned
      rcases Lts.visits_snoc.mp visit with rfl | old
      · exact after owned
      · obtain ⟨_, _, _, reach⟩ := run.of_visits old
        exact untimed ((execution_ready reach).inv.timed old owned)
    | timed owned => exact absurd owned before
    | closed _ lt mem ends =>
      exact .closed after (Nat.lt_of_lt_of_le lt (step_nextCall ready.inv step))
        (List.mem_append_left _ mem) ends
  | starts new owned statuses =>
    cases stage with
    | unseen before untimed none =>
      refine .timed owned (fun x mem call ends => ?_) (by rw [entries, none]; exact statuses)
      have visit : Lts.Visits h s x.1 := by
        rcases List.mem_append.mp mem with old | new
        · exact .inr ⟨x.2, old⟩
        · exact .inl (congrArg Prod.fst (List.mem_singleton.mp new))
      obtain ⟨_, _, _, reach⟩ := run.of_visits visit
      exact untimed ((execution_ready reach).inv.timed visit ends.owned)
    | timed old => exact absurd (ready.inv.owned_lt old) (Nat.not_lt.mpr new)
    | closed _ lt => exact absurd lt (Nat.not_lt.mpr new)
  | goesOn before owned noEnd statuses =>
    cases stage with
    | unseen unowned => exact absurd before unowned
    | timed _ none early =>
      refine .timed owned (fun x mem => ?_) fun sql mem => ?_
      · rcases List.mem_append.mp mem with old | new
        · exact none x old
        · rw [List.mem_singleton.mp new]
          exact noEnd
      · rw [entries] at mem
        exact (List.mem_append.mp mem).elim (early sql) (statuses sql)
    | closed unowned => exact absurd before unowned
  | ends before after ends =>
    have lt := ready.inv.owned_lt before
    exact .closed after (Nat.lt_of_lt_of_le lt (step_nextCall ready.inv step)) last ends

end Autodialer
