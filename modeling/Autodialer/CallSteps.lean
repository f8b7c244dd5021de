import Autodialer.Campaigns

/-!
# What a step does to a call

`CallWrite` is the list of everything that an event can do to a call that it
leaves alive, `NewCall` what a call looks like that an event has placed.
`step_calls` says that there is nothing else, so that an invariant of the calls
needs one look at each of these writes.
-/

namespace Autodialer

variable {s s' t : Sys} {m m' : Media} {e : Event} {c : CallId} {call call' : Call} {d : DestId}
  {cp : CampId} {dest : Destination} {now : Time} {rs : SessionId} {ans : CallId → Addr → Prop}

/-! ## The writes -/

/-- The code that `close_handler` leaves in the call. -/
def Call.closeCode (call : Call) (err : Bool) (scode : Nat) : Nat :=
  if call.callStatus = .established then 2
  else if !err && 0 < scode then scode
  else if err then 400
  else call.respCode

/-- The call after the key of the action `a` has been pressed. -/
def Call.press (call : Call) (a : ActionId) (action : Action) : Call :=
  { call with
    action := some a, eventReceived := true, actionKey := action.actionKey,
    actionType := action.actionType,
    ended := if 0 < action.actionType then true else call.ended }

/-- The packet completes the event of a key, and `a` is the first action with this key. -/
def Picks (s : Sys) (rs : SessionId) (mb : List UInt8) (call : Call) (a : ActionId)
    (action : Action) : Prop :=
  ∃ telev event, televRecv (s.media.rtp rs).telev (mb.drop rtpHeaderSize) = some (telev, event, true) ∧
    findCampaignAction s call.arg event = .ok (some (a, action))

/-- The event leaves `call'` where the live call `call` was. -/
inductive CallWrite (s : Sys) (c : CallId) (call : Call) : Event → Call → Prop
  | kept {e : Event} : CallWrite s c call e call
  | progress {scode : Nat} :
      CallWrite s c call (.progress c scode) { call with respCode := scode }
  /-- The call was established before. -/
  | again {env : EstablishEnv} : call.callStatus = .established →
      CallWrite s c call (.establish c env) { call with respCode := env.scode }
  /-- There is no common format. -/
  | noFormat {env : EstablishEnv} : call.callStatus ≠ .established → env.answer.format = none →
      CallWrite s c call (.establish c env) { call with
        respCode := env.scode, establishTm := env.now, callStatus := .established,
        ended := true, sess := .null }
  | answered {env : EstablishEnv} {pt : Nat} {thrd : Bool} : call.callStatus ≠ .established →
      env.answer.format = some pt →
      CallWrite s c call (.establish c env) { call.answer env pt with thrdCreated := thrd }
  | closed {err : Bool} {scode : Nat} :
      CallWrite s c call (.close c err scode) { call with
        sess := .terminated, ended := true, respCode := call.closeCode err scode }
  /-- A key of an action of the campaign has been pressed. -/
  | pressed {rs : SessionId} {mb : List UInt8} {d : DestId} {dest : Destination} {camp : Campaign}
      {a : ActionId} {action : Action} : (s.media.rtp rs).televRecv = true →
      (s.media.rtp rs).arg = some c → call.eventReceived = false → call.arg = some d →
      s.book.dests.get d = some dest → s.book.camps.get dest.cp = some camp → a ∈ camp.actions →
      s.actions.get a = some action → Picks s rs mb call a action →
      CallWrite s c call (.rtp rs mb) (call.press a action)
  | played : CallWrite s c call (.played c) { call with numPlay := (call.numPlay + 1) % 2 ^ 8 }
  /-- The call has been forwarded to its new PBX leg. -/
  | forwarded {d : DestId} {now : Time} {env : AllocEnv} {leg : CallId} : s.book.owner d = some c →
      call.ended = false → call.callStatus = .established → call.forwarded = false →
      (call.eventReceived = true ∨ call.joinPbx = true) →
      CallWrite s c call (.destTimer d now env) { call with
        pbxCall := some leg, forwarded := true }

theorem CallWrite.ispbxcall (write : CallWrite s c call e call') :
    call'.ispbxcall = call.ispbxcall := by
  cases write <;> rfl

theorem CallWrite.joinPbx (write : CallWrite s c call e call') : call'.joinPbx = call.joinPbx := by
  cases write <;> rfl

/-- The event has placed `call`. -/
inductive NewCall : Event → Call → Prop
  /-- A main call, placed in a tick. -/
  | main {e : Event} {rs : SessionId} {pt : Nat} {sess : Sess} {now : Time} {d : DestId}
      {audio : Option String} {joinPbx : Bool} :
      NewCall e { Call.placed rs pt sess now d with audio := audio, joinPbx := joinPbx }
  | leg {rs : SessionId} {pt : Nat} {sess : Sess} {now : Time} {d : DestId} {env : AllocEnv} :
      NewCall (.destTimer d now env)
        { Call.placed rs pt sess now d with ispbxcall := true, dest := some d }

/-- `m'` has the calls of `m`, but for the one at `c`. -/
def Rewrites (m : Media) (c : CallId) (call' : Call) (m' : Media) : Prop :=
  (∀ p, m'.calls.get p = if p = c then some call' else m.calls.get p) ∧
    m'.calls.next = m.calls.next

namespace Rewrites

variable {m'' : Media} {call'' : Call}

theorem get (rewrites : Rewrites m c call' m') (p : CallId) :
    m'.calls.get p = if p = c then some call' else m.calls.get p := rewrites.1 p

theorem next (rewrites : Rewrites m c call' m') : m'.calls.next = m.calls.next := rewrites.2

theorem live (rewrites : Rewrites m c call' m') : m'.calls.get c = some call' :=
  (rewrites.get c).trans (if_pos rfl)

theorem trans (first : Rewrites m c call' m') (second : Rewrites m' c call'' m'') :
    Rewrites m c call'' m'' := by
  refine ⟨fun p => ?_, second.next.trans first.next⟩
  rw [second.get p, first.get p]
  split <;> rfl

/-- Only the calls matter. -/
theorem congr (rewrites : Rewrites m c call' m') (calls : m''.calls = m'.calls) :
    Rewrites m c call' m'' := by
  unfold Rewrites
  rw [calls]
  exact rewrites

theorem setCall {f : Call → Call} (live : m.calls.get c = some call) :
    Rewrites m c (f call) (m.setCall c f) := by
  refine ⟨fun p => ?_, rfl⟩
  rw [calls_setCall, Heap.get_modify]
  split
  next here => rw [here, live]; rfl
  next => rfl

end Rewrites

/-! ## Callbacks -/

theorem progressHandler_rewrites {scode : Nat} (run : progressHandler s c scode = .ok s') :
    ∃ call, s.media.calls.get c = some call ∧
      Rewrites s.media c { call with respCode := scode } s'.media := by
  obtain ⟨call, live, -⟩ := Fallible.bind_eq_ok.mp run
  obtain ⟨db, -, rfl⟩ := progressHandler_cases run
  exact ⟨call, load_eq_ok.mp live, .setCall (load_eq_ok.mp live)⟩

theorem closeHandler_rewrites {err : Bool} {scode : Nat} (live : s.media.calls.get c = some call)
    (run : closeHandler s c err scode = .ok s') :
    Rewrites s.media c { call with ended := true, respCode := call.closeCode err scode }
      s'.media := by
  simp only [closeHandler, Sys.loadCall, load, live, Fallible.get?_some, Fallible.ok_bind] at run
  cases run
  exact .setCall live

theorem updateCallStatus_media {arg : Option DestId} (run : updateCallStatus s arg = .ok s') :
    s'.media = s.media := by
  obtain ⟨_, _, _, _, -, -, -, -, rfl⟩ := updateCallStatus_cases run
  rfl

/-- Audio or not, the call is answered. -/
theorem establishAudio_rewrites {env : EstablishEnv} {pt : Nat}
    (live : s.media.calls.get c = some (call.answer env pt)) :
    ∃ thrd, Rewrites s.media c { call.answer env pt with thrdCreated := thrd }
      (establishAudio s c rs env).media := by
  unfold establishAudio
  cases env.thrdCreate with
  | true => exact ⟨true, Rewrites.setCall (m := s.media) live⟩
  | false =>
    refine ⟨call.thrdCreated, fun p => ?_, rfl⟩
    rcases eq_or_ne p c with rfl | ne
    · rw [if_pos rfl]
      exact live
    · rw [if_neg ne]
      rfl

/-- What `establish_handler` makes of a call. -/
inductive AnswerWrite (call : Call) (env : EstablishEnv) : Call → Prop
  | again : call.callStatus = .established → AnswerWrite call env { call with respCode := env.scode }
  | noFormat : call.callStatus ≠ .established → env.answer.format = none →
      AnswerWrite call env { call with
        respCode := env.scode, establishTm := env.now, callStatus := .established,
        ended := true, sess := .null }
  | answered {pt : Nat} {thrd : Bool} : call.callStatus ≠ .established →
      env.answer.format = some pt →
      AnswerWrite call env { call.answer env pt with thrdCreated := thrd }

theorem AnswerWrite.write {env : EstablishEnv} (write : AnswerWrite call env call') :
    CallWrite s c call (.establish c env) call' := by
  cases write with
  | again up => exact .again up
  | noFormat notUp format => exact .noFormat notUp format
  | answered notUp format => exact .answered notUp format

theorem establishHandler_rewrites {env : EstablishEnv} (run : establishHandler s c env = .ok s') :
    ∃ call call', s.media.calls.get c = some call ∧ AnswerWrite call env call' ∧
      Rewrites s.media c call' s'.media := by
  obtain ⟨call, live, run⟩ := Fallible.bind_eq_ok.mp run
  rw [Sys.loadCall, load_eq_ok] at live
  dsimp only at run
  generalize responded : s.setCall c (fun call => { call with respCode := env.scode }) = t at run
  have first : Rewrites s.media c { call with respCode := env.scode } t.media := by
    rw [← responded]
    exact .setCall live
  split at run
  next up =>
    cases run
    exact ⟨call, _, live, .again up, first⟩
  next notUp =>
    generalize up : t.setCall c (fun call =>
      { call with establishTm := env.now, callStatus := .established }) = u at run
    have second : Rewrites s.media c { call with
        respCode := env.scode, establishTm := env.now, callStatus := .established } u.media := by
      rw [← up]
      exact first.trans (.setCall first.live)
    cases format : env.answer.format with
    | none =>
      rw [format] at run
      cases run
      exact ⟨call, _, live, .noFormat notUp format, second.trans (.setCall second.live)⟩
    | some pt =>
      rw [format] at run
      obtain ⟨rs, holds, run⟩ := Fallible.bind_eq_ok.mp run
      generalize answered : Sys.setSession _ rs _ = v at run
      have third : Rewrites s.media c (call.answer env pt) v.media := by
        rw [← answered]
        exact second.trans (.setCall second.live)
      cases pbx : call.ispbxcall with
      | true =>
        rw [pbx, if_pos rfl] at run
        obtain ⟨_, _, _, _, -, -, -, -, rfl⟩ := establishBridge_cases run
        exact ⟨call, { call.answer env pt with thrdCreated := call.thrdCreated }, live,
          .answered notUp format, third⟩
      | false =>
        rw [pbx, if_neg Bool.false_ne_true] at run
        have media := updateCallStatus_media run
        cases joins : call.joinPbx with
        | true =>
          rw [joins, if_pos rfl] at media
          exact ⟨call, { call.answer env pt with thrdCreated := call.thrdCreated }, live,
            .answered notUp format, third.congr (congrArg Media.calls media)⟩
        | false =>
          rw [joins, if_neg Bool.false_ne_true] at media
          obtain ⟨thrd, audio⟩ : ∃ thrd, Rewrites v.media c
              { call.answer env pt with thrdCreated := thrd } (establishAudio v c rs env).media :=
            establishAudio_rewrites third.live
          exact ⟨call, _, live, .answered notUp format,
            (third.trans audio).congr (congrArg Media.calls media)⟩

theorem findAction_some {actions : Heap Action} {event : Nat} {l : List ActionId} {a : ActionId}
    {action : Action} (run : findAction actions event l = .ok (some (a, action))) :
    a ∈ l ∧ actions.get a = some action := by
  induction l with
  | nil => cases run
  | cons b rest ih =>
    obtain ⟨first, live, run⟩ := Fallible.bind_eq_ok.mp run
    split at run
    · cases run
      exact ⟨List.mem_cons_self, load_eq_ok.mp live⟩
    · obtain ⟨mem, here⟩ := ih run
      exact ⟨List.mem_cons_of_mem b mem, here⟩

theorem rtpForward_calls (s : Sys) (rs : SessionId) (mb : List UInt8) :
    (rtpForward s rs mb).media.calls = s.media.calls := by
  rcases rtpForward_cases s rs mb with ⟨-, eq⟩ | ⟨t, -, eq⟩
  · rw [eq]
  · rw [eq]
    rfl

theorem rtpRecvHandler_rewrites {mb : List UInt8} (run : rtpRecvHandler s rs mb = .ok s') :
    s'.media.calls = s.media.calls ∨ ∃ c call call', s.media.calls.get c = some call ∧
      CallWrite s c call (.rtp rs mb) call' ∧ Rewrites s.media c call' s'.media := by
  unfold rtpRecvHandler at run
  split at run
  · cases run
    exact .inl rfl
  · split at run
    next on =>
      obtain ⟨c, isArg, run⟩ := Fallible.bind_eq_ok.mp run
      obtain ⟨call, live, run⟩ := Fallible.bind_eq_ok.mp run
      rw [nonNull_eq_ok] at isArg
      rw [Sys.loadCall, load_eq_ok] at live
      split at run
      next listens =>
        split at run
        · cases run
          exact .inl rfl
        next telev event fin heard =>
          dsimp only at run
          split at run
          next last =>
            obtain ⟨found, search, run⟩ := Fallible.bind_eq_ok.mp run
            cases found with
            | none =>
              cases run
              exact .inl rfl
            | some found =>
              obtain ⟨a, action⟩ := found
              cases run
              have picks : Picks s rs mb call a action := ⟨telev, event, last ▸ heard, search⟩
              obtain ⟨d, isDest, search⟩ := Fallible.bind_eq_ok.mp search
              obtain ⟨dest, liveDest, search⟩ := Fallible.bind_eq_ok.mp search
              obtain ⟨camp, liveCamp, search⟩ := Fallible.bind_eq_ok.mp search
              obtain ⟨mem, liveAction⟩ := findAction_some search
              simp only [Bool.and_eq_true, Bool.not_eq_true'] at listens
              refine .inr ⟨c, call, _, live, .pressed on isArg listens.1 (nonNull_eq_ok.mp isDest)
                (load_eq_ok.mp liveDest) (load_eq_ok.mp liveCamp) mem liveAction picks, ?_⟩
              exact Rewrites.setCall (f := fun call => call.press a action) live
          · cases run
            exact .inl (rtpForward_calls _ rs mb)
      · cases run
        exact .inl (rtpForward_calls s rs mb)
    · cases run
      exact .inl (rtpForward_calls s rs mb)

/-- A callback writes to one call at most. -/
theorem callback_calls (callback : e.isCallback = true) (step : dialer.step s e s') :
    s'.media.calls = s.media.calls ∨ ∃ c call call', s.media.calls.get c = some call ∧
      CallWrite s c call e call' ∧ Rewrites s.media c call' s'.media := by
  obtain ⟨enabled, run⟩ := step_iff.mp step
  cases e with
  | progress c scode =>
    obtain ⟨call, live, rewrites⟩ := progressHandler_rewrites run
    exact .inr ⟨c, call, _, live, .progress, rewrites⟩
  | establish c env =>
    obtain ⟨call, call', live, write, rewrites⟩ := establishHandler_rewrites run
    exact .inr ⟨c, call, call', live, write.write, rewrites⟩
  | close c err scode =>
    obtain ⟨call, live, -⟩ := (Option.any_eq_true ..).mp enabled
    have first : Rewrites s.media c { call with sess := .terminated }
        (s.media.setCall c fun call => { call with sess := .terminated }) := .setCall live
    have second := closeHandler_rewrites
      (s := s.setCall c fun call => { call with sess := .terminated }) first.live run
    exact .inr ⟨c, call, _, live, .closed, first.trans second⟩
  | rtp rs mb => exact rtpRecvHandler_rewrites run
  | played c =>
    cases run
    obtain ⟨call, live, -⟩ := (Option.any_eq_true ..).mp enabled
    exact .inr ⟨c, call, _, live, .played, .setCall live⟩
  | _ => cases callback

/-! ## Ticks -/

/-- `m'` has the calls of `m`, and perhaps new ones that `e` has placed. -/
structure Grows (e : Event) (m m' : Media) : Prop where
  next : m.calls.next ≤ m'.calls.next
  kept : ∀ c call, m.calls.get c = some call → m'.calls.get c = some call
  new : ∀ c call, m'.calls.get c = some call →
    m.calls.get c = some call ∨ (m.calls.next ≤ c ∧ NewCall e call)

namespace Grows

variable {m'' : Media}

theorem of_get (next : m.calls.next ≤ m'.calls.next)
    (same : ∀ p, m'.calls.get p = m.calls.get p) : Grows e m m' where
  next := next
  kept c _ live := (same c).trans live
  new c _ live := .inl ((same c).symm.trans live)

theorem trans (first : Grows e m m') (second : Grows e m' m'') : Grows e m m'' where
  next := Nat.le_trans first.next second.next
  kept c call live := second.kept c call (first.kept c call live)
  new c call live := by
    rcases second.new c call live with old | ⟨above, isNew⟩
    · exact first.new c call old
    · exact .inr ⟨Nat.le_trans first.next above, isNew⟩

/-- One call is added. -/
theorem alloc (calls : m'.calls = m.calls.alloc call) (isNew : NewCall e call) : Grows e m m' where
  next := by
    rw [calls]
    exact Nat.le_succ _
  kept c old live := by
    rw [calls]
    exact Heap.get_alloc_of_live live
  new c call' live := by
    rw [calls, Heap.get_alloc] at live
    split at live
    next here =>
      cases live
      exact .inr ⟨Nat.le_of_eq here.symm, isNew⟩
    · exact .inl live

end Grows

theorem DialResult.grows {env : DialEnv} {destroyed : Bool}
    (result : DialResult s now env d dest s' destroyed) (e : Event) :
    Grows e s.media s'.media := by
  cases result with
  | skipped => exact .of_get (Nat.le_refl _) fun _ => rfl
  | destroyed _ calls err =>
    obtain ⟨_, _, _, -, -, -, placing⟩ := calls
    have failed := callAlloc_notPlaced placing err
    exact .of_get failed.next failed.calls
  | @undone r c _ f _ _ calls ok isCall _ _ tags gone =>
    obtain ⟨_, _, _, -, -, -, placing⟩ := calls
    obtain ⟨rfl, rs, call, done⟩ := callAlloc_placed placing ok isCall
    have placed : (r.media.setCall s.media.calls.next f).calls = s.media.calls.alloc (f call) := by
      rw [calls_setCall, done.calls, Heap.modify_alloc_next]
    have noLeg : (f call).pbxCall = none := by
      obtain ⟨pt, sess, rfl⟩ := done.new
      obtain ⟨_, _, eq⟩ := tags (Call.placed rs pt sess now d)
      rw [eq]
      rfl
    rw [callDepth, memDerefCall_leaf (by rw [placed, Heap.get_alloc_next]) noLeg] at gone
    cases gone
    refine .of_get ?_ fun p => ?_
    · rw [placed]
      exact Nat.le_succ _
    · show ((r.media.setCall s.media.calls.next f).calls.free s.media.calls.next).get p = _
      rw [placed]
      rcases eq_or_ne p s.media.calls.next with rfl | ne
      · simp
      · simp [Heap.get_free, Heap.get_alloc, ne]
  | @placed r c _ f _ _ calls ok isCall _ _ tags =>
    obtain ⟨_, _, _, -, -, -, placing⟩ := calls
    obtain ⟨rfl, rs, call, done⟩ := callAlloc_placed placing ok isCall
    have added : (r.media.setCall s.media.calls.next f).calls = s.media.calls.alloc (f call) := by
      rw [calls_setCall, done.calls, Heap.modify_alloc_next]
    refine .alloc added ?_
    · obtain ⟨pt, sess, rfl⟩ := done.new
      obtain ⟨_, _, eq⟩ := tags (Call.placed rs pt sess now d)
      rw [eq]
      exact .main

theorem startFakeCalling_grows {env : DestId → DialEnv} (e : Event)
    (run : startFakeCalling s cp now env = .ok s') : Grows e s.media s'.media :=
  startFakeCalling_rule (I := fun t => Grows e s.media t.media) (fun _ _ grows _ => grows)
    (fun _ grows _ => grows) (fun _ _ _ _ _ _ grows _ result => grows.trans (result.grows e))
    (.of_get (Nat.le_refl _) fun _ => rfl) run

/-! ## Supervision -/

/-- The rules leave a call alone or end it, unless a key has been pressed or it joins
the PBX. -/
theorem endRules_quiet {env : AllocEnv} {dest : Destination}
    (live : s.book.dests.get d = some dest) (has : dest.call = some c)
    (liveCall : s.media.calls.get c = some call) (noEvent : call.eventReceived = false)
    (noJoin : call.joinPbx = false) (run : endRules s d now env = .ok s') :
    s' = s ∨ s' = s.setCall c Call.forceEnd := by
  simp only [endRules, Sys.loadDest, Sys.loadCall, load, live, has, liveCall, Fallible.get?_some,
    nonNull_some, Fallible.ok_bind, noEvent, noJoin, Bool.or_self, Bool.and_false,
    Bool.false_eq_true, if_false] at run
  split at run
  next ended =>
    cases run
    exact .inr (setCall_forceEnd liveCall ended)
  next =>
    obtain ⟨camp, -, run⟩ := Fallible.bind_eq_ok.mp run
    split at run
    · cases run
      exact .inr rfl
    · split at run
      · cases run
        exact .inr rfl
      · split at run
        · cases run
          exact .inr rfl
        · cases run
          exact .inl rfl

/-- What a supervision does to the calls that it leaves alive. -/
theorem supervised_calls {env : AllocEnv} {dest : Destination} {p : CallId} {call' : Call}
    (inv : Inv ans s) (liveDest : s.book.dests.get d = some dest) (armed : dest.tmr = true)
    (run : onCallEnd (s.disarmDest d) d now env = .ok s')
    (live : s'.media.calls.get p = some call') :
    (∃ call, s.media.calls.get p = some call ∧ CallWrite s p call (.destTimer d now env) call') ∨
      (s.media.calls.next ≤ p ∧ NewCall (.destTimer d now env) call') := by
  obtain ⟨c, call, has, liveCall, result⟩ := inv.supervised_cases liveDest armed run
  -- the call and its leg are gone, and the others are as they were
  have left : ∀ {media : Media},
      memDerefCall callDepth (s.media.setCall c Call.disconnect) c = .ok media →
      media.calls.get p = some call' → s.media.calls.get p = some call' := by
    intro media gone live
    obtain ⟨dead, -, fewer⟩ := memDerefCall_calls gone
    have old := fewer p call' live
    rcases eq_or_ne p c with rfl | ne
    · rw [dead] at live
      cases live
    · rwa [calls_setCall, Heap.get_modify_ne ne] at old
  cases result with
  | destroyed _ _ _ _ _ gone => exact .inl ⟨call', left gone live, .kept⟩
  | requeued _ _ _ _ _ gone => exact .inl ⟨call', left gone live, .kept⟩
  | @rearmed t ruled rules =>
    change t.media.calls.get p = some call' at live
    cases rules with
    | kept => exact .inl ⟨call', live, .kept⟩
    | @refused _ _ r _ _ notForwarded placing err =>
      have failed := callAlloc_notPlaced placing err
      have noLeg := (inv.phase c call liveCall).noLeg notForwarded
      have none := failed.noCall noLeg
      have same : s.media.calls.get p = some call' := by
        rw [Sys.setCall, calls_setCall, Heap.get_modify, failed.calls] at live
        split at live
        next here =>
          change (s.media.calls.get p).map _ = _ at live
          rw [here, liveCall, none, Option.map_some] at live
          rw [here, liveCall, ← live, ← noLeg]
        next => exact live
      exact .inl ⟨call', same, .kept⟩
    | @forwarded _ _ r leg notEnded up notForwarded placing ok isLeg =>
      obtain ⟨rfl, rs, new, done⟩ := callAlloc_placed placing ok isLeg
      have called : call.eventReceived = true ∨ call.joinPbx = true := by
        by_contra quiet
        rw [not_or, Bool.not_eq_true, Bool.not_eq_true] at quiet
        have liveNow := dests_disarmDest liveDest
        have next : r.media.calls.next = s.media.calls.next := by
          rcases endRules_quiet liveNow has liveCall quiet.1 quiet.2 ruled with eq | eq
          · exact congrArg (fun t : Sys => t.media.calls.next) eq
          · exact congrArg (fun t : Sys => t.media.calls.next) eq
        rw [done.calls, Heap.next_alloc] at next
        exact absurd next (Nat.succ_ne_self _)
      replace live := (done.legCalls_get liveCall p).symm.trans live
      split at live
      next here =>
        subst here
        cases live
        have owned : s.book.owner d = some p := (owner_of_live liveDest).trans has
        exact .inl ⟨call, liveCall, .forwarded owned notEnded up notForwarded called⟩
      next =>
        split at live
        next here =>
          obtain ⟨pt, sess, rfl⟩ := done.new
          cases live
          exact .inr ⟨Nat.le_of_eq here.symm, .leg⟩
        next => exact .inl ⟨call', live, .kept⟩

/-! ## Passes -/

/-- `m'` has no call that `m` does not have. -/
structure Frees (m m' : Media) : Prop where
  next : m'.calls.next = m.calls.next
  left : ∀ c call, m'.calls.get c = some call → m.calls.get c = some call

@[refl] theorem Frees.refl (m : Media) : Frees m m := ⟨rfl, fun _ _ live => live⟩

theorem Frees.trans {m'' : Media} (first : Frees m m') (second : Frees m' m'') : Frees m m'' :=
  ⟨second.next.trans first.next, fun c call live => first.left c call (second.left c call live)⟩

theorem flushDests_frees {l : List DestId} (run : flushDests l s = .ok s') :
    Frees s.media s'.media := by
  induction l generalizing s with
  | nil =>
    cases run
    exact .refl _
  | cons d rest ih =>
    obtain ⟨dest, media, -, gone, run⟩ := flushDests_cons run
    have first : Frees s.media media := by
      cases has : dest.call with
      | none =>
        rw [has] at gone
        rw [gone]
      | some c =>
        rw [has] at gone
        obtain ⟨-, next, left⟩ := memDerefCall_calls gone
        exact ⟨next, left⟩
    exact first.trans (ih run)

theorem readCampaign_frees {row : CampaignRow} (run : readCampaign s cp row = .ok s') :
    Frees s.media s'.media := by
  obtain ⟨camp, -, ⟨-, -, run⟩ | ⟨-, gateway, pbxGateway, rfl⟩⟩ := readCampaign_cases run
  · obtain ⟨_, t, -, flushed, rfl⟩ := memDerefCampaign_cases run
    have frees := flushDests_frees flushed
    exact frees
  · exact .refl _

theorem pull_frees {snap : Snapshot} (run : pullGroups s snap = .ok s') :
    Frees s.media s'.media := by
  refine pullGroups_rule (I := fun t => Frees s.media t.media) ?_ ?_ ?_ (.refl _) run
  · intro t row t' frees run
    rw [pullGateway_frame run]
    exact frees
  · intro t row t' frees run
    rcases pullCampaign_cases run with ⟨rfl, -⟩ | ⟨cp, -, -, run⟩ | ⟨-, -, run⟩
    · exact frees
    · exact frees.trans (readCampaign_frees run)
    · have created := readCampaign_frees run
      exact frees.trans created
  · intro calls actions t cp t' frees _ run
    obtain ⟨camp, -, ⟨rfl, -⟩ | ⟨-, rows, acts, l, -, -, rfl⟩⟩ := pullService_cases run
    · exact frees
    · exact frees

/-! ## The step -/

/-- A call that is live after a step was there before and `CallWrite` says what has
become of it, or the step has placed it. -/
theorem step_calls (inv : Inv ans s) (step : dialer.step s e s')
    (live : s'.media.calls.get c = some call') :
    (∃ call, s.media.calls.get c = some call ∧ CallWrite s c call e call') ∨
      (s.media.calls.next ≤ c ∧ NewCall e call') := by
  cases step_cases step with
  | pulled run => exact .inl ⟨call', (pull_frees run).left c call' live, .kept⟩
  | @ticked _ cp _ _ _ _ ticks run =>
    obtain ⟨f, msgq, torn, lost, -, rfl⟩ := ticks.state
    rcases (startFakeCalling_grows e run).new c call' live with old | new
    · exact .inl ⟨call', old, .kept⟩
    · exact .inr new
  | supervised liveDest armed run => exact supervised_calls inv liveDest armed run live
  | calledBack callback _ run =>
    rcases callback_calls callback step with same | ⟨p, call, new, old, write, rewrites⟩
    · rw [same] at live
      exact .inl ⟨call', live, .kept⟩
    · rw [rewrites.get c] at live
      split at live
      next here =>
        cases live
        exact .inl ⟨call, by rw [here]; exact old, by rw [here]; exact write⟩
      next => exact .inl ⟨call', live, .kept⟩
  | lost => exact .inl ⟨call', live, .kept⟩

/-- The calls are numbered in the order in which they are placed. -/
theorem step_nextCall (inv : Inv ans s) (step : dialer.step s e s') :
    s.media.calls.next ≤ s'.media.calls.next := by
  cases step_cases step with
  | pulled run => exact Nat.le_of_eq (pull_frees run).next.symm
  | @ticked _ cp _ _ _ _ ticks run =>
    obtain ⟨f, msgq, torn, lost, -, rfl⟩ := ticks.state
    exact (startFakeCalling_grows e run).next
  | @supervised d _ _ _ _ liveDest armed run =>
    obtain ⟨c, call, has, liveCall, result⟩ := inv.supervised_cases liveDest armed run
    cases result with
    | destroyed _ _ _ _ _ gone => exact Nat.le_of_eq (memDerefCall_calls gone).2.1.symm
    | requeued _ _ _ _ _ gone => exact Nat.le_of_eq (memDerefCall_calls gone).2.1.symm
    | @rearmed t _ rules =>
      show s.media.calls.next ≤ t.media.calls.next
      cases rules with
      | kept => exact Nat.le_refl _
      | refused _ _ _ placing | forwarded _ _ _ placing =>
        rcases callAlloc_cases placing with failed | ⟨rs, new, done⟩
        · exact failed.next
        · refine Nat.le_trans (Nat.le_succ _) (Nat.le_of_eq ?_)
          have next := congrArg Heap.next done.calls
          exact next.symm
  | calledBack callback _ run =>
    rcases callback_calls callback step with same | ⟨p, call, new, old, write, rewrites⟩
    · rw [same]
    · exact Nat.le_of_eq rewrites.next.symm
  | lost => exact Nat.le_refl _

/-! ## What holds of every call -/

/-- Every live call has the property. -/
def EveryCall (P : Call → Prop) (m : Media) : Prop := ∀ c call, m.calls.get c = some call → P call

/-- A property that survives every write and holds of new calls holds of all. -/
theorem step_everyCall {P : Call → Prop} (inv : Inv ans s) (every : EveryCall P s.media)
    (step : dialer.step s e s') (new : ∀ call, NewCall e call → P call)
    (write : ∀ c call call', s.media.calls.get c = some call → P call →
      CallWrite s c call e call' → P call') : EveryCall P s'.media := by
  intro c call' live
  rcases step_calls inv step live with ⟨call, old, wrote⟩ | ⟨-, isNew⟩
  · exact write c call call' old (every c call old) wrote
  · exact new call' isNew

end Autodialer
