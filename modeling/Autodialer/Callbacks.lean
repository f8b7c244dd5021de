import Autodialer.Ownership
import Autodialer.TickSpec

/-!
# What the callbacks do to calls and sessions

The callbacks of libre leave contacts, campaigns and lists alone: each writes to
the call it is about and to its session, and may enqueue a statement or send a
packet. `InPhase` relates the state of a call to what has been heard of it.
-/

namespace Autodialer

variable {s s' : Sys} {c : CallId} {call : Call} {rs : SessionId} {m m' : Media}
  {ans ans' : CallId → Addr → Prop}

/-- The main call of each destination in the book. -/
def Book.owner (b : Book) : Owner := fun d => (b.dests.get d).bind Destination.call

/-! ## The phase of a call -/

/-- The phase of the call `c`; `ans c a` says that it was answered from `a`. -/
structure InPhase (ans : CallId → Addr → Prop) (c : CallId) (call : Call) : Prop where
  answered : call.callStatus = .established → call.ended = false → call.rtpDest.isSome = true
  /-- Only an established call has been forwarded. -/
  forwarded : call.pbxCall.isSome = true → call.callStatus = .established ∧ call.forwarded = true
  heard : ∀ a, call.rtpDest = some a → ans c a

def AllInPhase (ans : CallId → Addr → Prop) (m : Media) : Prop :=
  ∀ c call, m.calls.get c = some call → InPhase ans c call

theorem InPhase.mono (phase : InPhase ans c call) (more : ∀ c a, ans c a → ans' c a) :
    InPhase ans' c call :=
  ⟨phase.answered, phase.forwarded, fun a eq => more c a (phase.heard a eq)⟩

/-- A call that has not been forwarded has no PBX leg. -/
theorem InPhase.noLeg (phase : InPhase ans c call) (notForwarded : call.forwarded = false) :
    call.pbxCall = none := by
  cases hasLeg : call.pbxCall with
  | none => rfl
  | some leg =>
    have forwarded := (phase.forwarded (by rw [hasLeg]; rfl)).2
    rw [notForwarded] at forwarded
    cases forwarded

theorem InPhase.placed {rs : SessionId} {pt : Nat} {sess : Sess} {now : Time} {arg : DestId} :
    InPhase ans c (Call.placed rs pt sess now arg) where
  answered up := by cases up
  forwarded has := by cases has
  heard _ eq := by cases eq

namespace AllInPhase

theorem mono (phase : AllInPhase ans m) (more : ∀ c a, ans c a → ans' c a) : AllInPhase ans' m :=
  fun c call live => (phase c call live).mono more

/-- The calls are among those of `m`. -/
theorem fewer (phase : AllInPhase ans m)
    (back : ∀ c call, m'.calls.get c = some call → m.calls.get c = some call) : AllInPhase ans m' :=
  fun c call live => phase c call (back c call live)

theorem setCall (phase : AllInPhase ans m) {f : Call → Call}
    (here : ∀ call, m.calls.get c = some call → InPhase ans c call → InPhase ans c (f call)) :
    AllInPhase ans (m.setCall c f) := by
  intro p call' live
  rw [calls_setCall, Heap.get_modify] at live
  split at live
  next isC =>
    subst isC
    obtain ⟨call, old, rfl⟩ := Option.map_eq_some_iff.mp live
    exact here call old (phase p call old)
  next => exact phase p call' live

end AllInPhase

/-! ## Progress and end -/

/-- `db'` is `db`, perhaps with a status record of a destination of `b`. -/
def Reported (b : Book) (db db' : Db Sql) : Prop :=
  db' = db ∨ ∃ d dest status connectTm establishTm, b.dests.get d = some dest ∧
    db' = dbExec db (.status status 0 connectTm establishTm dest.destId)

theorem progressHandler_cases {scode : Nat} (run : progressHandler s c scode = .ok s') :
    ∃ db, Reported s.book s.db db ∧
      s' = { s.setCall c fun call => { call with respCode := scode } with db := db } := by
  obtain ⟨call, -, run⟩ := Fallible.bind_eq_ok.mp run
  dsimp only at run
  split at run
  · cases run
    exact ⟨s.db, .inl rfl, rfl⟩
  · obtain ⟨d, dest, _, _, -, live, -, -, rfl⟩ := updateCallStatus_cases run
    exact ⟨_, .inr ⟨d, dest, _, _, _, live, rfl⟩, rfl⟩

theorem closeHandler_cases {err : Bool} {scode : Nat} (run : closeHandler s c err scode = .ok s') :
    ∃ respCode, s' = s.setCall c fun call => { call with ended := true, respCode := respCode } := by
  obtain ⟨call, -, run⟩ := Fallible.bind_eq_ok.mp run
  cases run
  exact ⟨_, rfl⟩

/-! ## Answer -/

/-- What `establishHandler` does to the calls and sessions of `m`. -/
inductive AnswerResult (m : Media) (own : Owner) (c : CallId) (call : Call) (env : EstablishEnv) :
    Media → Prop
  /-- The call was established before. -/
  | again {f : Call → Call} : call.callStatus = .established →
      (∀ call, f call = { call with respCode := env.scode }) →
      AnswerResult m own c call env (m.setCall c f)
  /-- There is no common format, and the call is ended. -/
  | noFormat {f : Call → Call} : call.callStatus ≠ .established → env.answer.format = none →
      (∀ call, f call = { call with
        respCode := env.scode, establishTm := env.now, callStatus := .established,
        ended := true, sess := .null }) →
      AnswerResult m own c call env (m.setCall c f)
  /-- The main call is answered. -/
  | main {g : Call → Call} {f : RtpSession → RtpSession} {rs : SessionId} :
      call.callStatus ≠ .established → env.answer.format.isSome = true → call.ispbxcall = false →
      call.rtpSess = some rs →
      (∀ call, SameLinks { call with rtpDest := some env.answer.raddr } (g call)) →
      (∀ call, (g call).callStatus = .established ∧ (g call).ended = call.ended ∧
        (g call).forwarded = call.forwarded) →
      (∀ r, (f r).arg = r.arg ∧ (f r).inUse = r.inUse ∧ (f r).remote = r.remote ∧
        (f r).remoteIp = r.remoteIp) →
      (call.joinPbx = true → ∀ r, f r = r) →
      AnswerResult m own c call env
        (((m.setCall c g).setSession rs fun r => { r with remoteIp := some env.answer.raddr }).setSession
          rs f)
  /-- The PBX leg is answered, and linked to its main call. -/
  | leg {g : Call → Call} {rs t : SessionId} {d : DestId} {main : CallId} {mainCall : Call} :
      call.callStatus ≠ .established → env.answer.format.isSome = true → call.ispbxcall = true →
      call.rtpSess = some rs → call.dest = some d → own d = some main →
      (m.setCall c g).calls.get main = some mainCall → mainCall.rtpSess = some t →
      (∀ call, SameLinks { call with rtpDest := some env.answer.raddr } (g call)) →
      (∀ call, (g call).callStatus = .established ∧ (g call).ended = call.ended ∧
        (g call).forwarded = call.forwarded) →
      AnswerResult m own c call env
        ((((m.setCall c g).setSession rs fun r => { r with remoteIp := some env.answer.raddr }).setSession
          t fun r => { r with remote := some rs }).setSession rs fun r => { r with remote := some t })

/-- The call after an answer with a common format. -/
def Call.answer (call : Call) (env : EstablishEnv) (pt : Nat) : Call :=
  { call with
    respCode := env.scode, establishTm := env.now, callStatus := .established, pt := pt,
    rtpDest := some env.answer.raddr }

theorem setSession_id (m : Media) (rs : SessionId) : m.setSession rs (fun r => r) = m := by
  rw [Media.setSession, Function.update_eq_self]

/-- An answered main call plays its audio file, unless it joins the PBX. -/
theorem establishAudio_cases (s : Sys) (c : CallId) (rs : SessionId) (env : EstablishEnv) :
    ∃ g f, (∀ call, SameLinks call (g call)) ∧
      (∀ call, (g call).callStatus = call.callStatus ∧ (g call).ended = call.ended ∧
        (g call).forwarded = call.forwarded) ∧
      (∀ r, (f r).arg = r.arg ∧ (f r).inUse = r.inUse ∧ (f r).remote = r.remote ∧
        (f r).remoteIp = r.remoteIp) ∧
      establishAudio s c rs env = { s with media := (s.media.setCall c g).setSession rs f } := by
  let listen : RtpSession → RtpSession := fun r =>
    { r with
      telev := if r.telev.isNone && env.televAlloc then some {} else r.telev
      televRecv := true }
  cases created : env.thrdCreate with
  | true =>
    refine ⟨fun call => { call with establishTm := env.now, thrdCreated := true }, listen,
      fun _ => ⟨rfl, rfl, rfl, rfl, rfl, rfl⟩, fun _ => ⟨rfl, rfl, rfl⟩,
      fun _ => ⟨rfl, rfl, rfl, rfl⟩, ?_⟩
    rw [establishAudio, created]
    rfl
  | false =>
    refine ⟨fun call => call, listen, fun _ => ⟨rfl, rfl, rfl, rfl, rfl, rfl⟩,
      fun _ => ⟨rfl, rfl, rfl⟩, fun _ => ⟨rfl, rfl, rfl, rfl⟩, ?_⟩
    rw [establishAudio, created, Media.setCall, Heap.modify_eq_self fun _ _ => rfl]
    rfl

theorem establishBridge_cases (run : establishBridge s call rs = .ok s') :
    ∃ d main mainCall t, call.dest = some d ∧ s.book.owner d = some main ∧
      s.media.calls.get main = some mainCall ∧ mainCall.rtpSess = some t ∧
      s' = (s.setSession t fun r => { r with remote := some rs }).setSession rs fun r =>
        { r with remote := some t } := by
  obtain ⟨d, isDest, run⟩ := Fallible.bind_eq_ok.mp run
  obtain ⟨dest, live, run⟩ := Fallible.bind_eq_ok.mp run
  obtain ⟨main, has, run⟩ := Fallible.bind_eq_ok.mp run
  obtain ⟨mainCall, liveMain, run⟩ := Fallible.bind_eq_ok.mp run
  obtain ⟨t, holds, run⟩ := Fallible.bind_eq_ok.mp run
  cases run
  refine ⟨d, main, mainCall, t, nonNull_eq_ok.mp isDest, ?_, load_eq_ok.mp liveMain,
    nonNull_eq_ok.mp holds, rfl⟩
  simp [Book.owner, load_eq_ok.mp live, nonNull_eq_ok.mp has]

theorem establishHandler_cases {env : EstablishEnv} (run : establishHandler s c env = .ok s') :
    ∃ call m db, s.media.calls.get c = some call ∧ Reported s.book s.db db ∧
      AnswerResult s.media s.book.owner c call env m ∧ s' = { s with media := m, db := db } := by
  obtain ⟨call, live, run⟩ := Fallible.bind_eq_ok.mp run
  rw [Sys.loadCall, load_eq_ok] at live
  dsimp only at run
  split at run
  next up =>
    cases run
    exact ⟨call, _, s.db, live, .inl rfl, .again up fun _ => rfl, rfl⟩
  next notUp =>
    split at run
    next noFormat =>
      cases run
      refine ⟨call, _, s.db, live, .inl rfl, .noFormat notUp noFormat fun _ => rfl, ?_⟩
      simp only [Sys.setCall, Media.setCall, Heap.modify_modify]
    next pt format =>
      obtain ⟨rs, holds, run⟩ := Fallible.bind_eq_ok.mp run
      rw [nonNull_eq_ok] at holds
      generalize answered : Sys.setSession _ rs _ = t at run
      have state : t = (s.setCall c fun call => call.answer env pt).setSession rs fun r =>
          { r with remoteIp := some env.answer.raddr } := by
        rw [← answered]
        simp only [Sys.setCall, Media.setCall, Heap.modify_modify]
        rfl
      have hasFormat : env.answer.format.isSome = true := by rw [format]; rfl
      split at run
      next pbx =>
        obtain ⟨d, main, mainCall, t', isDest, has, liveMain, holds', rfl⟩ :=
          establishBridge_cases run
        subst state
        exact ⟨call, _, s.db, live, .inl rfl, .leg notUp hasFormat pbx holds isDest has liveMain
          holds' (fun _ => ⟨rfl, rfl, rfl, rfl, rfl, rfl⟩) (fun _ => ⟨rfl, rfl, rfl⟩), rfl⟩
      next notPbx =>
        rw [Bool.not_eq_true] at notPbx
        obtain ⟨d, dest, _, call', -, liveDest, -, -, rfl⟩ := updateCallStatus_cases run
        -- neither branch before the report touches the contacts
        have liveHere : s.book.dests.get d = some dest := by
          have kept : t.book = s.book := by rw [state]; rfl
          rw [← kept, ← liveDest]
          cases call.joinPbx with
          | true => rfl
          | false =>
            obtain ⟨_, _, -, -, -, eq⟩ := establishAudio_cases t c rs env
            rw [if_neg (by simp), eq]
        cases joins : call.joinPbx with
        | true =>
          subst state
          have result : AnswerResult s.media s.book.owner c call env (Media.setSession _ rs fun r => r) :=
            .main (g := fun call => call.answer env pt) notUp hasFormat notPbx holds
              (fun _ => ⟨rfl, rfl, rfl, rfl, rfl, rfl⟩) (fun _ => ⟨rfl, rfl, rfl⟩)
              (fun _ => ⟨rfl, rfl, rfl, rfl⟩) fun _ _ => rfl
          rw [setSession_id] at result
          exact ⟨call, _, _, live, .inr ⟨d, dest, _, _, _, liveHere, rfl⟩, result, rfl⟩
        | false =>
          obtain ⟨g, f, links, phase, sessions, eq⟩ := establishAudio_cases t c rs env
          rw [if_neg (by simp), eq]
          subst state
          refine ⟨call, _, dbExec s.db (.status call'.callStatus 0 call'.connectTm call'.establishTm
            dest.destId), live, .inr ⟨d, dest, _, _, _, liveHere, rfl⟩,
            .main (g := fun call => g (call.answer env pt)) notUp hasFormat notPbx holds
              (fun call => ?_) (fun call => ?_) sessions fun on => ?_, ?_⟩
          · have here := links (call.answer env pt)
            exact ⟨here.rtpSess, here.pbxCall, here.rtpDest, here.dest, here.ispbxcall, here.arg⟩
          · have here := phase (call.answer env pt)
            exact ⟨here.1, here.2.1, here.2.2⟩
          · rw [joins] at on
            cases on
          · simp only [Sys.exec, Sys.setCall, Sys.setSession, Media.setCall, Media.setSession,
              Heap.modify_modify]

/-- The answers after `establish_handler` has run for the call `c`. -/
def heardFrom (ans : CallId → Addr → Prop) (c : CallId) (call : Call) (env : EstablishEnv) :
    CallId → Addr → Prop :=
  fun p a => ans p a ∨ (p = c ∧ a = env.answer.raddr ∧ env.answer.format.isSome = true ∧
    call.callStatus ≠ .established)

section Answer

variable {own : Owner} {env : EstablishEnv}

theorem AnswerResult.sound (result : AnswerResult m own c call env m')
    (live : m.calls.get c = some call) (inv : Sound m own) : Sound m' own := by
  cases result with
  | again _ only => exact inv.setCall fun call _ => by rw [only]; exact ⟨rfl, rfl, rfl, rfl, rfl, rfl⟩
  | noFormat _ _ only =>
    exact inv.setCall fun call _ => by rw [only]; exact ⟨rfl, rfl, rfl, rfl, rfl, rfl⟩
  | main _ _ _ holds links _ sessions =>
    have answered := inv.answer live holds (links call)
    refine answered.setSession (c := c) ?_ (sessions _)
    rw [rtp_setSession, if_pos rfl]
    exact inv.arg_of live holds
  | @leg g rs t d main mainCall _ _ pbx holds isDest has liveMain holds' links _ =>
    have answered := inv.answer live holds (links call)
    have liveLeg : (m.setCall c g).calls.get c = some (g call) := by simp [live]
    exact answered.link liveLeg ((links call).ispbxcall.trans pbx)
      ((links call).dest.trans isDest) has liveMain holds' ((links call).rtpSess.trans holds)
      (by rw [(links call).rtpDest]; rfl)

theorem AnswerResult.phase (result : AnswerResult m own c call env m')
    (live : m.calls.get c = some call) (phase : AllInPhase ans m) :
    AllInPhase (heardFrom ans c call env) m' := by
  have before : AllInPhase (heardFrom ans c call env) m := phase.mono fun _ _ => Or.inl
  -- the write of an answer with a common format
  have answer : ∀ g : Call → Call, call.callStatus ≠ .established →
      env.answer.format.isSome = true →
      (∀ call, SameLinks { call with rtpDest := some env.answer.raddr } (g call)) →
      (∀ call, (g call).callStatus = .established ∧ (g call).ended = call.ended ∧
        (g call).forwarded = call.forwarded) →
      AllInPhase (heardFrom ans c call env) (m.setCall c g) := by
    intro g notUp format links fields
    refine before.setCall fun call' live' phase' => ?_
    obtain rfl := Option.some.inj (live.symm.trans live')
    refine ⟨fun _ _ => by rw [(links call).rtpDest]; rfl, fun has => ⟨(fields call).1, ?_⟩,
      fun a isDest => ?_⟩
    · rw [(fields call).2.2]
      rw [(links call).pbxCall] at has
      exact (phase'.forwarded has).2
    · rw [(links call).rtpDest] at isDest
      exact .inr ⟨rfl, (Option.some.inj isDest).symm, format, notUp⟩
  cases result with
  | again _ only =>
    exact before.setCall fun call _ phase' => by
      rw [only]
      exact ⟨phase'.answered, phase'.forwarded, phase'.heard⟩
  | noFormat _ _ only =>
    refine before.setCall fun call _ phase' => ?_
    rw [only]
    exact ⟨fun _ => nofun, fun has => ⟨rfl, (phase'.forwarded has).2⟩, phase'.heard⟩
  | main notUp format _ _ links fields _ => exact answer _ notUp format links fields
  | leg notUp format _ _ _ _ _ _ links fields => exact answer _ notUp format links fields

end Answer

/-! ## RTP packets -/

/-- The write of a completed telephone event. -/
def Presses (f : Call → Call) : Prop :=
  ∀ call, ∃ action key type ended, f call = { call with
    action := action, eventReceived := true, actionKey := key, actionType := type, ended := ended } ∧
    (call.ended = true → ended = true)

/-- The cases of `rtp_recv_handler`. A packet is looked into only on a session
whose call is listened to. -/
theorem rtpRecvHandler_cases {mb : List UInt8} (run : rtpRecvHandler s rs mb = .ok s') :
    s' = s ∨ s' = rtpForward s rs mb ∨
      ∃ c call telev, (s.media.rtp rs).televRecv = true ∧ (s.media.rtp rs).arg = some c ∧
        s.media.calls.get c = some call ∧
        (s' = rtpForward (s.setSession rs fun r => { r with telev := telev }) rs mb ∨
          ∃ f, (Presses f ∨ ∀ call, f call = call) ∧
            s' = (s.setSession rs fun r => { r with telev := telev }).setCall c f) := by
  unfold rtpRecvHandler at run
  split at run
  · cases run
    exact .inl rfl
  · split at run
    next on =>
      obtain ⟨c, isArg, run⟩ := Fallible.bind_eq_ok.mp run
      obtain ⟨call, live, run⟩ := Fallible.bind_eq_ok.mp run
      rw [nonNull_eq_ok] at isArg
      rw [Sys.loadCall, load_eq_ok] at live
      split at run
      · split at run
        · cases run
          exact .inl rfl
        next telev event fin _ =>
          refine .inr (.inr ⟨c, call, some telev, on, isArg, live, ?_⟩)
          dsimp only at run
          split at run
          · obtain ⟨found, -, run⟩ := Fallible.bind_eq_ok.mp run
            split at run
            · cases run
              exact .inr ⟨fun call => call, .inr fun _ => rfl, (Sys.setCall_id _ _).symm⟩
            next a action =>
              cases run
              refine .inr ⟨_, .inl fun call => ⟨_, _, _, _, rfl, fun ended => ?_⟩, rfl⟩
              simp [ended]
          · cases run
            exact .inl rfl
      · cases run
        exact .inr (.inl rfl)
    · cases run
      exact .inr (.inl rfl)

theorem rtpForward_cases (s : Sys) (rs : SessionId) (mb : List UInt8) :
    ((s.media.rtp rs).remote = none ∧ rtpForward s rs mb = s) ∨
      ∃ t, (s.media.rtp rs).remote = some t ∧
        rtpForward s rs mb =
          { s with media := s.media.send (.datagram t (s.media.rtp t).remoteIp mb) } := by
  unfold rtpForward
  cases linked : (s.media.rtp rs).remote with
  | none => exact .inl ⟨rfl, rfl⟩
  | some t => exact .inr ⟨t, rfl, rfl⟩

end Autodialer
