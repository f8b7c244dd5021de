import Autodialer.AllOrNothing
import Autodialer.Lib.Logging
import Autodialer.Retries

/-!
# How the dial loop serves its list

`dialOps` is the dial loop of `start_fake_calling` with a log of what it does to
the destinations: which of them it reads, passes to `call_alloc` and destroys.

* `dialOps_result`: without its log it is `dialLoop`.
* `dial_loop_serves`: every waiting destination is dialled once and none is read
  after it was destroyed exactly if no `call_alloc` of the tick fails.
-/

namespace Autodialer

open Fallible

variable {s s' t u : Sys} {m : Media} {d : DestId} {c : CallId} {cp : CampId} {dest : Destination}
  {camp : Campaign} {now : Time} {e : Event} {ans : CallId → Addr → Prop}

/-! ## The loop with its log -/

/-- What the dial loop does to a destination. -/
inductive DialOp
  /-- A field of the destination is read, or its link. -/
  | read (d : DestId)
  | callAlloc (d : DestId)
  /-- The destructor has run and the memory is freed. -/
  | destroy (d : DestId)
deriving DecidableEq, Repr

/-- The body of the dial loop. -/
def dialDestOps (s : Sys) (now : Time) (env : DialEnv) (d : DestId) :
    Logging DialOp Fault (Sys × Bool) := do
  Logging.tell (.read d)
  let dest ← Logging.lift (s.loadDest d)
  match dest.call with
  | some _ => pure (s, false)
  | none => do
    let camp ← Logging.lift (s.loadCamp dest.cp)
    match camp.gateway with
    | none => pure (s, false)
    | some g => do
      Logging.tell (.callAlloc d)
      let gateway ← Logging.lift (load .gateway s.gateways g)
      let r ← Logging.lift
        (callAlloc s.media env.alloc now dest.call dest.dest gateway.sipUri false 0 d)
      let s := { s with media := r.media }.setDest d fun dest => { dest with call := r.callp }
      if r.err then do
        Logging.tell (.destroy d)
        let s ← Logging.lift (memDerefDest s d)
        pure (s, true)
      else do
        let c ← Logging.lift (nonNull .call r.callp)
        Logging.tell (.read d)
        let s ← Logging.lift (dialPlaced s now env d c)
        pure (s, false)

/-- The dial loop. It reads the link of the element it stands on after the body, whether the
body has destroyed it or not. -/
def dialOps (now : Time) (env : DestId → DialEnv) : List DestId → Sys → Logging DialOp Fault Sys
  | [], s => pure s
  | d :: rest, s => do
    let (s, destroyed) ← dialDestOps s now (env d) d
    Logging.tell (.read d)
    if destroyed then
      match (env d).freed with
      | .null => pure s
      | .stale => dialOps now env rest s
      | .trap => Logging.lift (.error (.dangling .destination))
    else dialOps now env rest s

theorem dialDestOps_result (s : Sys) (now : Time) (env : DialEnv) (d : DestId) :
    (dialDestOps s now env d).result = dialDest s now env d := by
  unfold dialDestOps dialDest
  rw [Logging.result_tell_bind, Logging.result_bind, Logging.result_lift]
  refine bind_congr fun dest => ?_
  cases dest.call with
  | some _ => rfl
  | none =>
    dsimp only
    rw [Logging.result_bind, Logging.result_lift]
    refine bind_congr fun camp => ?_
    cases camp.gateway with
    | none => rfl
    | some g =>
      dsimp only
      rw [Logging.result_tell_bind, Logging.result_bind, Logging.result_lift]
      refine bind_congr fun gateway => ?_
      rw [Logging.result_bind, Logging.result_lift]
      refine bind_congr fun r => ?_
      split
      · rw [Logging.result_tell_bind, Logging.result_bind, Logging.result_lift]
        rfl
      · rw [Logging.result_bind, Logging.result_lift]
        refine bind_congr fun c => ?_
        rw [Logging.result_tell_bind, Logging.result_bind, Logging.result_lift]
        rfl

/-- The log is only a record: without it the loop is `dialLoop`. -/
theorem dialOps_result (env : DestId → DialEnv) (l : List DestId) (s : Sys) :
    (dialOps now env l s).result = dialLoop now env l s := by
  induction l generalizing s with
  | nil => rfl
  | cons d rest ih =>
    unfold dialOps dialLoop
    rw [Logging.result_bind, dialDestOps_result]
    refine bind_congr fun r => ?_
    obtain ⟨t, destroyed⟩ := r
    dsimp only
    rw [Logging.result_tell_bind]
    cases destroyed with
    | false => exact ih t
    | true =>
      simp only [if_true]
      cases (env d).freed with
      | null => rfl
      | stale => exact ih t
      | trap => rfl

/-! ## When `call_alloc` succeeds -/

/-- `sdp_sess_alloc` comes back: it does not free the wild `sdpsess`. -/
def AllocEnv.sdpReturns (env : AllocEnv) : Bool := env.sdpSessionAlloc || !env.wildSdp

/-- `call_alloc` comes back: there is no memory for the call, or the wild `sdpsess` is not freed, and
the strings are made if they are needed. -/
def AllocEnv.returns (env : AllocEnv) (gateway : SipUri) : Bool :=
  !env.callMem || env.sdpReturns && (env.named gateway || !(env.sdpAdds && env.sdpEncode))

theorem AllocEnv.returns_eq_false {env : AllocEnv} {gateway : SipUri} :
    env.returns gateway = false ↔ env.callMem = true ∧
      (env.sdpReturns = false ∨ env.named gateway = false ∧ env.sdpAdds ∧ env.sdpEncode) := by
  simp only [AllocEnv.returns, Bool.or_eq_false_iff, Bool.and_eq_false_iff, Bool.not_eq_false',
    Bool.and_eq_true]

/-- `call_alloc` comes back when it is given the gateway of the campaign. -/
def Sys.AllocReturns (s : Sys) (camp : Campaign) (env : AllocEnv) : Prop :=
  ∀ g gateway, camp.gateway = some g → s.gateways.get g = some gateway →
    env.returns gateway.sipUri = true

/-- Every library call that decides the result of `call_alloc` succeeds. -/
def AllocEnv.succeeds (env : AllocEnv) : Bool :=
  env.callMem && env.sdpSessionAlloc && env.sdpMediaAdd && env.sdpFormatAdd &&
    env.sdpFormatAddTelev && env.sdpEncode && env.rtpAlloc

theorem AllocEnv.succeeds_eq (env : AllocEnv) :
    env.succeeds = (env.callMem && env.sdpAdds && env.sdpEncode && env.rtpAlloc) := by
  simp only [AllocEnv.succeeds, AllocEnv.sdpAdds, Bool.and_assoc]

theorem findRtpSession_isSome (pool : Pool m) :
    (findRtpSession m).isSome = decide (0 < m.rtpSessions.length) := by
  cases free : m.rtpSessions with
  | nil => simp [findRtpSession, free]
  | cons rs rest =>
    have idle : (m.rtp rs).inUse = false := (pool.clean rs (by simp [free])).inUse
    simp [findRtpSession, free, idle]

theorem callAllocFail_ok {call : Call} (live : m.calls.get c = some call)
    (noLeg : call.pbxCall = none) :
    ∃ media, callAllocFail m c = .ok ⟨media, true, none⟩ := by
  refine ⟨{ m.releaseOf call with calls := m.calls.free c }, ?_⟩
  rw [callAllocFail, callDepth, memDerefCall_leaf live noLeg]
  rfl

/-- The three ways `sdp_sess_alloc` comes back: no session is free, or one is and it is
either offered or lost. -/
theorem sdpSessAlloc_ok {env : AllocEnv} (returns : env.sdpReturns = true) :
    (findRtpSession m = none ∧ sdpSessAlloc m env = .ok (m, none)) ∨
      ∃ m₁ rs, findRtpSession m = some (m₁, rs) ∧ m₁.calls = m.calls ∧
        sdpSessAlloc m env =
          if env.sdpAdds then
            .ok (m₁.setSession rs fun r => { r with connected := true }, some rs)
          else .ok (m₁, none) := by
  cases found : findRtpSession m with
  | none => exact .inl ⟨rfl, by simp [sdpSessAlloc, found]⟩
  | some r =>
    obtain ⟨m₁, rs⟩ := r
    obtain ⟨-, -, rfl⟩ := findRtpSession_eq_some found
    refine .inr ⟨_, rs, rfl, rfl, ?_⟩
    cases added : env.sdpAdds with
    | true => exact sdpSessAlloc_added found added
    | false =>
      rw [sdpSessAlloc, found]
      cases session : env.sdpSessionAlloc with
      | false =>
        have tame : env.wildSdp = false := by simpa [AllocEnv.sdpReturns, session] using returns
        simp [tame]
      | true =>
        rw [AllocEnv.sdpAdds, session, Bool.true_and] at added
        simp [added]

theorem callAlloc_ok {env : AllocEnv} (now : Time) (callp : Option CallId) (tel : Option String)
    (gateway : SipUri) (arg : DestId) (pool : Pool m) (returns : env.returns gateway = true) :
    ∃ r, callAlloc m env now callp tel gateway false 0 arg = .ok r ∧
      r.err = !(env.succeeds && decide (0 < m.rtpSessions.length)) := by
  cases memory : env.callMem with
  | false =>
    exact ⟨⟨m, true, callp⟩, by rw [callAlloc, memory]; rfl, by simp [AllocEnv.succeeds, memory]⟩
  | true =>
    have fresh : { m with calls := m.calls.alloc {} : Media }.calls.get m.calls.next = some {} := by
      simp [Heap.get_alloc]
    have pool' : Pool { m with calls := m.calls.alloc {} } := ⟨pool.nodup, pool.clean⟩
    have session := findRtpSession_isSome pool'
    simp only [AllocEnv.returns, memory, Bool.not_true, Bool.false_or, Bool.and_eq_true] at returns
    obtain ⟨returns, named⟩ := returns
    simp only [callAlloc, memory, if_true]
    rcases sdpSessAlloc_ok (m := { m with calls := m.calls.alloc {} }) returns with
      ⟨none', eq⟩ | ⟨m₁, rs, found, calls, eq⟩
    · -- no session was free
      obtain ⟨media, failed⟩ := callAllocFail_ok fresh rfl
      refine ⟨_, by rw [eq]; exact failed, ?_⟩
      rw [none'] at session
      simp [← session]
    · rw [found] at session
      cases offered : env.sdpAdds with
      | false =>
        have live : m₁.calls.get m.calls.next = some {} := by rw [calls]; exact fresh
        obtain ⟨media, failed⟩ := callAllocFail_ok live rfl
        refine ⟨_, by rw [eq, offered]; exact failed, ?_⟩
        simp [AllocEnv.succeeds_eq, offered]
      | true =>
        have live : (((m₁.setSession rs fun r => { r with connected := true }).setCall m.calls.next
            fun call => { call with rtpSess := some rs, sdp := some (sdpFormat
              (gateway.codec.getD 0 % 2 ^ 8)) })).calls.get m.calls.next =
            some { rtpSess := some rs, sdp := some (sdpFormat (gateway.codec.getD 0 % 2 ^ 8)) } := by
          simp [calls]
        rw [eq, offered]
        cases encoded : env.sdpEncode with
        | false =>
          obtain ⟨media, failed⟩ := callAllocFail_ok live rfl
          refine ⟨_, failed, ?_⟩
          simp [AllocEnv.succeeds_eq, encoded]
        | true =>
          have named : env.named gateway = true := by simpa [offered, encoded] using named
          rw [named]
          cases sockets : env.rtpAlloc with
          | true =>
            refine ⟨_, rfl, ?_⟩
            simp [AllocEnv.succeeds_eq, memory, offered, encoded, sockets, ← session]
          | false =>
            -- no socket: the call is destroyed whether the INVITE was sent or not
            have gone : ∀ m' : Media, (∃ call, m'.calls.get m.calls.next = some call ∧
                call.pbxCall = none) → ∃ r, callAllocFail m' m.calls.next = .ok r ∧
                r.err = !(env.succeeds && decide (0 < m.rtpSessions.length)) := by
              rintro m' ⟨call, live', noLeg⟩
              obtain ⟨media, failed⟩ := callAllocFail_ok live' noLeg
              exact ⟨_, failed, by simp [AllocEnv.succeeds_eq, sockets]⟩
            refine gone _ ?_
            cases env.sipsessConnect with
            | true => exact ⟨_, (Heap.get_modify_self _ _ _).trans (congrArg (Option.map _) live), rfl⟩
            | false => exact ⟨_, live, rfl⟩

/-! ## One destination -/

theorem dialPlaced_ok (now : Time) (env : DialEnv) {call : Call} (live : s.book.dests.get d = some dest)
    (has : dest.call = some c) (liveCamp : s.book.camps.get dest.cp = some camp)
    (liveCall : s.media.calls.get c = some call) (noLeg : call.pbxCall = none) :
    ∃ s', dialPlaced s now env d c = .ok s' := by
  generalize tried : (s.setDest d fun dest =>
    { dest with tryCount := (dest.tryCount + 1) % 2 ^ 8, lastTry := now }) = t
  have liveTried : t.book.dests.get d =
      some { dest with tryCount := (dest.tryCount + 1) % 2 ^ 8, lastTry := now } := by
    rw [← tried]
    exact (Heap.get_modify_self _ _ _).trans (congrArg (Option.map _) live)
  have liveCampTried : t.book.camps.get dest.cp = some camp := by
    rw [← tried]
    exact liveCamp
  have liveCallTried : t.media.calls.get c = some call := by
    rw [← tried]
    exact liveCall
  simp only [dialPlaced, tried, Sys.loadDest, Sys.loadCamp, load, liveTried, liveCampTried,
    Fallible.get?_some, Fallible.ok_bind]
  obtain ⟨f, tags, -, dialled⟩ := dialTarget_eq t camp d c env.access
  obtain ⟨audio, joinPbx, eq⟩ := tags call
  have liveTarget : (t.setCall c f).media.calls.get c = some (f call) :=
    (Heap.get_modify_self _ _ _).trans (congrArg (Option.map f) liveCallTried)
  rw [dialled]
  split
  · have liveDest : (t.setCall c f).book.dests.get d =
        some { dest with tryCount := (dest.tryCount + 1) % 2 ^ 8, lastTry := now } := liveTried
    have armed : ((t.setCall c f).setDest d fun dest => { dest with tmr := true }).book.dests.get d =
        some { dest with tryCount := (dest.tryCount + 1) % 2 ^ 8, lastTry := now, tmr := true } :=
      (Heap.get_modify_self _ _ _).trans (congrArg (Option.map _) liveDest)
    have sameCalls : ((t.setCall c f).setDest d fun dest => { dest with tmr := true }).media.calls.get
        c = some (f call) := liveTarget
    rw [pure_bind, liveDest]
    simp only [Fallible.get?_some, Fallible.ok_bind, has, updateCallStatus, nonNull_some,
      Sys.loadDest, Sys.loadCall, load, armed, sameCalls]
    exact ⟨_, rfl⟩
  · have noLeg' : (f call).pbxCall = none := by rw [eq]; exact noLeg
    rw [dropCall, callDepth, memDerefCall_leaf liveTarget noLeg', Fallible.ok_bind, pure_bind]
    have dropped : ∀ media, ((Sys.setDest { t.setCall c f with media := media } d fun dest =>
        { dest with call := none }).book.dests.get d) =
        some { dest with
          tryCount := (dest.tryCount + 1) % 2 ^ 8, lastTry := now, call := none } := fun media =>
      (Heap.get_modify_self _ _ _).trans (congrArg (Option.map _) liveTried)
    rw [dropped]
    exact ⟨_, rfl⟩

/-- The destination waits to be dialled: it has no call, and its campaign has a gateway. -/
def Sys.waits (s : Sys) (camp : Campaign) (d : DestId) : Bool :=
  camp.gateway.isSome && (s.book.dests.get d).any fun dest => dest.call.isNone

theorem dialDest_skips (now : Time) (env : DialEnv) (live : s.book.dests.get d = some dest)
    (liveCamp : s.book.camps.get dest.cp = some camp) (skips : s.waits camp d = false) :
    dialDest s now env d = .ok (s, false) ∧ (dialDestOps s now env d).log = [.read d] := by
  simp only [dialDest, dialDestOps, Sys.loadDest, Sys.loadCamp, load, live, Fallible.get?_some,
    Fallible.ok_bind, Logging.log_tell_bind, Logging.lift_ok_bind]
  cases has : dest.call with
  | some c => exact ⟨rfl, rfl⟩
  | none =>
    have noGateway : camp.gateway = none := by
      simpa [Sys.waits, live, has] using skips
    simp only [liveCamp, Fallible.get?_some, Fallible.ok_bind, Logging.lift_ok_bind, noGateway]
    exact ⟨rfl, rfl⟩

/-- The number of free sessions after a call was placed, and dropped again if it has no target. -/
theorem dialPlaced_free {env : DialEnv} {r : Alloc} {rs : SessionId} {call : Call}
    {tel : Option String} (pool : Pool m)
    (done : Placed m env.alloc now tel false d r rs call)
    (live : s.book.dests.get d = some dest) (has : dest.call = some m.calls.next)
    (liveCamp : s.book.camps.get dest.cp = some camp)
    (run : dialPlaced s now env d m.calls.next = .ok s') (media : s.media = r.media) :
    s'.media.rtpSessions.length =
      if hasTarget s.audioPath camp env.access then m.rtpSessions.length - 1
      else m.rtpSessions.length := by
  have taken : (m.rtpSessions.erase rs).length = m.rtpSessions.length - 1 :=
    List.length_erase_of_mem done.free
  obtain ⟨camp', f, liveCamp', tags, -, outcome⟩ := dialPlaced_cases live has run
  obtain rfl := Option.some.inj (liveCamp.symm.trans liveCamp')
  rcases outcome with ⟨target, _, -, rfl⟩ | ⟨target, media', ended, rfl⟩
  · rw [if_pos target]
    show (s.media.setCall _ _).rtpSessions.length = _
    rw [rtpSessions_setCall, media, done.rtpSessions, taken]
  · rw [if_neg (by rw [target]; exact Bool.false_ne_true)]
    obtain ⟨pt, sess, rfl⟩ := done.new
    obtain ⟨audio, joinPbx, written⟩ := tags (Call.placed rs pt sess now d)
    have liveCall : (s.media.setCall m.calls.next f).calls.get m.calls.next =
        some (f (Call.placed rs pt sess now d)) := by
      rw [calls_setCall, Heap.get_modify_self, media, done.calls, Heap.get_alloc, if_pos rfl]
      rfl
    rw [callDepth, memDerefCall_leaf liveCall (by rw [written]; rfl)] at ended
    cases ended
    have holds : (f (Call.placed rs pt sess now d)).rtpSess = some rs := by rw [written]; rfl
    have off : rs ∉ m.rtpSessions.erase rs := fun mem =>
      absurd rfl (List.Nodup.mem_erase_iff pool.nodup |>.mp mem).1
    have some_ : 0 < m.rtpSessions.length := List.length_pos_of_mem done.free
    show (Media.releaseOf _ _).rtpSessions.length = _
    simp only [Media.releaseOf, holds, releaseRtpSession, rtpSessions_setSession,
      rtpSessions_setCall, media, done.rtpSessions, off, if_false, List.length_append, taken,
      List.length_singleton]
    omega

/-- A destination that waits is passed to `call_alloc`. If that fails it is destroyed, and
otherwise read again. -/
theorem dialDest_waits (now : Time) {env : DialEnv} (live : s.book.dests.get d = some dest)
    (liveCamp : s.book.camps.get dest.cp = some camp) (waits : s.waits camp d = true)
    (gatewayLive : ∀ g, camp.gateway = some g → (s.gateways.get g).isSome = true)
    (pool : Pool s.media) (returns : s.AllocReturns camp env.alloc) :
    ∃ s' destroyed, dialDest s now env d = .ok (s', destroyed) ∧
      destroyed = !(env.alloc.succeeds && decide (0 < s.media.rtpSessions.length)) ∧
      (dialDestOps s now env d).log =
        .read d :: .callAlloc d :: (if destroyed then [.destroy d] else [.read d]) ∧
      (destroyed = false → s'.media.rtpSessions.length =
        if hasTarget s.audioPath camp env.access then s.media.rtpSessions.length - 1
        else s.media.rtpSessions.length) := by
  obtain ⟨hasGateway, idle⟩ : camp.gateway.isSome = true ∧ dest.call = none := by
    simpa [Sys.waits, live] using waits
  obtain ⟨g, isGateway⟩ := Option.isSome_iff_exists.mp hasGateway
  obtain ⟨gateway, liveGateway⟩ := Option.isSome_iff_exists.mp (gatewayLive g isGateway)
  obtain ⟨r, placing, err⟩ := callAlloc_ok now dest.call dest.dest gateway.sipUri d pool
    (returns g gateway isGateway liveGateway)
  simp only [dialDest, dialDestOps, Sys.loadDest, Sys.loadCamp, load, live, idle, liveCamp,
    isGateway, liveGateway, Fallible.get?_some, Fallible.ok_bind, Logging.log_tell_bind,
    Logging.lift_ok_bind]
  rw [idle] at placing
  rw [placing]
  simp only [Fallible.ok_bind, Logging.lift_ok_bind]
  rw [← err]
  rcases callAlloc_cases placing with failed | ⟨rs, call, done⟩
  · -- the destination has no call after a failure, and its destructor is safe
    have liveFailed : ((Sys.setDest { s with media := r.media } d fun dest =>
        { dest with call := r.callp }).book.dests.get d) = some { dest with call := none } := by
      rw [failed.noCall rfl]
      exact (Heap.get_modify_self _ _ _).trans (congrArg (Option.map _) live)
    simp only [failed.err, if_true, memDerefDest_idle liveFailed rfl, Fallible.ok_bind,
      Logging.log_tell_bind, Logging.lift_ok_bind]
    exact ⟨_, _, rfl, rfl, rfl, Bool.noConfusion⟩
  · have livePlaced : ((Sys.setDest { s with media := r.media } d fun dest =>
        { dest with call := r.callp }).book.dests.get d) =
          some { dest with call := some s.media.calls.next } := by
      rw [done.callp]
      exact (Heap.get_modify_self _ _ _).trans (congrArg (Option.map _) live)
    have liveCall : r.media.calls.get s.media.calls.next = some call := by
      rw [done.calls, Heap.get_alloc, if_pos rfl]
    have noLeg : call.pbxCall = none := by
      obtain ⟨pt, sess, rfl⟩ := done.new
      rfl
    obtain ⟨s', placed⟩ := dialPlaced_ok now env livePlaced rfl liveCamp liveCall
      noLeg
    simp only [done.err, Bool.false_eq_true, if_false, done.callp, nonNull_some, Fallible.ok_bind,
      Logging.log_tell_bind, Logging.lift_ok_bind] at placed livePlaced ⊢
    rw [placed]
    have free := dialPlaced_free pool done livePlaced rfl liveCamp placed rfl
    exact ⟨_, _, rfl, rfl, rfl, fun _ => free⟩

/-! ## The whole list -/

/-- Every call that the loop places over the waiting destinations succeeds: the library calls do,
and one of the `free` sessions is left each time. A call without a target gives its session
back. -/
def placesAll (audioPath : String) (camp : Campaign) (env : DestId → DialEnv) :
    Nat → List DestId → Bool
  | _, [] => true
  | free, d :: rest =>
    ((env d).alloc.succeeds && decide (0 < free)) &&
      placesAll audioPath camp env
        (if hasTarget audioPath camp (env d).access then free - 1 else free) rest

/-- The log of one iteration that does not fail. -/
def visitOps (waits : Bool) (d : DestId) : List DialOp :=
  if waits then [.read d, .callAlloc d, .read d, .read d] else [.read d, .read d]

/-- A destination is read after it was destroyed. -/
def ReadsDestroyed (ops : List DialOp) : Prop :=
  ∃ front back d, ops = front ++ .destroy d :: back ∧ .read d ∈ back

theorem ReadsDestroyed.after {ops : List DialOp} (reads : ReadsDestroyed ops) (first : List DialOp) :
    ReadsDestroyed (first ++ ops) := by
  obtain ⟨front, back, d, rfl, mem⟩ := reads
  exact ⟨first ++ front, back, d, by rw [List.append_assoc], mem⟩

/-- Only the failure of a call changes the campaigns. -/
theorem DialResult.camps {env : DialEnv} (result : DialResult s now env d dest s' false) :
    s'.book.camps = s.book.camps := by
  cases result <;> rfl

theorem DialResult.waits {env : DialEnv} {destroyed : Bool}
    (result : DialResult s now env d dest s' destroyed) {e : DestId} (ne : e ≠ d) :
    s'.waits camp e = s.waits camp e := by
  unfold Sys.waits
  rw [result.others ne]

/-- Either every call succeeds and the log is that of one visit after the other, or a
destination is read after it was destroyed. -/
theorem dialOps_log (now : Time) {env : DestId → DialEnv} {l : List DestId} (loop : Dialling ans cp l s)
    (liveCamp : s.book.camps.get cp = some camp)
    (gatewayLive : ∀ g, camp.gateway = some g → (s.gateways.get g).isSome = true)
    (returns : ∀ d, s.AllocReturns camp (env d).alloc) :
    if placesAll s.audioPath camp env s.media.rtpSessions.length (l.filter (s.waits camp)) then
      (dialOps now env l s).log = l.flatMap fun d => visitOps (s.waits camp d) d
    else ReadsDestroyed (dialOps now env l s).log := by
  induction l generalizing s with
  | nil => exact rfl
  | cons d rest ih =>
    obtain ⟨dest, live, onCp, on⟩ := loop.on d List.mem_cons_self
    have off : d ∉ rest := (List.nodup_cons.mp loop.nodup).1
    have liveCamp' : s.book.camps.get dest.cp = some camp := by rw [onCp]; exact liveCamp
    unfold dialOps
    cases waits : s.waits camp d with
    | false =>
      obtain ⟨dialled, logged⟩ := dialDest_skips now (env d) live liveCamp' waits
      have next := ih (loop.dial live (dialDest_cases live dialled)) liveCamp gatewayLive returns
      rw [Logging.log_bind_ok ((dialDestOps_result s now (env d) d).trans dialled), logged,
        List.filter_cons_of_neg (by rw [waits]; exact Bool.false_ne_true)]
      simp only [Logging.log_tell_bind, Bool.false_eq_true, if_false]
      split at next
      next places =>
        rw [if_pos places, List.flatMap_cons, waits, next]
        rfl
      next => 
        rw [if_neg ‹_›]
        exact next.after [.read d, .read d]
    | true =>
      obtain ⟨s', destroyed, dialled, failed, logged, free⟩ :=
        dialDest_waits now live liveCamp' waits gatewayLive
          loop.inv.sound.pool (returns d)
      have result := dialDest_cases live dialled
      rw [Logging.log_bind_ok ((dialDestOps_result s now (env d) d).trans dialled), logged,
        List.filter_cons_of_pos waits, placesAll]
      cases destroyed with
      | true =>
        have fails : ((env d).alloc.succeeds && decide (0 < s.media.rtpSessions.length)) = false := by
          simpa only [Bool.not_eq_true'] using failed.symm
        rw [fails, Bool.false_and, if_neg Bool.false_ne_true]
        -- the call has failed and the destination is destroyed: the next thing read is its call
        exact ⟨[.read d, .callAlloc d], _, d, rfl, List.mem_cons_self⟩
      | false =>
        have succeeds : ((env d).alloc.succeeds && decide (0 < s.media.rtpSessions.length)) = true := by
          simpa only [Bool.not_eq_false'] using failed.symm
        have next := ih (loop.dial live result) (by rw [result.camps]; exact liveCamp)
          (by rw [result.config.gateways]; exact gatewayLive)
          (by unfold Sys.AllocReturns; rw [result.config.gateways]; exact returns)
        -- the visit changes nothing about the destinations after it
        have same : ∀ e ∈ rest, s'.waits camp e = s.waits camp e := fun e mem =>
          result.waits (by rintro rfl; exact off mem)
        rw [result.audioPath, free rfl, List.filter_congr same] at next
        rw [succeeds, Bool.true_and]
        simp only [Logging.log_tell_bind, Bool.false_eq_true, if_false]
        cases places : placesAll s.audioPath camp env
            (if hasTarget s.audioPath camp (env d).access then s.media.rtpSessions.length - 1
              else s.media.rtpSessions.length) (rest.filter (s.waits camp)) with
        | true =>
          rw [places, if_pos rfl] at next
          rw [if_pos rfl, List.flatMap_cons, waits, next,
            List.flatMap_congr fun e mem => by rw [same e mem]]
          rfl
        | false =>
          rw [places, if_neg Bool.false_ne_true] at next
          rw [if_neg Bool.false_ne_true]
          exact next.after [.read d, .callAlloc d, .read d, .read d]

/-! ## The tick -/

/-- The state in which a tick of `cp` enters its dial loop, with the campaign as it is then. -/
def Sys.dialStart (s : Sys) (cp : CampId) (now : Time) : Option (Sys × Campaign) := do
  let camp ← s.book.camps.get cp
  if camp.campaignStatus = 2 then do
    let book ← (fillProcessl s.book cp now).toOption
    let camp ← book.camps.get cp
    pure ({ s with book := book }, camp)
  else none

theorem dialStart_eq_some (enters : s.dialStart cp now = some (u, camp)) :
    ∃ camp₀ book, s.book.camps.get cp = some camp₀ ∧ camp₀.campaignStatus = 2 ∧
      fillProcessl s.book cp now = .ok book ∧ book.camps.get cp = some camp ∧
      u = { s with book := book } := by
  obtain ⟨camp₀, live₀, enters⟩ := Option.bind_eq_some_iff.mp enters
  split at enters
  next running =>
    obtain ⟨book, filled, enters⟩ := Option.bind_eq_some_iff.mp enters
    obtain ⟨camp', live, enters⟩ := Option.bind_eq_some_iff.mp enters
    cases enters
    exact ⟨camp₀, book, live₀, running, Fallible.toOption_eq_some.mp filled, live, rfl⟩
  next => cases enters

/-- The tick is the logged loop, and then the timer is armed again. -/
theorem startFakeCalling_dialStart (env : DestId → DialEnv)
    (enters : s.dialStart cp now = some (u, camp)) :
    startFakeCalling s cp now env =
      (dialOps now env camp.processl u).result >>= fun t =>
        pure (t.setCamp cp fun camp => { camp with tmr := true }) := by
  obtain ⟨camp₀, book, live₀, running, filled, live, rfl⟩ := dialStart_eq_some enters
  rw [dialOps_result, startFakeCalling, Sys.loadCamp, load, live₀, Fallible.get?_some,
    Fallible.ok_bind, if_neg (not_not.mpr running), filled, Fallible.ok_bind]
  simp only [Sys.loadCamp, load, live, Fallible.get?_some, Fallible.ok_bind]

/-- Each destination that waits is passed to `call_alloc` exactly once, and none is read after
it was destroyed. -/
structure ServesWaiting (s : Sys) (camp : Campaign) (ops : List DialOp) : Prop where
  once : ∀ d ∈ camp.processl, s.waits camp d = true → ops.count (.callAlloc d) = 1
  safe : ¬ ReadsDestroyed ops

theorem visitOps_count {waits : DestId → Bool} {l : List DestId} (nodup : l.Nodup) (mem : d ∈ l)
    (waiting : waits d = true) :
    (l.flatMap fun d => visitOps (waits d) d).count (.callAlloc d) = 1 := by
  have none_of : ∀ l : List DestId, d ∉ l →
      (l.flatMap fun d => visitOps (waits d) d).count (.callAlloc d) = 0 := by
    intro l off
    refine List.count_eq_zero.mpr fun called => ?_
    obtain ⟨e, on, called⟩ := List.mem_flatMap.mp called
    unfold visitOps at called
    have isE : d = e := by split at called <;> simp_all
    exact off (isE ▸ on)
  induction l with
  | nil => cases mem
  | cons e rest ih =>
    obtain ⟨off, nodup⟩ := List.nodup_cons.mp nodup
    rw [List.flatMap_cons, List.count_append]
    rcases List.mem_cons.mp mem with rfl | later
    · rw [none_of rest off, visitOps, waiting]
      simp
    · rw [ih nodup later]
      have ne : e ≠ d := by
        rintro rfl
        exact off later
      unfold visitOps
      split <;> simp [ne]

theorem visitOps_safe {waits : DestId → Bool} {l : List DestId} :
    ¬ ReadsDestroyed (l.flatMap fun d => visitOps (waits d) d) := by
  rintro ⟨front, back, d, eq, -⟩
  have destroyed : DialOp.destroy d ∈ l.flatMap fun d => visitOps (waits d) d := by
    rw [eq]
    exact List.mem_append_right _ List.mem_cons_self
  obtain ⟨e, -, destroyed⟩ := List.mem_flatMap.mp destroyed
  unfold visitOps at destroyed
  split at destroyed <;> simp at destroyed

theorem Dialling.serves_iff {env : DestId → DialEnv} (loop : Dialling ans cp camp.processl s)
    (liveCamp : s.book.camps.get cp = some camp)
    (gatewayLive : ∀ g, camp.gateway = some g → (s.gateways.get g).isSome = true)
    (returns : ∀ d, s.AllocReturns camp (env d).alloc) :
    ServesWaiting s camp (dialOps now env camp.processl s).log ↔
      placesAll s.audioPath camp env s.media.rtpSessions.length
        (camp.processl.filter (s.waits camp)) = true := by
  have log := dialOps_log now loop liveCamp gatewayLive returns
  split at log
  next places =>
    refine iff_of_true ?_ places
    rw [log]
    exact ⟨fun d mem waits => visitOps_count loop.nodup mem waits, visitOps_safe⟩
  next fails => exact iff_of_false (fun serves => serves.safe log) fails

/-- In every tick of every run, whatever is on the process list and however the calls turn out:
every destination there that has no call, and whose campaign has a gateway, is passed to
`call_alloc` exactly once, and none is read after it was destroyed, exactly if none of these
calls fails. The first one that fails destroys the element that the loop stands on. -/
theorem dial_loop_serves {env : DestId → DialEnv} (reach : dialer.Reachable s)
    (ticks : Ticks s cp now env e t) (enters : t.dialStart cp now = some (u, camp))
    (gatewayLive : ∀ g, camp.gateway = some g → (u.gateways.get g).isSome = true)
    (returns : ∀ d, u.AllocReturns camp (env d).alloc) :
    ServesWaiting u camp (dialOps now env camp.processl u).log ↔
      placesAll u.audioPath camp env u.media.rtpSessions.length
        (camp.processl.filter (u.waits camp)) = true := by
  obtain ⟨ans, inv⟩ := reachable_inv reach
  obtain ⟨camp₀, book, -, -, filled, live, rfl⟩ := dialStart_eq_some enters
  exact (((inv.ticks ticks).fill filled).dialling live).serves_iff live gatewayLive returns

/-- There is no memory for the call of the first contact. -/
def firstFails (d : DestId) : DialEnv := if d = 0 then { alloc := { callMem := false } } else {}

/-- Both contacts of `oneCampaign` are dialled. -/
theorem dial_loop_serves_two : ∃ h s t u camp, dialer.Execution h s ∧
    Ticks s 0 100 (fun _ => {}) (.message 100 fun _ => {}) t ∧ t.dialStart 0 100 = some (u, camp) ∧
    camp.processl = [0, 1] ∧ ServesWaiting u camp (dialOps 100 (fun _ => {}) camp.processl u).log := by
  obtain ⟨h, s, run, test⟩ := Lts.replay_exists SysInit Sys.next (s := Sys.boot 4 "/audio")
    [.pull oneCampaign] (fun _ s => s.msgq == [(1, 0)] &&
      ((s.startCamp 0 []).dialStart 0 100).any fun (u, camp) => camp.processl == [0, 1] &&
        camp.gateway.all (fun g => (u.gateways.get g).any fun gateway =>
          ({} : AllocEnv).returns gateway.sipUri) &&
        placesAll u.audioPath camp (fun _ => {}) u.media.rtpSessions.length
          (camp.processl.filter (u.waits camp)))
    ⟨4, "/audio", by decide, rfl⟩ (by decide)
  obtain ⟨queue, test⟩ := Bool.and_eq_true_iff.mp test
  obtain ⟨⟨u, camp⟩, enters, test⟩ := (Option.any_eq_true ..).mp test
  simp only [Bool.and_eq_true, beq_iff_eq] at test
  obtain ⟨⟨listed, returns⟩, places⟩ := test
  have ticks : Ticks s 0 100 (fun _ => {}) (.message 100 fun _ => {}) (s.startCamp 0 []) :=
    .message (eq_of_beq queue)
  refine ⟨h, s, _, u, camp, run, ticks, enters, listed,
    (dial_loop_serves run.reachable ticks enters ?_ fun _ => ?_).mpr places⟩
  · intro g isGateway
    rw [isGateway] at returns
    obtain ⟨gateway, live, -⟩ := (Option.any_eq_true ..).mp returns
    exact Option.isSome_iff_exists.mpr ⟨gateway, live⟩
  · intro g gateway isGateway live
    rw [isGateway] at returns
    obtain ⟨gateway', live', returns⟩ := (Option.any_eq_true ..).mp returns
    obtain rfl := Option.some.inj (live.symm.trans live')
    exact returns

/-- With no memory for the call of the first contact the second one is not dialled, and the link
of the first is read after the contact was destroyed. -/
theorem dial_loop_stops : ∃ h s t u camp, dialer.Execution h s ∧
    Ticks s 0 100 firstFails (.message 100 firstFails) t ∧ t.dialStart 0 100 = some (u, camp) ∧
    (∀ g, camp.gateway = some g → (u.gateways.get g).isSome = true) ∧
    1 ∈ camp.processl ∧ u.waits camp 1 = true ∧
    (dialOps 100 firstFails camp.processl u).log =
      [.read 0, .callAlloc 0, .destroy 0, .read 0] ∧
    ¬ ServesWaiting u camp (dialOps 100 firstFails camp.processl u).log := by
  obtain ⟨h, s, run, test⟩ := Lts.replay_exists SysInit Sys.next (s := Sys.boot 4 "/audio")
    [.pull oneCampaign] (fun _ s => s.msgq == [(1, 0)] &&
      ((s.startCamp 0 []).dialStart 0 100).any fun (u, camp) =>
        camp.gateway.all (fun g => (u.gateways.get g).isSome) &&
        camp.processl.elem 1 && u.waits camp 1 &&
        (dialOps 100 firstFails camp.processl u).log ==
          [.read 0, .callAlloc 0, .destroy 0, .read 0])
    ⟨4, "/audio", by decide, rfl⟩ (by decide)
  obtain ⟨queue, test⟩ := Bool.and_eq_true_iff.mp test
  obtain ⟨⟨u, camp⟩, enters, test⟩ := (Option.any_eq_true ..).mp test
  simp only [Bool.and_eq_true, beq_iff_eq, List.elem_eq_mem, decide_eq_true_eq] at test
  obtain ⟨⟨⟨gatewayLive, listed⟩, waits⟩, log⟩ := test
  refine ⟨h, s, _, u, camp, run, .message (eq_of_beq queue), enters, ?_, listed, waits, log,
    fun serves => ?_⟩
  · intro g isGateway
    rw [isGateway] at gatewayLive
    exact gatewayLive
  · have once := serves.once 1 listed waits
    rw [log] at once
    revert once
    decide

end Autodialer
