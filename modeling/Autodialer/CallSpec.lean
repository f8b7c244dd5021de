import Autodialer.Call

/-!
# What `call.c` does to calls and sessions

One lemma for each function of the pool and for each outcome of `call_alloc`;
the invariants are proved from these, without looking at the functions again.

* `callAlloc_placed`: the new call is the only one added, with a session of the pool.
* `callAlloc_notPlaced`: no call is added, and a session of the pool may be lost.
-/

namespace Autodialer

variable {m m' : Media} {c : CallId} {call : Call} {rs : SessionId}

/-! ## Sessions -/

/-- A session that nobody uses and that no packet of is listened to. -/
structure Clean (r : RtpSession) : Prop where
  inUse : r.inUse = false
  televRecv : r.televRecv = false
  telev : r.telev = none
  remote : r.remote = none
  arg : r.arg = none

/-- The free list holds every session at most once, and only clean ones. -/
structure Pool (m : Media) : Prop where
  nodup : m.rtpSessions.Nodup
  clean : ∀ rs ∈ m.rtpSessions, Clean (m.rtp rs)

@[simp] theorem calls_setCall (f : Call → Call) : (m.setCall c f).calls = m.calls.modify c f := rfl
@[simp] theorem rtp_setCall (f : Call → Call) : (m.setCall c f).rtp = m.rtp := rfl
@[simp] theorem rtpSessions_setCall (f : Call → Call) :
    (m.setCall c f).rtpSessions = m.rtpSessions := rfl
@[simp] theorem wire_setCall (f : Call → Call) : (m.setCall c f).wire = m.wire := rfl
@[simp] theorem calls_setSession (f : RtpSession → RtpSession) :
    (m.setSession rs f).calls = m.calls := rfl
@[simp] theorem rtpSessions_setSession (f : RtpSession → RtpSession) :
    (m.setSession rs f).rtpSessions = m.rtpSessions := rfl
@[simp] theorem wire_setSession (f : RtpSession → RtpSession) : (m.setSession rs f).wire = m.wire :=
  rfl

theorem rtp_setSession (f : RtpSession → RtpSession) (rs' : SessionId) :
    (m.setSession rs f).rtp rs' = if rs' = rs then f (m.rtp rs) else m.rtp rs' := by
  by_cases same : rs' = rs
  · simp [Media.setSession, same]
  · simp [Media.setSession, same]

@[simp] theorem calls_releaseRtpSession : (releaseRtpSession m rs).calls = m.calls := by
  unfold releaseRtpSession
  dsimp only
  split <;> rfl

@[simp] theorem wire_releaseRtpSession : (releaseRtpSession m rs).wire = m.wire := by
  unfold releaseRtpSession
  dsimp only
  split <;> rfl

theorem rtp_releaseRtpSession (rs' : SessionId) :
    (releaseRtpSession m rs).rtp rs' =
      if rs' = rs then
        { m.rtp rs with
          inUse := false, connected := false, arg := none, televRecv := false, telev := none,
          remote := none }
      else m.rtp rs' := by
  have field : (releaseRtpSession m rs).rtp = (m.setSession rs fun r =>
      { r with
        inUse := false, connected := false, arg := none, televRecv := false, telev := none,
        remote := none }).rtp := by
    unfold releaseRtpSession
    dsimp only
    split <;> rfl
  rw [field, rtp_setSession]

theorem mem_releaseRtpSession {rs' : SessionId} :
    rs' ∈ (releaseRtpSession m rs).rtpSessions ↔ rs' ∈ m.rtpSessions ∨ rs' = rs := by
  unfold releaseRtpSession
  dsimp only
  split
  next on =>
    simp only [rtpSessions_setSession] at on ⊢
    constructor
    · exact Or.inl
    · rintro (mem | rfl)
      · exact mem
      · exact on
  next => simp

theorem nodup_releaseRtpSession (nodup : m.rtpSessions.Nodup) :
    (releaseRtpSession m rs).rtpSessions.Nodup := by
  unfold releaseRtpSession
  dsimp only
  split
  · exact nodup
  next off =>
    simp only [rtpSessions_setSession] at off ⊢
    exact List.nodup_append.mpr ⟨nodup, by simp, fun a mem b isRs eq => off <| by
      obtain rfl : b = rs := by simpa using isRs
      exact eq ▸ mem⟩

theorem Pool.release (pool : Pool m) : Pool (releaseRtpSession m rs) where
  nodup := nodup_releaseRtpSession pool.nodup
  clean rs' mem := by
    rw [rtp_releaseRtpSession]
    split
    · exact ⟨rfl, rfl, rfl, rfl, rfl⟩
    next ne =>
      rcases mem_releaseRtpSession.mp mem with old | rfl
      · exact pool.clean rs' old
      · exact absurd rfl ne

theorem findRtpSession_eq_some (found : findRtpSession m = some (m', rs)) :
    rs ∈ m.rtpSessions ∧ (m.rtp rs).inUse = false ∧
      m' = { m.setSession rs (fun r => { r with inUse := true }) with
        rtpSessions := m.rtpSessions.erase rs } := by
  obtain ⟨rs', first, eq⟩ := Option.map_eq_some_iff.mp found
  obtain ⟨rfl, rfl⟩ : _ = m' ∧ rs' = rs := by simpa using eq
  exact ⟨List.mem_of_find?_eq_some first, by simpa using List.find?_some first, rfl⟩

/-! ## The end of a call -/

/-- The session of a call goes back to the pool. -/
def Media.releaseOf (m : Media) (call : Call) : Media :=
  match call.rtpSess with
  | some rs => releaseRtpSession m rs
  | none => m

@[simp] theorem calls_releaseOf : (m.releaseOf call).calls = m.calls := by
  unfold Media.releaseOf
  split <;> simp

@[simp] theorem wire_releaseOf : (m.releaseOf call).wire = m.wire := by
  unfold Media.releaseOf
  split <;> simp

theorem memDerefCall_succ {depth : Nat} (live : m.calls.get c = some call) :
    memDerefCall (depth + 1) m c =
      match call.pbxCall with
      | some leg => do
        let m ← memDerefCall depth (m.releaseOf call) leg
        pure { m with calls := m.calls.free c }
      | none => pure { m.releaseOf call with calls := m.calls.free c } := by
  rw [memDerefCall, load, live, Fallible.get?_some, Fallible.ok_bind]
  cases call.pbxCall <;> cases hasRs : call.rtpSess <;> simp [Media.releaseOf, hasRs]

/-- The end of a call without a PBX leg. -/
theorem memDerefCall_leaf {depth : Nat} (live : m.calls.get c = some call)
    (noLeg : call.pbxCall = none) :
    memDerefCall (depth + 1) m c = .ok { m.releaseOf call with calls := m.calls.free c } := by
  rw [memDerefCall_succ live, noLeg]
  rfl

/-- The end of a call takes its PBX leg with it. -/
theorem memDerefCall_leg {leg : CallId} {legCall : Call} (live : m.calls.get c = some call)
    (hasLeg : call.pbxCall = some leg) (liveLeg : m.calls.get leg = some legCall)
    (noLeg : legCall.pbxCall = none) :
    memDerefCall callDepth m c =
      .ok { (m.releaseOf call).releaseOf legCall with calls := (m.calls.free leg).free c } := by
  have inner : memDerefCall 1 (m.releaseOf call) leg = _ :=
    memDerefCall_leaf (by rw [calls_releaseOf]; exact liveLeg) noLeg
  rw [callDepth, memDerefCall_succ live, hasLeg]
  simp only [inner, calls_releaseOf]
  rfl

theorem memDerefCall_live {depth : Nat} (run : memDerefCall (depth + 1) m c = .ok m') :
    ∃ call, m.calls.get c = some call := by
  rw [memDerefCall, Fallible.bind_eq_ok] at run
  obtain ⟨call, live, -⟩ := run
  exact ⟨call, load_eq_ok.mp live⟩

/-- The end of a call frees it; the calls that are left are as they were. -/
theorem memDerefCall_calls {depth : Nat} (run : memDerefCall depth m c = .ok m') :
    m'.calls.get c = none ∧ m'.calls.next = m.calls.next ∧
      ∀ p call, m'.calls.get p = some call → m.calls.get p = some call := by
  induction depth generalizing m c m' with
  | zero => cases run
  | succ depth ih =>
    obtain ⟨call, live⟩ := memDerefCall_live run
    rw [memDerefCall_succ live] at run
    have freed : ∀ {calls : Heap Call} {p : CallId} {call : Call},
        (calls.free c).get p = some call → calls.get p = some call := by
      intro calls p call live
      rw [Heap.get_free] at live
      split at live
      · cases live
      · exact live
    split at run
    · obtain ⟨m₁, inner, run⟩ := Fallible.bind_eq_ok.mp run
      cases run
      obtain ⟨-, next, left⟩ := ih inner
      rw [calls_releaseOf] at next left
      exact ⟨Heap.get_free_self _ _, next, fun p call live => left p call (freed live)⟩
    · cases run
      exact ⟨Heap.get_free_self _ _, rfl, fun p call live => freed live⟩

/-- The end of a call sends nothing. -/
theorem memDerefCall_wire {depth : Nat} (run : memDerefCall depth m c = .ok m') :
    m'.wire = m.wire := by
  induction depth generalizing m c m' with
  | zero => cases run
  | succ depth ih =>
    obtain ⟨call, live⟩ := memDerefCall_live run
    rw [memDerefCall_succ live] at run
    split at run
    · obtain ⟨m₁, inner, run⟩ := Fallible.bind_eq_ok.mp run
      cases run
      exact (ih inner).trans wire_releaseOf
    · cases run
      exact wire_releaseOf

/-! ## `sdp_sess_alloc` and `call_alloc` -/

/-- The sessions of `m'` are those of `m`, but for some of the pool that were
taken, and perhaps lost or given back. -/
structure Refused (m m' : Media) : Prop where
  pool : Pool m'
  subset : ∀ rs ∈ m'.rtpSessions, rs ∈ m.rtpSessions
  busy : ∀ rs, rs ∉ m.rtpSessions → m'.rtp rs = m.rtp rs
  idle : ∀ rs ∈ m.rtpSessions,
    (m'.rtp rs).arg = none ∧ (m'.rtp rs).televRecv = false ∧ (m'.rtp rs).remote = none

theorem Pool.refused (pool : Pool m) : Refused m m where
  pool := pool
  subset _ mem := mem
  busy _ _ := rfl
  idle rs mem := ⟨(pool.clean rs mem).arg, (pool.clean rs mem).televRecv, (pool.clean rs mem).remote⟩

/-- The session `rs` is taken from the pool and `f` is done to it. -/
def Media.take (m : Media) (rs : SessionId) (f : RtpSession → RtpSession) : Media :=
  { m.setSession rs f with rtpSessions := m.rtpSessions.erase rs }

theorem Pool.take (pool : Pool m) (f : RtpSession → RtpSession) : Pool (m.take rs f) where
  nodup := pool.nodup.erase rs
  clean rs' mem := by
    obtain ⟨ne, old⟩ := pool.nodup.mem_erase_iff.mp mem
    have same : (m.take rs f).rtp rs' = m.rtp rs' := by
      change (m.setSession rs f).rtp rs' = _
      rw [rtp_setSession, if_neg ne]
    rw [same]
    exact pool.clean rs' old

/-- `call_alloc` gives up on a call that has not been given a session. -/
theorem refused_take (pool : Pool m) (mem : rs ∈ m.rtpSessions) {f : RtpSession → RtpSession}
    (same : (f (m.rtp rs)).arg = (m.rtp rs).arg ∧ (f (m.rtp rs)).televRecv = (m.rtp rs).televRecv ∧
      (f (m.rtp rs)).remote = (m.rtp rs).remote) : Refused m (m.take rs f) where
  pool := pool.take f
  subset _ mem := List.mem_of_mem_erase mem
  busy rs' free := by
    change (m.setSession rs f).rtp rs' = _
    rw [rtp_setSession, if_neg (by rintro rfl; exact free mem)]
  idle rs' mem' := by
    change ((m.setSession rs f).rtp rs').arg = none ∧ _
    have clean := pool.clean rs' mem'
    by_cases here : rs' = rs
    · subst here
      simp [Media.take, rtp_setSession, same, clean.arg, clean.televRecv, clean.remote]
    · simp [Media.take, rtp_setSession, here, clean.arg, clean.televRecv, clean.remote]

/-- The session goes back to the pool. -/
theorem refused_release {m₁ : Media} (pool : Pool m) (mem : rs ∈ m.rtpSessions)
    (rtp : ∀ rs', rs' ≠ rs → m₁.rtp rs' = m.rtp rs')
    (free : m₁.rtpSessions = m.rtpSessions.erase rs) :
    Refused m (releaseRtpSession m₁ rs) := by
  have pool₁ : Pool m₁ := by
    refine ⟨by rw [free]; exact pool.nodup.erase rs, fun rs' mem' => ?_⟩
    rw [free, pool.nodup.mem_erase_iff] at mem'
    rw [rtp rs' mem'.1]
    exact pool.clean rs' mem'.2
  have back : Pool (releaseRtpSession m₁ rs) := pool₁.release
  refine ⟨⟨back.nodup, back.clean⟩, ?_, ?_, ?_⟩
  · intro rs' mem'
    rcases mem_releaseRtpSession.mp mem' with old | rfl
    · exact List.mem_of_mem_erase (free ▸ old)
    · exact mem
  · intro rs' busy
    have ne : rs' ≠ rs := by rintro rfl; exact busy mem
    rw [rtp_releaseRtpSession, if_neg ne, rtp rs' ne]
  · intro rs' mem'
    have clean := back.clean
    by_cases here : rs' = rs
    · simp [rtp_releaseRtpSession, here]
    · have old := pool.clean rs' mem'
      simp [rtp_releaseRtpSession, here, rtp, old.arg, old.televRecv, old.remote]

/-- Calls and what is sent make no difference. -/
theorem Refused.congr {m₁ m₂ : Media} (refused : Refused m m₁) (rtp : m₂.rtp = m₁.rtp)
    (free : m₂.rtpSessions = m₁.rtpSessions) : Refused m m₂ where
  pool := ⟨by rw [free]; exact refused.pool.nodup, by rw [free, rtp]; exact refused.pool.clean⟩
  subset := by rw [free]; exact refused.subset
  busy := by rw [rtp]; exact refused.busy
  idle := by rw [rtp]; exact refused.idle

/-- The cases of `sdp_sess_alloc`: no session was free, one was taken and lost, or
one was taken. -/
theorem sdpSessAlloc_cases {env : AllocEnv} {r : Media × Option SessionId}
    (run : sdpSessAlloc m env = .ok r) :
    r = (m, none) ∨ ∃ rs, rs ∈ m.rtpSessions ∧
      (r = (m.take rs fun r => { r with inUse := true }, none) ∨
        r = (m.take rs fun r => { r with inUse := true, connected := true }, some rs)) := by
  unfold sdpSessAlloc at run
  split at run
  · cases run
    exact .inl rfl
  next m₁ rs found =>
    obtain ⟨mem, -, rfl⟩ := findRtpSession_eq_some found
    refine .inr ⟨rs, mem, ?_⟩
    split at run
    · split at run
      · cases run
        refine .inr ?_
        simp [Media.take, Media.setSession]
      · cases run
        exact .inl rfl
    · split at run
      · cases run
      · cases run
        exact .inl rfl

/-- The call that `call_alloc` leaves in its `*callp`. -/
def Call.placed (rs : SessionId) (pt : Nat) (sess : Sess) (now : Time) (arg : DestId) : Call where
  sess := sess
  rs := true
  rtpSess := some rs
  sdp := some (sdpFormat pt)
  connectTm := now
  pt := pt
  arg := some arg

section CallAlloc

variable {env : AllocEnv} {now : Time} {callp : Option CallId} {tel : Option String}
  {gateway : SipUri} {isPbx : Bool} {mainPt : Nat} {arg : DestId} {r : Alloc}

/-- The INVITE of `call_alloc`, if `sipsess_connect` accepts it. -/
def invites (env : AllocEnv) (c : CallId) (arg : DestId) (isPbx : Bool) (tel : Option String) :
    List Wire :=
  if env.sipsessConnect then [.invite c arg isPbx tel] else []

/-- `call_alloc` has placed a call. -/
structure Placed (m : Media) (env : AllocEnv) (now : Time) (tel : Option String) (isPbx : Bool)
    (arg : DestId) (r : Alloc) (rs : SessionId) (call : Call) : Prop where
  err : r.err = false
  callp : r.callp = some m.calls.next
  free : rs ∈ m.rtpSessions
  rtpAlloc : env.rtpAlloc = true
  new : ∃ pt sess, call = Call.placed rs pt sess now arg
  calls : r.media.calls = m.calls.alloc call
  rtp : r.media.rtp = Function.update m.rtp rs
    { m.rtp rs with inUse := true, connected := true, arg := some m.calls.next }
  rtpSessions : r.media.rtpSessions = m.rtpSessions.erase rs
  wire : r.media.wire = m.wire ++ invites env m.calls.next arg isPbx tel

/-- `call_alloc` has failed. -/
structure NotPlaced (m : Media) (env : AllocEnv) (tel : Option String) (isPbx : Bool) (arg : DestId)
    (callp : Option CallId) (r : Alloc) : Prop where
  err : r.err = true
  callp : r.callp = none ∨ r.callp = callp
  calls : ∀ p, r.media.calls.get p = m.calls.get p
  next : m.calls.next ≤ r.media.calls.next
  refused : Pool m → Refused m r.media
  wire : r.media.wire = m.wire ∨
    r.media.wire = m.wire ++ invites env m.calls.next arg isPbx tel

/-- The error exit takes back the call that was just allocated. -/
theorem callAllocFail_alloc {m₁ : Media} (run : callAllocFail m₁ m.calls.next = .ok r) (call : Call)
    (calls : m₁.calls = m.calls.alloc call) (noLeg : call.pbxCall = none)
    (refused : Pool m → Refused m (m₁.releaseOf call))
    (wire : m₁.wire = m.wire ∨ m₁.wire = m.wire ++ invites env m.calls.next arg isPbx tel) :
    NotPlaced m env tel isPbx arg callp r := by
  have live : m₁.calls.get m.calls.next = some call := by rw [calls, Heap.get_alloc_next]
  rw [callAllocFail, callDepth, memDerefCall_leaf live noLeg, Fallible.ok_bind] at run
  cases run
  refine ⟨rfl, .inl rfl, fun p => ?_, ?_, fun pool => (refused pool).congr rfl rfl, ?_⟩
  · change (m₁.calls.free m.calls.next).get p = m.calls.get p
    by_cases here : p = m.calls.next
    · simp [here]
    · simp [calls, Heap.get_free, Heap.get_alloc, here]
  · change m.calls.next ≤ m₁.calls.next
    rw [calls]
    exact Nat.le_succ _
  · change (m₁.releaseOf call).wire = _ ∨ (m₁.releaseOf call).wire = _
    rw [wire_releaseOf]
    exact wire

/-- The two outcomes of `call_alloc`. -/
theorem callAlloc_cases
    (run : callAlloc m env now callp tel gateway isPbx mainPt arg = .ok r) :
    NotPlaced m env tel isPbx arg callp r ∨
      ∃ rs call, Placed m env now tel isPbx arg r rs call := by
  unfold callAlloc at run
  split at run
  · rw [Fallible.bind_eq_ok] at run
    obtain ⟨⟨m₁, found⟩, sdp, rest⟩ := run
    rcases sdpSessAlloc_cases sdp with eq | ⟨rs, mem, eq | eq⟩
    · cases eq
      dsimp only at rest
      exact .inl (callAllocFail_alloc rest {} rfl rfl 
        (fun pool => pool.refused.congr rfl rfl) (.inl rfl))
    · cases eq
      dsimp only at rest
      exact .inl (callAllocFail_alloc rest {} rfl rfl (fun pool =>
        (refused_take pool mem (f := fun r => { r with inUse := true }) ⟨rfl, rfl, rfl⟩).congr
          rfl rfl) (.inl rfl))
    · cases eq
      dsimp only at rest
      split at rest
      · split at rest
        · -- the INVITE is out, and the session belongs to the call
          generalize wired : Media.setSession _ rs _ = m₂ at rest
          have state : m₂ =
              { calls := m.calls.alloc
                  { rtpSess := some rs
                    sdp := some (sdpFormat (if isPbx then mainPt else gateway.codec.getD 0 % 2 ^ 8))
                    sess := if env.sipsessConnect then .live else .null }
                rtp := Function.update m.rtp rs
                  { m.rtp rs with inUse := true, connected := true, arg := some m.calls.next }
                rtpSessions := m.rtpSessions.erase rs
                wire := m.wire ++ invites env m.calls.next arg isPbx tel } := by
            rw [← wired]
            cases connect : env.sipsessConnect <;>
              simp [connect, Media.setSession, Media.setCall, Media.send, Media.take, invites,
                Heap.modify_alloc_next]
          subst state
          split at rest
          next alloc =>
            cases rest
            exact .inr ⟨rs, _, rfl, rfl, mem, alloc, ⟨_, _, rfl⟩,
              Heap.modify_alloc_next _ _ _, rfl, rfl, rfl⟩
          next =>
            exact .inl (callAllocFail_alloc rest _ rfl rfl (fun pool =>
              refused_release pool mem (fun _ ne => by simp [ne]) rfl) (.inr rfl))
        · cases rest
      · exact .inl (callAllocFail_alloc rest { rtpSess := some rs, sdp := _ }
          (Heap.modify_alloc_next _ _ _) rfl (fun pool => refused_release pool mem
            (fun _ ne => by simp [Media.take, Media.setSession, ne]) rfl) (.inl rfl))
  · cases run
    exact .inl ⟨rfl, .inr rfl, fun _ => rfl, Nat.le_refl _, fun pool => pool.refused, .inl rfl⟩

/-- Where there was no call, there is none after a failure. -/
theorem NotPlaced.noCall (failed : NotPlaced m env tel isPbx arg callp r) (noCall : callp = none) :
    r.callp = none := by
  rcases failed.callp with eq | eq
  · exact eq
  · exact eq.trans noCall

/-- The sessions after `call_alloc` has placed a call. -/
theorem Placed.rtp_get (done : Placed m env now tel isPbx arg r rs call) (rs' : SessionId) :
    r.media.rtp rs' =
      if rs' = rs then
        { m.rtp rs with inUse := true, connected := true, arg := some m.calls.next }
      else m.rtp rs' := by
  rw [done.rtp]
  by_cases here : rs' = rs
  · simp [here]
  · simp [here]

theorem Placed.pool (done : Placed m env now tel isPbx arg r rs call) (pool : Pool m) :
    Pool r.media where
  nodup := by rw [done.rtpSessions]; exact pool.nodup.erase rs
  clean rs' free := by
    rw [done.rtpSessions, pool.nodup.mem_erase_iff] at free
    rw [done.rtp_get, if_neg free.1]
    exact pool.clean rs' free.2

/-- `call_alloc` has returned 0 and a call. -/
theorem callAlloc_placed {c : CallId}
    (run : callAlloc m env now callp tel gateway isPbx mainPt arg = .ok r) (ok : r.err = false)
    (isCall : r.callp = some c) :
    c = m.calls.next ∧ ∃ rs call, Placed m env now tel isPbx arg r rs call := by
  rcases callAlloc_cases run with failed | ⟨rs, call, done⟩
  · rw [failed.err] at ok
    cases ok
  · exact ⟨Option.some.inj (isCall.symm.trans done.callp), rs, call, done⟩

theorem callAlloc_notPlaced
    (run : callAlloc m env now callp tel gateway isPbx mainPt arg = .ok r) (err : r.err = true) :
    NotPlaced m env tel isPbx arg callp r := by
  rcases callAlloc_cases run with failed | ⟨rs, call, done⟩
  · exact failed
  · rw [done.err] at err
    cases err

end CallAlloc

end Autodialer
