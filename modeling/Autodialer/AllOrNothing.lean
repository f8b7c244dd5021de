import Autodialer.CallSpec

/-!
# What `call_alloc` leaves behind

`call_alloc` should either hand out a finished call or leave everything as it
was. It keeps to that for some results of the functions it calls only.

* `callAlloc_allOrNothing_iff`: for which results it does.
* `callAlloc_withoutSession`: it returns 0 for a call without a SIP session.
-/

namespace Autodialer

variable {m m₁ : Media} {env : AllocEnv} {rs : SessionId} {call : Call}

/-! ## The property -/

/-- The call in `*callp` has a live SIP session, an RTP session that names it, and an
RTP encoder. -/
structure Finished (r : Alloc) (c : CallId) (call : Call) (rs : SessionId) : Prop where
  callp : r.callp = some c
  live : r.media.calls.get c = some call
  sess : call.sess = .live
  rtpSess : call.rtpSess = some rs
  owned : (r.media.rtp rs).arg = some c
  encoder : call.rs = true

/-- There is no call, none was added, and the free list has the sessions that it had
in `m`. -/
structure TakenBack (m : Media) (r : Alloc) : Prop where
  callp : r.callp = none
  calls : ∀ p, r.media.calls.get p = m.calls.get p
  sessions : r.media.rtpSessions.Perm m.rtpSessions

/-- A run of `call_alloc` from `m` ends, and is all or nothing. -/
def AllOrNothing (m : Media) (run : Exec Alloc) : Prop :=
  ∃ r, run = .ok r ∧ (r.err = false → ∃ c call rs, Finished r c call rs) ∧
    (r.err = true → TakenBack m r)

/-- The SDP session of the call can be set up. -/
def AllocEnv.sdpAdds (env : AllocEnv) : Bool :=
  env.sdpSessionAlloc && (env.sdpMediaAdd && env.sdpFormatAdd && env.sdpFormatAddTelev)

/-- Once a session has been found, the SDP session is set up, the gateway has a user and the
strings are made, and `sipsess_connect` does not fail alone. Without memory for a call, `*callp` was
null before. -/
def Smooth (m : Media) (env : AllocEnv) (gateway : SipUri) (callp : Option CallId) : Prop :=
  if env.callMem then
    (findRtpSession m).isSome → env.sdpAdds ∧
      (env.sdpEncode → env.named gateway ∧ (env.rtpAlloc → env.sipsessConnect))
  else callp = none

/-! ## The steps -/

/-- With an SDP session that is not set up the RTP session is lost. -/
theorem sdpSessAlloc_lost (found : findRtpSession m = some (m₁, rs))
    (refused : env.sdpAdds = false) :
    sdpSessAlloc m env = .error .wild ∨ sdpSessAlloc m env = .ok (m₁, none) := by
  unfold sdpSessAlloc
  rw [found]
  dsimp only
  unfold AllocEnv.sdpAdds at refused
  cases alloc : env.sdpSessionAlloc with
  | true =>
    rw [alloc, Bool.true_and] at refused
    rw [if_pos rfl, refused]
    exact .inr rfl
  | false =>
    rw [if_neg Bool.false_ne_true]
    cases env.wildSdp with
    | true => exact .inl rfl
    | false => exact .inr rfl

theorem sdpSessAlloc_added (found : findRtpSession m = some (m₁, rs))
    (added : env.sdpAdds = true) :
    sdpSessAlloc m env = .ok (m₁.setSession rs fun r => { r with connected := true }, some rs) := by
  obtain ⟨alloc, adds⟩ := (Bool.and_eq_true ..).mp added
  unfold sdpSessAlloc
  rw [found]
  dsimp only
  rw [if_pos alloc, if_pos adds]

/-- A session is handed out only with an SDP session that is set up. -/
theorem sdpSessAlloc_adds (run : sdpSessAlloc m env = .ok (m₁, some rs)) : env.sdpAdds = true := by
  cases found : findRtpSession m with
  | none => simp [sdpSessAlloc, found] at run
  | some r =>
    refine Bool.of_not_eq_false fun refused => ?_
    rcases sdpSessAlloc_lost found refused with wild | lost
    · cases wild.symm.trans run
    · cases lost.symm.trans run

/-- The error exit frees the call that was allocated and gives back its session. -/
theorem callAllocFail_eq (calls : m₁.calls = m.calls.alloc call) (noLeg : call.pbxCall = none) :
    callAllocFail m₁ m.calls.next =
      .ok ⟨{ m₁.releaseOf call with calls := m₁.calls.free m.calls.next }, true, none⟩ := by
  have live : m₁.calls.get m.calls.next = some call := by rw [calls, Heap.get_alloc_next]
  rw [callAllocFail, callDepth, memDerefCall_leaf live noLeg]
  rfl

/-- After the error exit the calls are those of `m`. -/
theorem takenBack_fail (calls : m₁.calls = m.calls.alloc call) (noLeg : call.pbxCall = none)
    (sessions : (m₁.releaseOf call).rtpSessions.Perm m.rtpSessions) :
    AllOrNothing m (callAllocFail m₁ m.calls.next) := by
  refine ⟨_, callAllocFail_eq calls noLeg, by simp, fun _ => ⟨rfl, fun p => ?_, sessions⟩⟩
  show (m₁.calls.free m.calls.next).get p = m.calls.get p
  rcases eq_or_ne p m.calls.next with rfl | ne
  · simp
  · simp [calls, Heap.get_free, Heap.get_alloc, ne]

/-- A session that was taken from the free list is given back. -/
theorem perm_release (nodup : m.rtpSessions.Nodup) (mem : rs ∈ m.rtpSessions)
    (taken : m₁.rtpSessions = m.rtpSessions.erase rs) :
    (releaseRtpSession m₁ rs).rtpSessions.Perm m.rtpSessions := by
  have off : rs ∉ m₁.rtpSessions := by
    rw [taken, nodup.mem_erase_iff]
    exact fun on => on.1 rfl
  have back : (releaseRtpSession m₁ rs).rtpSessions = m₁.rtpSessions ++ [rs] := by
    unfold releaseRtpSession
    dsimp only
    rw [rtpSessions_setSession, if_neg off]
  rw [back, taken]
  exact (List.perm_append_singleton rs _).trans (List.perm_cons_erase mem).symm

/-! ## The results -/

section Results

variable {now : Time} {callp : Option CallId} {tel : Option String} {gateway : SipUri}
  {isPbx : Bool} {mainPt : Nat} {arg : DestId}

/-- A session whose SDP session is not set up is on no list any more. -/
theorem callAlloc_lost (mem : env.callMem = true)
    (found : findRtpSession { m with calls := m.calls.alloc {} } = some (m₁, rs))
    (refused : env.sdpAdds = false) :
    ¬ AllOrNothing m (callAlloc m env now callp tel gateway isPbx mainPt arg) := by
  obtain ⟨free, -, state⟩ := findRtpSession_eq_some found
  have calls : m₁.calls = m.calls.alloc {} := by rw [state]; rfl
  have sessions : m₁.rtpSessions = m.rtpSessions.erase rs := by rw [state]
  rintro ⟨r, run, -, undone⟩
  unfold callAlloc at run
  rw [if_pos mem] at run
  dsimp only at run
  rcases sdpSessAlloc_lost found refused with eq | eq
  · rw [eq] at run
    cases run
  · rw [eq] at run
    have failed : callAllocFail m₁ m.calls.next = .ok r := run
    rw [callAllocFail_eq calls rfl] at failed
    cases failed
    have fewer : (m.rtpSessions.erase rs).Perm m.rtpSessions := sessions ▸ (undone rfl).sessions
    have lengths := fewer.length_eq
    rw [List.length_erase_of_mem free] at lengths
    have held : 0 < m.rtpSessions.length := List.length_pos_of_mem free
    have here : m.rtpSessions.length - 1 = m.rtpSessions.length := lengths
    omega

/-- With an SDP session `call_alloc` goes wrong only where a string is not made, or where
`sipsess_connect` fails and `rtp_alloc` does not. -/
theorem callAlloc_added (nodup : m.rtpSessions.Nodup) (mem : env.callMem = true)
    (found : findRtpSession { m with calls := m.calls.alloc {} } = some (m₁, rs))
    (added : env.sdpAdds = true) :
    AllOrNothing m (callAlloc m env now callp tel gateway isPbx mainPt arg) ↔
      (env.sdpEncode → env.named gateway ∧ (env.rtpAlloc → env.sipsessConnect)) := by
  obtain ⟨free, -, state⟩ := findRtpSession_eq_some found
  have calls : m₁.calls = m.calls.alloc {} := by rw [state]; rfl
  have sessions : m₁.rtpSessions = m.rtpSessions.erase rs := by rw [state]
  unfold callAlloc
  rw [if_pos mem]
  dsimp only
  rw [sdpSessAlloc_added found added, Fallible.ok_bind]
  dsimp only
  generalize (if isPbx then mainPt else gateway.codec.getD 0 % 2 ^ 8) = pt
  -- the call holds its session
  generalize held : (m₁.setSession rs _).setCall m.calls.next _ = m₂
  have calls₂ : m₂.calls = m.calls.alloc { rtpSess := some rs, sdp := some (sdpFormat pt) } := by
    rw [← held, calls_setCall, calls_setSession, calls, Heap.modify_alloc_next]
  have sessions₂ : m₂.rtpSessions = m.rtpSessions.erase rs := by rw [← held]; exact sessions
  cases encode : env.sdpEncode with
  | false =>
    rw [if_neg Bool.false_ne_true]
    exact iff_of_true (takenBack_fail calls₂ rfl (perm_release nodup free sessions₂)) (by simp)
  | true =>
    rw [if_pos rfl]
    cases named : env.named gateway with
    | false =>
      rw [if_neg Bool.false_ne_true]
      refine iff_of_false ?_ fun smooth => Bool.false_ne_true (smooth rfl).1
      rintro ⟨r, run, -⟩
      cases run
    | true =>
      rw [if_pos rfl]
      -- the session names the call, and the INVITE is out if `sipsess_connect` accepts it
      generalize wired : Media.setSession _ rs (fun r => { r with arg := some m.calls.next }) = m₃
      have calls₃ : m₃.calls = m.calls.alloc
          { rtpSess := some rs
            sdp := some (sdpFormat pt)
            sess := if env.sipsessConnect then .live else .null } := by
        rw [← wired]
        cases env.sipsessConnect <;> simp [Media.send, calls₂, Heap.modify_alloc_next]
      have sessions₃ : m₃.rtpSessions = m.rtpSessions.erase rs := by
        rw [← wired]
        cases env.sipsessConnect <;> simp [Media.send, sessions₂]
      have owned : (m₃.rtp rs).arg = some m.calls.next := by
        rw [← wired, rtp_setSession, if_pos rfl]
      cases alloc : env.rtpAlloc with
      | false =>
        rw [if_neg Bool.false_ne_true]
        exact iff_of_true (takenBack_fail calls₃ rfl (perm_release nodup free sessions₃)) (by simp)
      | true =>
        rw [if_pos rfl]
        constructor
        · rintro ⟨r, run, done, -⟩ -
          refine ⟨rfl, fun _ => ?_⟩
          cases run
          obtain ⟨c, call, rs', finished⟩ := done rfl
          have callp := finished.callp
          have live := finished.live
          cases callp
          simp only [calls_setCall, calls₃, Heap.modify_alloc_next, Heap.get_alloc_next] at live
          cases live
          have connected := finished.sess
          cases connect : env.sipsessConnect with
          | true => rfl
          | false => simp [connect] at connected
        · intro connects
          rw [(connects rfl).2 rfl, if_pos rfl] at calls₃
          refine ⟨_, rfl, fun _ => ⟨m.calls.next, Call.placed rs pt .live now arg, rs, rfl, ?_, rfl,
            rfl, owned, rfl⟩, by simp⟩
          show (m₃.setCall m.calls.next _).calls.get m.calls.next = _
          rw [calls_setCall, calls₃, Heap.modify_alloc_next, Heap.get_alloc_next]
          rfl

/-- `call_alloc` is all or nothing exactly when the functions it calls are `Smooth`. -/
theorem callAlloc_allOrNothing_iff (nodup : m.rtpSessions.Nodup) :
    AllOrNothing m (callAlloc m env now callp tel gateway isPbx mainPt arg) ↔
      Smooth m env gateway callp := by
  unfold Smooth
  cases mem : env.callMem with
  | false =>
    unfold callAlloc
    rw [mem, if_neg Bool.false_ne_true, if_neg Bool.false_ne_true]
    constructor
    · rintro ⟨r, run, -, undone⟩
      cases run
      exact (undone rfl).callp
    · rintro rfl
      exact ⟨_, rfl, by simp, fun _ => ⟨rfl, fun _ => rfl, List.Perm.refl _⟩⟩
  | true =>
    rw [if_pos rfl]
    have search : (findRtpSession m).isSome =
        (findRtpSession { m with calls := m.calls.alloc {} }).isSome := by
      unfold findRtpSession
      simp only [Option.isSome_map]
    rw [search]
    cases found : findRtpSession { m with calls := m.calls.alloc {} } with
    | none =>
      have none : sdpSessAlloc { m with calls := m.calls.alloc {} } env =
          .ok ({ m with calls := m.calls.alloc {} }, none) := by
        unfold sdpSessAlloc
        rw [found]
      unfold callAlloc
      rw [if_pos mem]
      dsimp only
      rw [none, Fallible.ok_bind]
      exact iff_of_true (takenBack_fail rfl rfl (List.Perm.refl _)) (by simp)
    | some taken =>
      cases added : env.sdpAdds with
      | false =>
        exact iff_of_false (callAlloc_lost mem found added) (by simp)
      | true =>
        rw [callAlloc_added nodup mem found added]
        simp

/-- One free session. -/
def oneSession : Media := { rtpSessions := [0] }

/-- The URI of a gateway with a user. -/
def trunkUri : SipUri := { user := some "trunk" }

/-- Without an RTP socket for the encoder everything is taken back. -/
theorem callAlloc_allOrNothing_iff_noSocket :
    AllOrNothing oneSession
        (callAlloc oneSession { rtpAlloc := false } 100 none (some "100") trunkUri false 0 7) ↔
      Smooth oneSession { rtpAlloc := false } trunkUri none :=
  callAlloc_allOrNothing_iff (m := oneSession) (by decide)

/-- `sipsess_connect` fails, and 0 is returned for a call without a SIP session. -/
theorem callAlloc_withoutSession :
    oneSession.rtpSessions.Nodup ∧
      ¬ AllOrNothing oneSession
        (callAlloc oneSession { sipsessConnect := false } 100 none (some "100") trunkUri false 0 7) := by
  refine ⟨by decide, ?_⟩
  rintro ⟨r, run, done, -⟩
  cases run
  obtain ⟨c, call, rs, finished⟩ := done rfl
  have named := finished.callp
  have live := finished.live
  cases named
  cases live
  exact absurd finished.sess (by decide)

end Results

end Autodialer
