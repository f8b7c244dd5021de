import Autodialer.Types
import Mathlib.Logic.Function.Basic

/-!
# Calls and RTP sessions (`call.c`)

The pool of RTP sessions, the creation of a call by `call_alloc` and its
destruction. `wire` is the tape of what the program has sent: INVITEs and
forwarded RTP datagrams.
-/

namespace Autodialer

/-- What the program sends. -/
inductive Wire
  /-- A successful `sipsess_connect` for the destination `arg`. -/
  | invite (call : CallId) (arg : DestId) (isPbx : Bool) (tel : Option String)
  /-- `udp_send` on the socket of `via` to the address `dst`. -/
  | datagram (via : SessionId) (dst : Option Addr) (bytes : List UInt8)
deriving DecidableEq, Repr

/-- The calls, the RTP sessions and the free list `rtp_sessions`. -/
structure Media where
  calls : Heap Call := Heap.empty
  rtp : SessionId → RtpSession := fun _ => {}
  rtpSessions : List SessionId := []
  wire : List Wire := []

def Media.setCall (m : Media) (c : CallId) (f : Call → Call) : Media :=
  { m with calls := m.calls.modify c f }

def Media.setSession (m : Media) (rs : SessionId) (f : RtpSession → RtpSession) : Media :=
  { m with rtp := Function.update m.rtp rs (f (m.rtp rs)) }

def Media.send (m : Media) (w : Wire) : Media :=
  { m with wire := m.wire ++ [w] }

/-! ## The pool of sessions -/

/-- `list_append` does nothing with an element that is on a list already. -/
def releaseRtpSession (m : Media) (rs : SessionId) : Media :=
  let m := m.setSession rs fun r =>
    { r with
      inUse := false, connected := false, arg := none, televRecv := false, telev := none,
      remote := none }
  if rs ∈ m.rtpSessions then m else { m with rtpSessions := m.rtpSessions ++ [rs] }

def findRtpSession (m : Media) : Option (Media × SessionId) :=
  (m.rtpSessions.find? fun rs => !(m.rtp rs).inUse).map fun rs =>
    ({ m.setSession rs (fun r => { r with inUse := true }) with
        rtpSessions := m.rtpSessions.erase rs }, rs)

/-- `mem_deref` on a call: `call_destructor`, then the memory is freed. The first
argument bounds the nesting of PBX legs. -/
def memDerefCall : Nat → Media → CallId → Exec Media
  | 0, _, _ => .error .nested
  | depth + 1, m, c => do
    let call ← load .call m.calls c
    let m :=
      match call.rtpSess with
      | some rs => releaseRtpSession m rs
      | none => m
    let m ←
      match call.pbxCall with
      | some leg => memDerefCall depth m leg
      | none => pure m
    pure { m with calls := m.calls.free c }

/-- A main call and its PBX leg. -/
def callDepth : Nat := 2

/-! ## Placing a call -/

/-- The outcomes of the library calls in `call_alloc`; `wildSdp` says that the
uninitialised `sdpsess` is not null when `sdp_session_alloc` has failed, and
`strMem` that there is memory for the strings `remote`, `fname` and `url`. -/
structure AllocEnv where
  callMem : Bool := true
  sdpSessionAlloc : Bool := true
  wildSdp : Bool := false
  sdpMediaAdd : Bool := true
  sdpFormatAdd : Bool := true
  sdpFormatAddTelev : Bool := true
  sdpEncode : Bool := true
  strMem : Bool := true
  sipsessConnect : Bool := true
  rtpAlloc : Bool := true
deriving DecidableEq, Repr

/-- The audio format offered for the payload number `pt`. -/
def sdpFormat (pt : Nat) : Nat :=
  if pt = 18 then 18 else if pt = 8 then 8 else 0

/-- `sdp_sess_alloc`; no session is the result of an error. An error after
`find_rtp_session` leaves the session off the free list. -/
def sdpSessAlloc (m : Media) (env : AllocEnv) : Exec (Media × Option SessionId) :=
  match findRtpSession m with
  | none => .ok (m, none)
  | some (m, rs) =>
    if env.sdpSessionAlloc then
      if env.sdpMediaAdd && env.sdpFormatAdd && env.sdpFormatAddTelev then
        .ok (m.setSession rs fun r => { r with connected := true }, some rs)
      else .ok (m, none)
    -- `mem_deref(sdpsess)` on a variable that was never assigned
    else if env.wildSdp then .error .wild
    else .ok (m, none)

/-- What `call_alloc` leaves behind: its return value is non-zero when `err`,
and `callp` is `*callp`. -/
structure Alloc where
  media : Media
  err : Bool
  callp : Option CallId

/-- The strings that `call_alloc` passes to `sipsess_connect` are made. `pl_strdup` makes no `fname`
of a user without a pointer; the results of the three calls are dropped. -/
def AllocEnv.named (env : AllocEnv) (gateway : SipUri) : Bool := env.strMem && gateway.user.isSome

/-- The error exit of `call_alloc`. -/
def callAllocFail (m : Media) (c : CallId) : Exec Alloc := do
  let m ← memDerefCall callDepth m c
  pure ⟨m, true, none⟩

/-- `call_alloc`. The caller's `*callp` comes in as `callp`, `mainPt` is
`dest->call->pt`, read for a PBX leg only. -/
def callAlloc (m : Media) (env : AllocEnv) (now : Time) (callp : Option CallId)
    (tel : Option String) (gateway : SipUri) (isPbx : Bool) (mainPt : Nat) (arg : DestId) :
    Exec Alloc :=
  if env.callMem then do
    let c := m.calls.next
    let m := { m with calls := m.calls.alloc {} }
    let pt := if isPbx then mainPt else gateway.codec.getD 0 % 2 ^ 8
    let (m, rs) ← sdpSessAlloc m env
    match rs with
    | none => callAllocFail m c
    | some rs =>
      let m := m.setCall c fun call => { call with rtpSess := some rs, sdp := some (sdpFormat pt) }
      if env.sdpEncode then
        if env.named gateway then
          let m :=
            if env.sipsessConnect then
              (m.setCall c fun call => { call with sess := .live }).send (.invite c arg isPbx tel)
            else m
          let m := m.setSession rs fun r => { r with arg := some c }
          -- `err` is the result of `rtp_alloc` alone: that of `sipsess_connect` is lost
          if env.rtpAlloc then
            pure
              { media := m.setCall c fun call =>
                  { call with
                    rs := true, connectTm := now, callStatus := .connecting, ended := false,
                    rtpDest := none, pt := pt, arg := some arg }
                err := false
                callp := some c }
          else callAllocFail m c
        -- `sipsess_connect` reads, and `mem_deref` frees, a string that was never assigned
        else .error .wild
      else callAllocFail m c
  else pure ⟨m, true, callp⟩

end Autodialer
