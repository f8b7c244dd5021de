import Autodialer.Lib.Fallible
import Autodialer.Lib.Heap
import Mathlib.Algebra.Group.Int.Defs
import Mathlib.Algebra.Group.Nat.Defs

/-!
# The objects of the dialer (`call.h`)

Pointers are addresses in heaps, one heap for each type of object, and every
object has one owner (`mem_ref` is never called on these types), so `mem_deref`
on an object always destroys it. The libraries' own objects (SIP and SDP
sessions, RTP sockets, timers) appear as the part of their state that the
program depends on. Fields that no function of the model reads are left out:
`client_id`, `caller_id` and `stat_time` of a campaign, `tmr` and `ts` of a
call, `local_ip` and `lock` of an RTP session.
-/

namespace Autodialer

abbrev CallId := Nat
abbrev DestId := Nat
abbrev CampId := Nat
abbrev GatewayId := Nat
abbrev ActionId := Nat
abbrev SessionId := Nat

/-- `time_t`, in seconds. -/
abbrev Time := Int

/-- An IP address with its port (`struct sa`). -/
abbrev Addr := Nat

/-! ## Faults -/

/-- What a pointer was expected to point to. -/
inductive Obj
  | call
  | destination
  | campaign
  | gateway
  | action
  | session
  | result
deriving DecidableEq, Repr

/-- Undefined behaviour of the C program. -/
inductive Fault
  /-- A null pointer was followed. -/
  | null (o : Obj)
  /-- A pointer to a destroyed object was followed. -/
  | dangling (o : Obj)
  /-- An uninitialised pointer was followed. -/
  | wild
  /-- A PBX leg with a PBX leg of its own was destroyed. -/
  | nested
  /-- A walk over the list of timers came to an element that was zeroed while it was linked. -/
  | torn
deriving DecidableEq, Repr

/-- A computation of the program, which may end in undefined behaviour. -/
abbrev Exec := Except Fault

/-- The address in a pointer that is about to be followed. -/
def nonNull (o : Obj) (p : Option Nat) : Exec Nat := Fallible.get? (.null o) p

/-- The object at an address. -/
def load {α : Type} (o : Obj) (h : Heap α) (p : Nat) : Exec α :=
  Fallible.get? (.dangling o) (h.get p)

@[simp] theorem nonNull_eq_ok {o : Obj} {p : Option Nat} {a : Nat} :
    nonNull o p = .ok a ↔ p = some a := Fallible.get?_eq_ok

@[simp] theorem load_eq_ok {α : Type} {o : Obj} {h : Heap α} {p : Nat} {a : α} :
    load o h p = .ok a ↔ h.get p = some a := Fallible.get?_eq_ok

@[simp] theorem nonNull_some (o : Obj) (a : Nat) : nonNull o (some a) = .ok a := rfl

/-! ## Calls -/

/-- The `enum` of call states, in the order of its values. -/
inductive CallStatus
  | connecting
  | trying
  | ringing
  | established
  | disconnected
deriving DecidableEq, Repr

def CallStatus.toNat : CallStatus → Nat
  | connecting => 0
  | trying => 1
  | ringing => 2
  | established => 3
  | disconnected => 4

/-- What `call->sess` is: `NULL`, a SIP session that may still call back, or one
that libre has terminated and whose handlers it has replaced by its own. -/
inductive Sess
  | null
  | live
  | terminated
deriving DecidableEq, Repr

/-- `struct call`. `dest` is `none` until `on_call_end` stores a destination
there: `call_alloc` stores the address of its gateway, which no code reads. -/
structure Call where
  respCode : Nat := 0
  sess : Sess := .null
  rs : Bool := false
  rtpSess : Option SessionId := none
  /-- The payload number of the audio format in the SDP session. -/
  sdp : Option Nat := none
  pbxCall : Option CallId := none
  audio : Option String := none
  rtpDest : Option Addr := none
  dest : Option DestId := none
  connectTm : Time := 0
  establishTm : Time := 0
  callStatus : CallStatus := .connecting
  numPlay : Nat := 0
  actionKey : Nat := 0
  actionType : Nat := 0
  pt : Nat := 0
  action : Option ActionId := none
  joinPbx : Bool := false
  thrdCreated : Bool := false
  ended : Bool := false
  ispbxcall : Bool := false
  eventReceived : Bool := false
  forwarded : Bool := false
  arg : Option DestId := none

/-- `struct telev`, its receiving half. -/
structure Telev where
  rxEvent : Int := -1
  rxEnd : Bool := false

/-- `struct rtp_session`. The sessions are allocated when the program starts and
live until it ends. -/
structure RtpSession where
  remoteIp : Option Addr := none
  connected : Bool := false
  inUse : Bool := false
  remote : Option SessionId := none
  televRecv : Bool := false
  telev : Option Telev := none
  arg : Option CallId := none

/-! ## Campaigns -/

/-- A timer of the dialer, on the list of timers of the main thread. -/
inductive TimerId
  | camp (cp : CampId)
  | dest (d : DestId)
deriving DecidableEq, Repr

/-- A decoded SIP URI: the user, which has no pointer in a URI without one, and the one parameter
that decides the audio format. -/
structure SipUri where
  user : Option String := none
  codec : Option Nat := none

/-- `struct gateway`. -/
structure Gateway where
  gatewayId : Nat
  uriStr : Option String := none
  sipUri : SipUri := {}

/-- `struct campaign_action`. -/
structure Action where
  actionKey : Nat
  actionType : Nat
  gateway : Option GatewayId := none
  dest : Option String := none

/-- The list that a destination is linked on (`dest->le.list`). -/
inductive Ring
  | destinations (cp : CampId)
  | processl (cp : CampId)
deriving DecidableEq, Repr

/-- `struct destination`; `tmr` says whether its timer has a handler (`tmr.th`). -/
structure Destination where
  destId : Nat
  dest : Option String
  lastTry : Time := 0
  call : Option CallId := none
  cp : CampId
  tryCount : Nat := 0
  tmr : Bool := false
  le : Option Ring := none

/-- `struct campaign`; `tmr` says whether its timer has a handler (`tmr.th`). -/
structure Campaign where
  campaignId : Nat := 0
  campaignStatus : Nat := 0
  gateway : Option GatewayId := none
  pbxGateway : Option GatewayId := none
  pbxNumber : Option String := none
  fileName : Option String := none
  callLimit : Nat := 0
  retryDelay : Nat := 0
  maxCallDuration : Nat := 0
  maxTry : Nat := 0
  isRunning : Bool := false
  maxPlay : Nat := 0
  destinations : List DestId := []
  processl : List DestId := []
  tmr : Bool := false
  actions : List ActionId := []

/-! ## Statements -/

/-- The final `update calls` of `on_call_end`. -/
structure FinalUpdate where
  retryCount : Nat
  callStatus : CallStatus
  callDuration : Int
  connectTime : Time
  establishTime : Time
  disconnectTime : Time
  disconnectCause : Nat
  callActionKey : Nat
  callActionType : Nat
  eventReceived : Bool
  id : Nat
deriving DecidableEq, Repr

/-- The `INSERT INTO call_forwarding` of `on_call_end`. -/
structure Forwarding where
  campaignsId : Nat
  gatewayId : Nat
  callFrom : Option String
  callTo : Option String
  callStatus : CallStatus
  callDuration : Int
  connectTime : Time
  establishTime : Time
  disconnectTime : Time
  disconnectCause : Nat
deriving DecidableEq, Repr

/-- The statements that the main loop enqueues. -/
inductive Sql
  | status (callStatus : CallStatus) (callDuration : Int) (connectTime establishTime : Time)
      (id : Nat)
  | final (u : FinalUpdate)
  | forwarding (f : Forwarding)
deriving DecidableEq, Repr

end Autodialer
