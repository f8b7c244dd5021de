import Autodialer.Book
import Autodialer.Call
import Autodialer.Db

/-!
# The process and its SIP and RTP callbacks (`call.c`)

The state of the whole process, and the callbacks that libre makes into
`call.c`: progress, answer and end of a SIP session and the arrival of an RTP
packet, with the two functions of `main.c` they use.
-/

namespace Autodialer

/-- The state of the process. The timers are linked on one list of the main thread, the timers of
libre among them; that list is not part of the state but for what goes wrong with it. -/
structure Sys where
  media : Media := {}
  book : Book := {}
  gateways : Heap Gateway := Heap.empty
  gatewayList : List GatewayId := []
  actions : Heap Action := Heap.empty
  services : List CampId := []
  msgq : List (Nat × CampId) := []
  db : Db Sql := {}
  audioPath : String := ""
  /-- A timer was zeroed while it was linked: its neighbours on the list still point to it. -/
  torn : Bool := false
  /-- The timers that have a handler and that `tmr_poll` no longer reaches from the head of the
  list. -/
  lost : List TimerId := []

namespace Sys

def setCall (s : Sys) (c : CallId) (f : Call → Call) : Sys :=
  { s with media := s.media.setCall c f }

def setSession (s : Sys) (rs : SessionId) (f : RtpSession → RtpSession) : Sys :=
  { s with media := s.media.setSession rs f }

def setDest (s : Sys) (d : DestId) (f : Destination → Destination) : Sys :=
  { s with book := s.book.setDest d f }

def setCamp (s : Sys) (cp : CampId) (f : Campaign → Campaign) : Sys :=
  { s with book := s.book.setCamp cp f }

/-- `db_exec` -/
def exec (s : Sys) (sql : Sql) : Sys := { s with db := dbExec s.db sql }

def loadCall (s : Sys) (c : CallId) : Exec Call := load .call s.media.calls c

def loadDest (s : Sys) (d : DestId) : Exec Destination := load .destination s.book.dests d

def loadCamp (s : Sys) (cp : CampId) : Exec Campaign := load .campaign s.book.camps cp

end Sys

/-! ## `update_call_status` and `find_campaign_action` -/

def updateCallStatus (s : Sys) (arg : Option DestId) : Exec Sys := do
  let d ← nonNull .destination arg
  let dest ← s.loadDest d
  let c ← nonNull .call dest.call
  let call ← s.loadCall c
  pure (s.exec (.status call.callStatus 0 call.connectTm call.establishTm dest.destId))

def findAction (actions : Heap Action) (event : Nat) :
    List ActionId → Exec (Option (ActionId × Action))
  | [] => pure none
  | a :: rest => do
    let action ← load .action actions a
    if action.actionKey = event then pure (some (a, action)) else findAction actions event rest

def findCampaignAction (s : Sys) (arg : Option DestId) (event : Nat) :
    Exec (Option (ActionId × Action)) := do
  let d ← nonNull .destination arg
  let dest ← s.loadDest d
  let camp ← s.loadCamp dest.cp
  findAction s.actions event camp.actions

/-! ## SIP callbacks -/

def progressHandler (s : Sys) (c : CallId) (scode : Nat) : Exec Sys := do
  let call ← s.loadCall c
  let s := s.setCall c fun call => { call with respCode := scode }
  if call.ispbxcall then pure s else updateCallStatus s call.arg

/-- The SDP answer as libre reports it: whether `sdp_decode` accepts it, the
payload number of `sdp_media_rformat`, and `sdp_media_raddr`. -/
structure Answer where
  decodes : Bool := true
  rformat : Option Int := some 0
  raddr : Addr

/-- The payload number that `establish_handler` accepts and stores in `call->pt`. -/
def Answer.format (answer : Answer) : Option Nat :=
  if answer.decodes then (answer.rformat.filter (· ≠ 101)).map fun pt => (pt % 2 ^ 8).toNat
  else none

/-- What `establish_handler` finds: the message, the clock, and the outcomes of
`thrd_create` and `telev_alloc`. -/
structure EstablishEnv where
  scode : Nat := 200
  answer : Answer
  now : Time
  thrdCreate : Bool := true
  televAlloc : Bool := true

/-- The end of `establish_handler` for a PBX leg: the two sessions are linked. -/
def establishBridge (s : Sys) (call : Call) (rs : SessionId) : Exec Sys := do
  let d ← nonNull .destination call.dest
  let dest ← s.loadDest d
  let main ← nonNull .call dest.call
  let mainCall ← s.loadCall main
  let mainRs ← nonNull .session mainCall.rtpSess
  pure ((s.setSession mainRs fun r => { r with remote := some rs }).setSession rs fun r =>
    { r with remote := some mainRs })

/-- The end of `establish_handler` for a main call that plays its audio file. -/
def establishAudio (s : Sys) (c : CallId) (rs : SessionId) (env : EstablishEnv) : Sys :=
  let s :=
    if env.thrdCreate then
      s.setCall c fun call => { call with establishTm := env.now, thrdCreated := true }
    else s
  s.setSession rs fun r =>
    { r with
      telev := if r.telev.isNone && env.televAlloc then some {} else r.telev
      televRecv := true }

def establishHandler (s : Sys) (c : CallId) (env : EstablishEnv) : Exec Sys := do
  let call ← s.loadCall c
  let s := s.setCall c fun call => { call with respCode := env.scode }
  if call.callStatus = .established then pure s
  else
    let s := s.setCall c fun call =>
      { call with establishTm := env.now, callStatus := .established }
    match env.answer.format with
    | none => pure (s.setCall c fun call => { call with ended := true, sess := .null })
    | some pt => do
      let rs ← nonNull .session call.rtpSess
      let s := s.setCall c fun call => { call with pt := pt, rtpDest := some env.answer.raddr }
      let s := s.setSession rs fun r => { r with remoteIp := some env.answer.raddr }
      if call.ispbxcall then establishBridge s call rs
      else updateCallStatus (if call.joinPbx then s else establishAudio s c rs env) call.arg

def closeHandler (s : Sys) (c : CallId) (err : Bool) (scode : Nat) : Exec Sys := do
  let call ← s.loadCall c
  let respCode :=
    if call.callStatus = .established then 2
    else if !err && 0 < scode then scode
    else if err then 400
    else call.respCode
  pure (s.setCall c fun call => { call with ended := true, respCode := respCode })

/-! ## RTP packets -/

/-- `telev_recv` on the payload of a packet: the new state, the event and the
end flag, or an error. -/
def televRecv (telev : Option Telev) (payload : List UInt8) : Option (Telev × Nat × Bool) :=
  match telev, payload with
  | some tel, event :: flags :: _ :: _ :: _ =>
    if flags &&& 0x80 = 0x80 then
      if tel.rxEnd then none else some (⟨-1, true⟩, event.toNat, true)
    else if (event.toNat : Int) = tel.rxEvent then none
    else some (⟨event.toNat, false⟩, event.toNat, false)
  | _, _ => none

def rtpHeaderSize : Nat := 12

/-- The last part of `rtp_recv_handler`: the packet goes out on the socket of the
linked session. -/
def rtpForward (s : Sys) (rs : SessionId) (mb : List UInt8) : Sys :=
  match (s.media.rtp rs).remote with
  | none => s
  | some t => { s with media := s.media.send (.datagram t (s.media.rtp t).remoteIp mb) }

/-- A completed telephone event: the first action with that key is taken. -/
def rtpEvent (s : Sys) (c : CallId) (call : Call) (event : Nat) : Exec Sys := do
  match ← findCampaignAction s call.arg event with
  | none => pure s
  | some (a, action) =>
    pure (s.setCall c fun call =>
      { call with
        action := some a, eventReceived := true, actionKey := action.actionKey,
        actionType := action.actionType,
        ended := if 0 < action.actionType then true else call.ended })

/-- `rtp_recv_handler` for a packet `mb` on the session `rs`. -/
def rtpRecvHandler (s : Sys) (rs : SessionId) (mb : List UInt8) : Exec Sys :=
  if mb.length < rtpHeaderSize then pure s
  else if (s.media.rtp rs).televRecv then do
    let c ← nonNull .call (s.media.rtp rs).arg
    let call ← s.loadCall c
    if !call.eventReceived && mb.getD 1 0 &&& 0x7f = 101 then
      match televRecv (s.media.rtp rs).telev (mb.drop rtpHeaderSize) with
      | none => pure s
      | some (telev, event, fin) =>
        let s := s.setSession rs fun r => { r with telev := some telev }
        if fin then rtpEvent s c call event else pure (rtpForward s rs mb)
    else pure (rtpForward s rs mb)
  else pure (rtpForward s rs mb)

end Autodialer
