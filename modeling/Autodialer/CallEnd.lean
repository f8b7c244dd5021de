import Autodialer.Tick

/-!
# The supervision of a call (`on_call_end`)

Once a second every destination with a call is looked at. The handler applies
its own rules for ending or forwarding the call, records an ended call, and
then destroys the destination, puts it back on the list of destinations, or
arms its timer again.
-/

namespace Autodialer

/-- The value of a `time_t` difference stored in an `int`. -/
def toInt32 (t : Int) : Int := t.bmod (2 ^ 32)

theorem toInt32_of_lt {n : Nat} (small : n < 2 ^ 31) : toInt32 n = n := by
  rw [toInt32, Int.bmod_def]
  omega

/-! ## The rules -/

/-- `on_call_end` ends the call itself. -/
def Call.forceEnd (call : Call) : Call :=
  { call with sess := .null, ended := true, respCode := 1 }

/-- The gateway and the number that an answered call is forwarded to. -/
def forwardTarget (s : Sys) (dest : Destination) (call : Call) :
    Exec (Gateway × Option String) := do
  if call.eventReceived then do
    let a ← nonNull .action call.action
    let action ← load .action s.actions a
    let g ← nonNull .gateway action.gateway
    let gateway ← load .gateway s.gateways g
    pure (gateway, action.dest)
  else do
    let camp ← s.loadCamp dest.cp
    let g ← nonNull .gateway camp.pbxGateway
    let gateway ← load .gateway s.gateways g
    pure (gateway, camp.pbxNumber)

/-- The PBX leg of the call `c` is placed. -/
def forwardCall (s : Sys) (now : Time) (env : AllocEnv) (d : DestId) (c : CallId)
    (dest : Destination) (call : Call) : Exec Sys := do
  let (gateway, tel) ← forwardTarget s dest call
  let r ← callAlloc s.media env now call.pbxCall tel gateway.sipUri true call.pt d
  let s := { s with media := r.media }.setCall c fun call => { call with pbxCall := r.callp }
  if r.err then pure s
  else do
    let leg ← nonNull .call r.callp
    pure ((s.setCall leg fun call => { call with ispbxcall := true, dest := some d }).setCall c
      fun call => { call with forwarded := true })

/-- The rules for a call that has been forwarded. -/
def forwardedRules (s : Sys) (now : Time) (c : CallId) (call : Call) : Exec Sys :=
  if 30 * 60 < now - call.establishTm then pure (s.setCall c Call.forceEnd)
  else
    match call.pbxCall with
    | none => pure s
    | some leg => do
      let legCall ← s.loadCall leg
      pure (if legCall.ended then s.setCall c Call.forceEnd else s)

/-- The first part of `on_call_end`. -/
def endRules (s : Sys) (d : DestId) (now : Time) (env : AllocEnv) : Exec Sys := do
  let dest ← s.loadDest d
  let c ← nonNull .call dest.call
  let call ← s.loadCall c
  if call.ended then pure (s.setCall c fun call => { call with sess := .null, respCode := 1 })
  else do
    let camp ← s.loadCamp dest.cp
    if camp.actions.isEmpty && call.callStatus = .established && camp.maxPlay ≤ call.numPlay then
      pure (s.setCall c Call.forceEnd)
    else if call.callStatus = .established && (call.eventReceived || call.joinPbx) then
      if call.forwarded then forwardedRules s now c call
      else forwardCall s now env d c dest call
    else if !call.forwarded && call.callStatus = .established && 0 < camp.maxCallDuration &&
        camp.maxCallDuration < now - call.establishTm then
      pure (s.setCall c Call.forceEnd)
    else if call.callStatus.toNat < CallStatus.established.toNat && 40 < now - call.connectTm then
      pure (s.setCall c Call.forceEnd)
    else pure s

/-! ## The record -/

/-- The seconds since the call was established, 0 if it was not. -/
def Call.duration (call : Call) (now : Time) : Int :=
  if call.callStatus = .established then toInt32 (now - call.establishTm) else 0

/-- The gateway and the number in the forwarding record. The gateway of a call
forwarded without an event is that of the campaign. -/
def recordTarget (s : Sys) (camp : Campaign) (call : Call) : Exec (Gateway × Option String) := do
  if call.eventReceived then do
    let a ← nonNull .action call.action
    let action ← load .action s.actions a
    let g ← nonNull .gateway action.gateway
    let gateway ← load .gateway s.gateways g
    pure (gateway, action.dest)
  else do
    let g ← nonNull .gateway camp.gateway
    let gateway ← load .gateway s.gateways g
    pure (gateway, camp.pbxNumber)

/-- The forwarding record of an ended call with the PBX leg `leg`; the result is
the new value of `duration`. -/
def recordForwarding (s : Sys) (now : Time) (dest : Destination) (call : Call) (leg : CallId) :
    Exec (Sys × Int) := do
  let legCall ← s.loadCall leg
  let duration := legCall.duration now
  let camp ← s.loadCamp dest.cp
  let (gateway, callTo) ← recordTarget s camp call
  pure (s.exec (.forwarding
    { campaignsId := camp.campaignId
      gatewayId := gateway.gatewayId
      callFrom := dest.dest
      callTo := callTo
      callStatus := legCall.callStatus
      callDuration := duration
      connectTime := legCall.connectTm
      establishTime := legCall.establishTm
      disconnectTime := now
      disconnectCause := legCall.respCode }), duration)

/-- The final record of the call of `dest`. -/
def finalUpdate (dest : Destination) (call : Call) (now : Time) : FinalUpdate where
  retryCount := dest.tryCount
  callStatus := .disconnected
  callDuration := call.duration now
  connectTime := call.connectTm
  establishTime := call.establishTm
  disconnectTime := now
  disconnectCause := call.respCode
  callActionKey := call.actionKey
  callActionType := call.actionType
  eventReceived := call.eventReceived
  id := dest.destId

/-- The second part of `on_call_end`; the result is the variable `duration`. -/
def endRecord (s : Sys) (d : DestId) (now : Time) : Exec (Sys × Int) := do
  let dest ← s.loadDest d
  let c ← nonNull .call dest.call
  let call ← s.loadCall c
  if call.ended then
    let s := (s.setCall c fun call => { call with callStatus := .disconnected }).exec
      (.final (finalUpdate dest call now))
    match call.pbxCall with
    | none => pure (s, call.duration now)
    | some leg => recordForwarding s now dest call leg
  else pure (s, call.duration now)

/-! ## The fate of the destination -/

/-- The destination goes back to the end of `destinations`. -/
def requeue (s : Sys) (d : DestId) (c : CallId) (cp : CampId) : Exec Sys := do
  let s ← dropCall s d c
  pure { s with book := listAppend (listUnlink s.book d) (.destinations cp) d }

/-- The last part of `on_call_end`. -/
def endDispose (s : Sys) (d : DestId) (duration : Int) : Exec Sys := do
  let dest ← s.loadDest d
  let c ← nonNull .call dest.call
  let call ← s.loadCall c
  if call.ended then do
    let camp ← s.loadCamp dest.cp
    if 0 < camp.maxTry && camp.maxTry ≤ dest.tryCount then memDerefDest s d
    else if 0 < duration then memDerefDest s d
    else requeue s d c dest.cp
  else pure (s.setDest d fun dest => { dest with tmr := true })

def onCallEnd (s : Sys) (d : DestId) (now : Time) (env : AllocEnv) : Exec Sys := do
  let s ← endRules s d now env
  let (s, duration) ← endRecord s d now
  endDispose s d duration

end Autodialer
