import Autodialer.Lib.Trace
import Autodialer.Sipsess

/-!
# The user agent as a transition system

One step is one callback of the main loop: a response, a timer, an answer of the DNS, a request of
the peer; or a call of the user, who makes sessions and derefs them. The parsing of messages is left
out: an event names the transaction that `response_handler` finds by the branch and the method, and
the session that `sipsess_find` finds by its dialog.
-/

namespace Autodialer

namespace Ua

/-! ## `request.c` -/

/-- `terminate` -/
def requestTerminate (u : Ua) (env : UaEnv) (r : RequestId) (err : Bool) (scode : Nat) :
    UaExec Ua := do
  let req ← follow .request u.requests r
  let u ← match req.reqp with
    | some s => do
      let _ ← follow .sipsess u.sessions s
      let u := u.setSession s fun sess => { sess with req := none }
      pure (u.setRequest r fun req => { req with reqp := none })
    | none => pure u
  match req.resph with
  | some resph => do
    let u ← u.callResph env resph err scode
    let _ ← follow .request u.requests r
    pure (u.setRequest r fun req => { req with resph := none })
  | none => pure u

/-- A request is terminated, then dereffed. -/
def requestDone (u : Ua) (env : UaEnv) (r : RequestId) (err : Bool) (scode : Nat) : UaExec Ua := do
  let u ← u.requestTerminate env r err scode
  u.memDerefRequest env r

/-- `request_next`, and what its callers do with an error. -/
def requestNextOrDone (u : Ua) (env : UaEnv) (r : RequestId) (scode : Nat) : UaExec Ua := do
  let (u, sent) ← u.requestNext env r
  if sent then pure u else u.requestDone env r true scode

/-- `response_handler`; `scode` is 0 without a message. -/
def requestResponse (u : Ua) (env : UaEnv) (r : RequestId) (err : Bool) (scode : Nat) :
    UaExec Ua := do
  let req ← follow .request u.requests r
  if !err && scode < 200 then do
    let u ← if req.provrecv then pure u else do
      let u := u.setRequest r fun req => { req with provrecv := true }
      if req.canceled then u.ctransCancel env req.ct else pure u
    match req.resph with
    | some resph => u.callResph env resph err scode
    | none => pure u
  else
    let u := u.setRequest r fun req => { req with ct := none }
    if !req.canceled && (err || scode = 503) && (req.addrl ≠ [] || req.srvl ≠ []) then
      u.requestNextOrDone env r scode
    else u.requestDone env r err scode

/-- What `srv_handler` and `naptr_handler` do when a lookup ends in `u`. -/
def lookedUp (env : UaEnv) (r : RequestId) : Ua × Bool → UaExec Ua
  | (u, true) => pure u
  | (u, false) => u.requestDone env r true 0

/-- `naptr_handler`; a NAPTR record names a transport, and the SRV records that come with it. -/
def naptrHandler (u : Ua) (env : UaEnv) (r : RequestId) : UaExec Ua := do
  let _ ← follow .request u.requests r
  match env.naptr.filter u.transpSupportedAny with
  | none => do
    let looked ← u.srvLookup env r
    lookedUp env r looked
  | some tp =>
    let u := u.setRequest r fun req =>
      { req with tp := some tp, tpSelected := true, srvl := req.srvl ++ env.srvs }
    let req ← follow .request u.requests r
    if req.srvl = [] then do
      let looked ← u.srvLookup env r
      lookedUp env r looked
    else u.requestNextOrDone env r 0

/-- `srv_handler`; without records the next transport is tried, then the name itself. -/
def srvHandler (u : Ua) (env : UaEnv) (r : RequestId) : UaExec Ua := do
  let u := u.setRequest r fun req => { req with srvl := req.srvl ++ env.srvs }
  let req ← follow .request u.requests r
  if req.srvl ≠ [] then u.requestNextOrDone env r 0
  else if req.tpSelected then do
    let looked ← u.addrLookup env r
    lookedUp env r looked
  else
    match u.transpNext req.tp with
    | some tp => do
      let looked ← (u.setRequest r fun req => { req with tp := some tp }).srvLookup env r
      lookedUp env r looked
    | none =>
      match u.transpNext none with
      | some tp => do
        let looked ← (u.setRequest r fun req => { req with tp := some tp }).addrLookup env r
        lookedUp env r looked
      | none => lookedUp env r (u.setRequest r fun req => { req with tp := none }, false)

/-- `addr_handler` -/
def addrHandler (u : Ua) (env : UaEnv) (r : RequestId) : UaExec Ua := do
  let u := u.setRequest r fun req => { req with addrl := req.addrl ++ env.addrs }
  let req ← follow .request u.requests r
  if req.dnsq.isSome || req.dnsq2 then pure u
  else if req.addrl = [] ∧ req.srvl = [] then u.requestDone env r true 0
  else u.requestNextOrDone env r 0

/-- `query_handler` of the DNS client clears the pointer to the query, and calls its handler. -/
def queryHandler (u : Ua) (env : UaEnv) (r : RequestId) (second : Bool) : UaExec Ua := do
  let req ← follow .request u.requests r
  if second then (u.setRequest r fun req => { req with dnsq2 := false }).addrHandler env r
  else
    let u := u.setRequest r fun req => { req with dnsq := none }
    match req.dnsq with
    | some .naptr => u.naptrHandler env r
    | some .srv => u.srvHandler env r
    | some .addr => u.addrHandler env r
    | none => pure u

/-! ## `ctrans.c` -/

/-- `resph` of a transaction. -/
def ctransResph (u : Ua) (env : UaEnv) (resph : Option RequestId) (err : Bool) (scode : Nat) :
    UaExec Ua :=
  match resph with
  | some r => u.requestResponse env r err scode
  | none => pure u

/-- `terminate` and `mem_deref`, as `tmr_handler` and `transport_handler` call them. -/
def ctransFail (u : Ua) (env : UaEnv) (c : CtransId) : UaExec Ua := do
  let ct ← follow .ctrans u.ctrans c
  let u ← if ct.state = .completed then pure u else u.ctransResph env ct.resph true 0
  u.memDerefCtrans c

/-- `retransmit_handler` -/
def retransmitHandler (u : Ua) (env : UaEnv) (c : CtransId) : UaExec Ua := do
  let ct ← follow .ctrans u.ctrans c
  let txc := (ct.txc + 1) % 2 ^ 32
  let again (timeout : Nat) : UaExec Ua :=
    let u := u.setCtrans c fun ct => { ct with txc := txc, tmre := some (env.now + timeout) }
    if env.resent then pure u else u.ctransFail env c
  match ct.state with
  | .trying => again (min (sipT1 <<< txc) sipT2)
  | .calling => again (sipT1 <<< txc)
  | .proceeding => again sipT2
  | .completed => pure (u.setCtrans c fun ct => { ct with txc := txc })

/-- A final response that is not the end of the transaction: it waits for copies, unless the
transport is reliable. -/
def ctransComplete (u : Ua) (env : UaEnv) (c : CtransId) (scode wait : Nat) : UaExec Ua := do
  let ct ← follow .ctrans u.ctrans c
  let u := u.setCtrans c fun ct =>
    { ct with state := .completed, mbAck := ct.invite && env.copied }
  let u ← u.ctransResph env ct.resph false scode
  if Transp.reliable ct.tp then u.memDerefCtrans c
  else do
    let _ ← follow .ctrans u.ctrans c
    pure (u.setCtrans c fun ct => { ct with tmr := some (env.now + wait), tmre := none })

/-- `invite_response`; in the last case the ACK is sent again. -/
def inviteResponse (u : Ua) (env : UaEnv) (c : CtransId) (scode : Nat) : UaExec Ua := do
  let ct ← follow .ctrans u.ctrans c
  let u := if ct.state = .calling then
    u.setCtrans c fun ct => { ct with tmr := none, tmre := none } else u
  if ct.state = .calling ∨ ct.state = .proceeding then
    if scode < 200 then
      (u.setCtrans c fun ct => { ct with state := .proceeding }).ctransResph env ct.resph false scode
    else if scode < 300 then do
      let u ← u.ctransResph env ct.resph false scode
      u.memDerefCtrans c
    else u.ctransComplete env c scode completeWait
  else pure u

/-- `response_handler` -/
def responseHandler (u : Ua) (env : UaEnv) (c : CtransId) (scode : Nat) : UaExec Ua := do
  let ct ← follow .ctrans u.ctrans c
  if ct.invite then u.inviteResponse env c scode
  else if ct.state = .trying ∨ ct.state = .proceeding then
    if scode < 200 then
      (u.setCtrans c fun ct => { ct with state := .proceeding }).ctransResph env ct.resph false scode
    else u.ctransComplete env c scode sipT4
  else pure u

/-! ## `listen.c` -/

/-- `bye_handler` for a request in sequence. -/
def byeHandler (u : Ua) (env : UaEnv) (s : SipsessId) : UaExec Ua := do
  let sess ← follow .sipsess u.sessions s
  let u := (u.setSession s fun sess => { sess with peerterm := true }).logged (.peerBye s)
  if sess.terminated ≠ .no then pure u
  else u.sipsessTerminate env s true 0

/-- `reinvite_handler` for a request in sequence: the offer is refused, with no answer. -/
def reinviteHandler (u : Ua) (_ : UaEnv) (s : SipsessId) : UaExec Ua := do
  let sess ← follow .sipsess u.sessions s
  if sess.terminated ≠ .no then pure u
  else if sess.req.isSome then pure u
  else pure (u.logged (.offer s))

end Ua

/-! ## Steps -/

inductive UaEvent
  /-- The user calls `sipsess_connect`. -/
  | connect (env : UaEnv)
  /-- The user derefs a session. -/
  | deref (s : SipsessId) (env : UaEnv)
  /-- A response for a transaction. -/
  | response (c : CtransId) (scode : Nat) (env : UaEnv)
  /-- A timer of a transaction fires. -/
  | timeout (c : CtransId) (env : UaEnv)
  | retransmit (c : CtransId) (env : UaEnv)
  /-- The connection of a transaction fails. -/
  | transport (c : CtransId) (env : UaEnv)
  /-- The answer to a query, or to the second query of a request. -/
  | dns (r : RequestId) (second : Bool) (env : UaEnv)
  /-- A request of the peer. -/
  | bye (s : SipsessId) (env : UaEnv)
  | reinvite (s : SipsessId) (env : UaEnv)

namespace Ua

/-- A timer that is due at `due` fires; `other` is one that would go first if it were due earlier. -/
def fires (now : Nat) (due other : Option Nat) : Bool :=
  due.any fun t => t ≤ now && other.all fun t' => t ≤ t'

/-- Which events may occur. -/
def enabled (u : Ua) : UaEvent → Bool
  | .connect _ => true
  | .deref s _ => sessOf u.log s ≠ .null
  | .response c _ _ => (u.ctrans.get c).isSome
  | .timeout c env => (u.ctrans.get c).any fun ct => fires env.now ct.tmr ct.tmre
  | .retransmit c env => (u.ctrans.get c).any fun ct => fires env.now ct.tmre ct.tmr
  | .transport c _ => (u.ctrans.get c).any fun ct => Transp.reliable ct.tp
  | .dns r second _ => (u.requests.get r).any fun req => if second then req.dnsq2 else req.dnsq.isSome
  | .bye s _ => (u.sessions.get s).isSome
  | .reinvite s _ => (u.sessions.get s).isSome

/-- `tmr_poll` disarms a timer before it calls the handler. -/
def run (u : Ua) : UaEvent → UaExec Ua
  | .connect env => do
    let (u, _) ← u.sipsessConnect env
    pure u
  | .deref s env => u.release env s
  | .response c scode env => u.responseHandler env c scode
  | .timeout c env => (u.setCtrans c fun ct => { ct with tmr := none }).ctransFail env c
  | .retransmit c env => (u.setCtrans c fun ct => { ct with tmre := none }).retransmitHandler env c
  | .transport c env => u.ctransFail env c
  | .dns r second env => u.queryHandler env r second
  | .bye s env => u.byeHandler env s
  | .reinvite s env => u.reinviteHandler env s

def next (u : Ua) (e : UaEvent) : Option Ua :=
  if u.enabled e then (u.run e).toOption else none

end Ua

/-- The user agent, with some transports. -/
def agent : Lts Ua UaEvent := Lts.ofNext (fun u => ∃ transports, u = { transports := transports }) Ua.next

end Autodialer
