import Autodialer.Types

/-!
# SIP transactions and requests (`sip/ctrans.c`, `sip/request.c`)

The user agent keeps client transactions, requests and sessions that point at one another: a
session at its request, the request at the transaction that carries it, and back through the
arguments of the handlers. Requests are sent for sessions only, so `reqp` and `resph` name the
session. Messages are reduced to their status codes; `UaEnv` holds the outcomes of the calls that
leave this code (memory, sockets, the DNS client, the dialog, the authentication, the handlers of
the user). `log` is what the user and the peer see.
-/

namespace Autodialer

abbrev CtransId := Nat
abbrev RequestId := Nat
abbrev SipsessId := Nat

inductive UaObj
  | ctrans
  | request
  | sipsess
deriving DecidableEq, Repr

/-- Undefined behaviour of the user agent. -/
inductive UaFault
  /-- A pointer to a destroyed object was followed. -/
  | dangling (o : UaObj)
deriving DecidableEq, Repr

/-- A computation of the user agent, which may end in undefined behaviour. -/
abbrev UaExec := Except UaFault

def follow {α : Type} (o : UaObj) (h : Heap α) (p : Nat) : UaExec α :=
  Fallible.get? (.dangling o) (h.get p)

@[simp] theorem follow_eq_ok {α : Type} {o : UaObj} {h : Heap α} {p : Nat} {a : α} :
    follow o h p = .ok a ↔ h.get p = some a := Fallible.get?_eq_ok

/-! ## Transports -/

/-- `enum sip_transp`; `SIP_TRANSP_NONE` is no transport. -/
inductive Transp
  | udp
  | tcp
  | tls
deriving DecidableEq, Repr

inductive Family
  | inet
  | inet6
deriving DecidableEq, Repr

/-- `sip_transp_reliable` -/
def Transp.reliable : Option Transp → Bool
  | some .tcp | some .tls => true
  | some .udp | none => false

/-- The transports behind `tp` in the order of the `enum`. -/
def Transp.after : Option Transp → List Transp
  | none => [.udp, .tcp, .tls]
  | some .udp => [.tcp, .tls]
  | some .tcp => [.tls]
  | some .tls => []

/-! ## Objects -/

/-- The `enum` of states in `ctrans.c`. -/
inductive CtransState
  | trying
  | calling
  | proceeding
  | completed
deriving DecidableEq, Repr

/-- `struct sip_ctrans`. The timers hold the time when they fire; `resph` is the request whose
`response_handler` is called, or `dummy_handler`. -/
structure Ctrans where
  invite : Bool
  state : CtransState
  tp : Option Transp
  tmr : Option Nat := none
  tmre : Option Nat := none
  mbAck : Bool := false
  txc : Nat := 0
  resph : Option RequestId := none

/-- A query of the DNS client: the handler that is called. -/
inductive Query
  | naptr
  | srv
  | addr
deriving DecidableEq, Repr

/-- The handler of a request, with the session that is its argument. -/
inductive RespHandler
  | invite (s : SipsessId)
  | bye (s : SipsessId)
deriving DecidableEq, Repr

/-- `struct sip_request`. The names of SRV records are numbers. -/
structure SipRequest where
  invite : Bool
  addrl : List Addr := []
  srvl : List Nat := []
  reqp : Option SipsessId := none
  ct : Option CtransId := none
  dnsq : Option Query := none
  dnsq2 : Bool := false
  resph : Option RespHandler := none
  tp : Option Transp := none
  tpSelected : Bool := false
  canceled : Bool := false
  provrecv : Bool := false

/-- `struct sip_loopstate` -/
structure LoopState where
  failc : Nat := 0
  lastScode : Nat := 0

/-- What `sess->terminated` counts: `termwait` has been called, then `terminate`. -/
inductive Terminated
  | no
  | waiting
  | ended
deriving DecidableEq, Repr

/-- `struct sipsess`, with its reference count. The handlers are those of the user until
`termwait` puts the internal ones in their place. -/
structure Sipsess where
  nrefs : Nat := 1
  ls : LoopState := {}
  req : Option RequestId := none
  established : Bool := false
  peerterm : Bool := false
  terminated : Terminated := .no

/-- What the user and the peer see of a session. -/
inductive Entry
  /-- `sipsess_connect` has returned the session. -/
  | connected (s : SipsessId)
  | progress (s : SipsessId) (scode : Nat)
  | answer (s : SipsessId)
  | establish (s : SipsessId)
  | offer (s : SipsessId)
  | close (s : SipsessId) (err : Bool) (scode : Nat)
  /-- The `mem_deref` of the user. -/
  | released (s : SipsessId)
  /-- An INVITE request or a BYE request was made, or could not be made. -/
  | invite (s : SipsessId) (made : Bool)
  | bye (s : SipsessId) (made : Bool)
  /-- The call was answered and `sipsess_ack` called. -/
  | answered (s : SipsessId)
  | peerBye (s : SipsessId)
  | freed (s : SipsessId)
deriving DecidableEq, Repr

/-- The user agent. -/
structure Ua where
  ctrans : Heap Ctrans := Heap.empty
  requests : Heap SipRequest := Heap.empty
  sessions : Heap Sipsess := Heap.empty
  /-- The transports that were added, each for a family of addresses. -/
  transports : List (Transp × Family) := []
  log : List Entry := []

/-- Where a request goes: the parameter `transport` of the URI, the host if it is an address, and
whether the URI has a port. An unknown transport is `some none`. -/
structure Target where
  transport : Option (Option Transp) := none
  numeric : Option Addr := none
  port : Bool := true

/-- What `sip_auth_authenticate` returns: 0, EAUTH or another error. -/
inductive AuthResult
  | done
  | eauth
  | failed
deriving DecidableEq, Repr

/-- What a handler of the user calls. -/
inductive UserCall
  | connect
  | deref (s : SipsessId)
deriving DecidableEq, Repr

/-- What the calls of one step find in the world around them. -/
structure UaEnv where
  now : Nat := 0
  /-- The `n`-th attempt to write and send a request succeeds. -/
  sent : Nat → Bool := fun _ => true
  /-- A transaction can send its request again. -/
  resent : Bool := true
  /-- The request can be copied for an ACK or a CANCEL. -/
  copied : Bool := true
  /-- `sip_drequestf` has the memory it needs. -/
  requested : Bool := true
  target : Target := {}
  /-- `dnsc_query` succeeds, for all queries but those for AAAA records, and for these. -/
  query : Bool := true
  query6 : Bool := true
  /-- The addresses of the target of an SRV record in the additional section. -/
  cached : Nat → List Addr := fun _ => []
  /-- What the answer of the DNS holds: the transport of a NAPTR record, SRV targets, addresses. -/
  naptr : Option Transp := none
  srvs : List Nat := []
  addrs : List Addr := []
  /-- The calls for the dialog and the ACK return 0, and so do the handlers of the user. -/
  dialogCreate : Bool := true
  dialogUpdate : Bool := true
  ack : Bool := true
  answer : Bool := true
  authenticate : AuthResult := .done
  /-- What the handler that is called does, in the world that it finds. -/
  user : List (UserCall × UaEnv) := []

def sipT1 : Nat := 500
def sipT2 : Nat := 4000
def sipT4 : Nat := 5000
def completeWait : Nat := 32000

namespace Ua

def setCtrans (u : Ua) (c : CtransId) (f : Ctrans → Ctrans) : Ua :=
  { u with ctrans := u.ctrans.modify c f }

def setRequest (u : Ua) (r : RequestId) (f : SipRequest → SipRequest) : Ua :=
  { u with requests := u.requests.modify r f }

def setSession (u : Ua) (s : SipsessId) (f : Sipsess → Sipsess) : Ua :=
  { u with sessions := u.sessions.modify s f }

def logged (u : Ua) (e : Entry) : Ua := { u with log := u.log ++ [e] }

/-- `sip_transp_supported` -/
def transpSupported (u : Ua) (tp : Option Transp) (af : Family) : Bool :=
  tp.any fun tp => (tp, af) ∈ u.transports

def transpSupportedAny (u : Ua) (tp : Transp) : Bool :=
  u.transports.any fun added => added.1 = tp

/-- `transp_next` -/
def transpNext (u : Ua) (tp : Option Transp) : Option Transp :=
  (Transp.after tp).find? u.transpSupportedAny

/-! ## `ctrans.c` -/

/-- `sip_ctrans_request`; the transaction if the request was sent. -/
def ctransRequest (u : Ua) (env : UaEnv) (n : Nat) (invite : Bool) (tp : Option Transp)
    (resph : Option RequestId) : Ua × Option CtransId :=
  if env.sent n then
    ({ u with
        ctrans := u.ctrans.alloc
          { invite := invite
            state := if invite then .calling else .trying
            tp := tp
            tmr := some (env.now + 64 * sipT1)
            tmre := if Transp.reliable tp then none else some (env.now + sipT1)
            resph := resph } },
      some u.ctrans.next)
  else (u, none)

/-- `sip_ctrans_cancel`; its error is never looked at. -/
def ctransCancel (u : Ua) (env : UaEnv) (ct : Option CtransId) : UaExec Ua :=
  match ct with
  | none => pure u
  | some c => do
    let ct ← follow .ctrans u.ctrans c
    if ct.invite then
      if ct.state = .proceeding then
        let u := u.setCtrans c fun ct => { ct with tmr := some (env.now + 64 * sipT1) }
        if env.copied then pure (u.ctransRequest env 0 false ct.tp none).1
        else pure u
      else pure u
    else pure u

/-- `mem_deref` on a transaction. -/
def memDerefCtrans (u : Ua) (c : CtransId) : UaExec Ua := do
  let _ ← follow .ctrans u.ctrans c
  pure { u with ctrans := u.ctrans.free c }

/-! ## `request.c` -/

/-- `request`; it is the `n`-th attempt of the step. -/
def request (u : Ua) (env : UaEnv) (n : Nat) (r : RequestId) : UaExec (Ua × Bool) := do
  let req ← follow .request u.requests r
  let u := u.setRequest r fun req => { req with provrecv := false }
  match u.ctransRequest env n req.invite req.tp (some r) with
  | (u, some c) => pure (u.setRequest r fun req => { req with ct := some c }, true)
  | (u, none) => pure (u, false)

/-- `addr_lookup` -/
def addrLookup (u : Ua) (env : UaEnv) (r : RequestId) : UaExec (Ua × Bool) := do
  let req ← follow .request u.requests r
  let inet := u.transpSupported req.tp .inet
  let inet6 := u.transpSupported req.tp .inet6
  let u := if inet && env.query then u.setRequest r fun req => { req with dnsq := some .addr } else u
  if inet && !env.query then pure (u, false)
  else if inet6 && !env.query6 then pure (u, false)
  else
    let u := if inet6 then u.setRequest r fun req => { req with dnsq2 := true } else u
    pure (u, inet || inet6 || req.dnsq.isSome || req.dnsq2)

/-- The addresses that `request_next` has are tried one after the other, from the `n`-th attempt
on. -/
def requestAddrs (env : UaEnv) (r : RequestId) : Ua → Nat → List Addr → UaExec (Ua × Bool)
  | u, _, [] => pure (u, false)
  | u, n, _ :: addrl => do
    let u := u.setRequest r fun req => { req with addrl := addrl }
    let (u, sent) ← u.request env n r
    if sent then pure (u, true) else requestAddrs env r u (n + 1) addrl

/-- The loop of `request_next`: the addresses that there are, then those of the next SRV record. -/
def requestSrvs (env : UaEnv) (r : RequestId) : Ua → Nat → List Addr → List Nat → UaExec (Ua × Bool)
  | u, n, addrl, srvl => do
    let (u, sent) ← requestAddrs env r u n addrl
    if sent then pure (u, true)
    else
      match srvl with
      | [] => pure (u, false)
      | srv :: srvl =>
        let u := u.setRequest r fun req => { req with srvl := srvl, addrl := env.cached srv }
        if env.cached srv = [] then u.addrLookup env r
        else requestSrvs env r u (n + addrl.length) (env.cached srv) srvl

/-- `request_next` -/
def requestNext (u : Ua) (env : UaEnv) (r : RequestId) : UaExec (Ua × Bool) := do
  let req ← follow .request u.requests r
  requestSrvs env r u 0 req.addrl req.srvl

/-- `srv_lookup` -/
def srvLookup (u : Ua) (env : UaEnv) (r : RequestId) : UaExec (Ua × Bool) := do
  let _ ← follow .request u.requests r
  if env.query then pure (u.setRequest r fun req => { req with dnsq := some .srv }, true)
  else pure (u, false)

/-- `sip_request_cancel` -/
def requestCancel (u : Ua) (env : UaEnv) (r : RequestId) : UaExec Ua := do
  let req ← follow .request u.requests r
  if req.canceled then pure u
  else
    let u := u.setRequest r fun req => { req with canceled := true }
    if req.provrecv then u.ctransCancel env req.ct else pure u

/-- `mem_deref` on a request, which has one reference: a request that has not been completed is
canceled, and lives on without a handler. -/
def memDerefRequest (u : Ua) (env : UaEnv) (r : RequestId) : UaExec Ua := do
  let req ← follow .request u.requests r
  match req.reqp with
  | some s => do
    let _ ← follow .sipsess u.sessions s
    let u := u.setSession s fun sess => { sess with req := none }
    let u := u.setRequest r fun req => { req with reqp := none, resph := none }
    u.requestCancel env r
  | none => do
    let u ← match req.ct with
      | some c => u.memDerefCtrans c
      | none => pure u
    pure { u with requests := u.requests.free r }

/-- The transport that `sip_request` begins with, and whether it was asked for. -/
def firstTransp (u : Ua) (target : Target) : Option (Transp × Bool) :=
  match target.transport with
  | some none => none
  | some (some tp) => if u.transpSupportedAny tp then some (tp, true) else none
  | none => (u.transpNext none).map fun tp => (tp, false)

/-- The first step of `sip_request` for the new request `r`: it is sent, or a query is. -/
def requestFirst (u : Ua) (env : UaEnv) (r : RequestId) : UaExec (Ua × Bool) :=
  match u.firstTransp env.target with
  | none => pure (u, false)
  | some (tp, selected) =>
    let u := u.setRequest r fun req => { req with tp := some tp, tpSelected := selected }
    if env.target.numeric.isSome then u.request env 0 r
    else if env.target.port then u.addrLookup env r
    else if selected then u.srvLookup env r
    else if env.query then
      pure (u.setRequest r fun req => { req with dnsq := some .naptr }, true)
    else pure (u, false)

/-- `sip_drequestf` and `sip_request` for the session `s`, with `&sess->req` in the place of
`reqp`. -/
def sipRequest (u : Ua) (env : UaEnv) (invite : Bool) (s : SipsessId) (resph : RespHandler) :
    UaExec (Ua × Bool) :=
  if env.requested then do
    let r := u.requests.next
    let u := { u with requests := u.requests.alloc { invite := invite, resph := some resph } }
    let (u, made) ← u.requestFirst env r
    if made then do
      let _ ← follow .sipsess u.sessions s
      let u := u.setRequest r fun req => { req with reqp := some s }
      pure (u.setSession s fun sess => { sess with req := some r }, true)
    else do
      let u ← u.memDerefRequest env r
      pure (u, false)
  else pure (u, false)

end Ua

end Autodialer
