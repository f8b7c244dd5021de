import Autodialer.UserAgentSpec

/-!
# What the functions on requests and transactions keep

One lemma for each function. A function that is called on a request finds all else as it should be,
and leaves it so.
-/

namespace Autodialer

open Fallible

namespace Ua

variable {u u' u'' : Ua} {x : Option CtransId} {y : List RequestId} {z : Option SipsessId}
  {s : SipsessId} {r : RequestId} {c : CtransId} {sess sess' : Sipsess} {req req' : SipRequest}
  {ct : Ctrans} {h : List Entry}

theorem get_setRequest (live : u.requests.get r = some req) (f : SipRequest → SipRequest) :
    (u.setRequest r f).requests.get r = some (f req) := by
  rw [Ua.setRequest, Heap.get_modify_self, live, Option.map_some]

theorem get_setSession (live : u.sessions.get s = some sess) (f : Sipsess → Sipsess) :
    (u.setSession s f).sessions.get s = some (f sess) := by
  rw [Ua.setSession, Heap.get_modify_self, live, Option.map_some]

theorem get_setCtrans (live : u.ctrans.get c = some ct) (f : Ctrans → Ctrans) :
    (u.setCtrans c f).ctrans.get c = some (f ct) := by
  rw [Ua.setCtrans, Heap.get_modify_self, live, Option.map_some]

/-- The computation has a result, in which all is as it should be but for what its caller works
on. -/
def Ends (x : Option CtransId) (y : List RequestId) (u : Ua) (run : UaExec Ua) : Prop :=
  ∃ u', run = .ok u' ∧ u'.Ok x y none ∧ Frame x y u u'

namespace Frame

theorem setCtrans (other : x ≠ some c) (f : Ctrans → Ctrans) : Frame x y u (u.setCtrans c f) :=
  ⟨fun _ here => Heap.get_modify_ne fun same => other (by rw [here, same]), fun _ _ => rfl⟩

theorem setRequest (other : r ∉ y) (f : SipRequest → SipRequest) :
    Frame x y u (u.setRequest r f) :=
  ⟨fun _ _ => rfl, fun _ mem => Heap.get_modify_ne fun same => other (same ▸ mem)⟩

theorem allocCtrans (ok : u.Ok x y z) (new : Ctrans) :
    Frame x y u { u with ctrans := u.ctrans.alloc new } :=
  ⟨fun c here => (Heap.get_alloc _ _ _).trans (if_neg fun same => by
      rw [same] at here
      exact ok.fresh here), fun _ _ => rfl⟩

theorem allocRequest (ok : u.Ok x y z) (new : SipRequest) :
    Frame x y u { u with requests := u.requests.alloc new } :=
  ⟨fun _ _ => rfl, fun r mem => (Heap.get_alloc _ _ _).trans (if_neg fun same =>
    absurd (ok.usedRequests r mem) (by rw [same]; exact Nat.lt_irrefl _))⟩

theorem freeRequest (other : r ∉ y) : Frame x y u { u with requests := u.requests.free r } :=
  ⟨fun _ _ => rfl, fun _ mem => Heap.get_free_ne fun same => other (same ▸ mem)⟩

theorem rest (frame : Frame x (r :: y) u u') : Frame x y u u' :=
  ⟨frame.ctrans, fun r mem => frame.requests r (List.mem_cons_of_mem _ mem)⟩

end Frame

/-- A request that is being made has the same part to play for its session. -/
structure SameRole (req req' : SipRequest) : Prop where
  invite : req'.invite = req.invite
  reqp : req'.reqp = req.reqp
  resph : req'.resph = req.resph
  canceled : req'.canceled = req.canceled

namespace SameRole

theorem refl (req : SipRequest) : SameRole req req := ⟨rfl, rfl, rfl, rfl⟩

theorem trans {req'' : SipRequest} (first : SameRole req req') (second : SameRole req' req'') :
    SameRole req req'' :=
  ⟨second.invite.trans first.invite, second.reqp.trans first.reqp,
    second.resph.trans first.resph, second.canceled.trans first.canceled⟩

theorem pends (role : SameRole req req') (pends : Pends h s sess req) : Pends h s sess req' where
  resph := role.resph.trans pends.resph
  invite := by rw [role.invite]; exact pends.invite
  early := pends.early
  late := pends.late
  canceled := by rw [role.canceled]; exact pends.canceled
  failc := pends.failc
  invites := pends.invites
  byes := pends.byes

end SameRole

namespace Ok

/-- No session holds a request that names none. -/
theorem unheld (ok : u.Ok x y z) (live : u.requests.get r = some req) (reqp : req.reqp = none)
    (liveS : u.sessions.get s = some sess) : sess.req ≠ some r := by
  intro holds
  obtain ⟨req', live', back⟩ := ok.request_of liveS holds
  cases live.symm.trans live'
  cases reqp.symm.trans back

/-- A write to a request that keeps its part, while it is being worked on. -/
theorem tune (ok : u.Ok x (r :: y) z) {f : SipRequest → SipRequest}
    (live : u.requests.get r = some req) (role : SameRole req (f req)) (noCt : req.ct = none)
    (same : (f req).ct = none) : (u.setRequest r f).Ok x (r :: y) z := by
  refine ok.setRequest live role.reqp (same.trans noCt.symm)
    (fun out => absurd List.mem_cons_self out) (fun c ct holds => ?_)
    fun s sess out liveS holds => role.pends (ok.pends s sess r req out liveS holds live)
  cases noCt.symm.trans holds

theorem loosen (ok : u.Ok x y z) (live : u.requests.get r = some req) : u.Ok x (r :: y) z :=
  { ok with requests := fun r' req' out => ok.requests r' req' fun mem =>
              out (List.mem_cons_of_mem _ mem)
            usedRequests := fun r' mem => (List.mem_cons.mp mem).elim
              (fun here => here ▸ Heap.lt_next live) (ok.usedRequests r') }

end Ok

/-! ## Requests that are being made -/

/-- Nothing is waited for. -/
structure Idle (req : SipRequest) : Prop where
  ct : req.ct = none
  dnsq : req.dnsq = none
  dnsq2 : req.dnsq2 = false

/-- An attempt to send the request `r`, or to look up where it goes, ends. If it has succeeded, the
request waits for something; else it is as `left` says. -/
def Tries (x : Option CtransId) (y : List RequestId) (z : Option SipsessId) (u : Ua)
    (r : RequestId) (req : SipRequest) (left : SipRequest → Prop) (run : UaExec (Ua × Bool)) :
    Prop :=
  ∃ u' made req', run = .ok (u', made) ∧ u'.Ok x (r :: y) z ∧ Frame x y u u' ∧
    u'.sessions = u.sessions ∧ u'.log = u.log ∧ u'.requests.get r = some req' ∧
    SameRole req req' ∧ (made = true → req'.Waits) ∧ (made = false → left req')

namespace Tries

variable {left left' : SipRequest → Prop} {run : UaExec (Ua × Bool)}

theorem mono (tries : Tries x y z u r req left run) (weaker : ∀ req, left req → left' req) :
    Tries x y z u r req left' run := by
  obtain ⟨u', made, req', ran, ok, frame, sessions, log, live, role, waits, failed⟩ := tries
  exact ⟨u', made, req', ran, ok, frame, sessions, log, live, role, waits,
    fun made => weaker req' (failed made)⟩

/-- What has been written before the attempt. -/
theorem after (frame : Frame x y u u')
    (sessions : u'.sessions = u.sessions) (log : u'.log = u.log) (role : SameRole req req')
    (tries : Tries x y z u' r req' left run) : Tries x y z u r req left run := by
  obtain ⟨u'', made, req'', ran, ok, frame', sessions', log', live, role', waits, failed⟩ := tries
  exact ⟨u'', made, req'', ran, ok, frame.trans frame', sessions'.trans sessions, log'.trans log,
    live, role.trans role', waits, failed⟩

/-- The request is written first, and keeps its part. -/
theorem write {f : SipRequest → SipRequest} (ok : u.Ok x (r :: y) z) (out : r ∉ y)
    (live : u.requests.get r = some req) (noCt : req.ct = none) (role : SameRole req (f req))
    (same : (f req).ct = none)
    (next : (u.setRequest r f).Ok x (r :: y) z → (u.setRequest r f).requests.get r = some (f req) →
      Tries x y z (u.setRequest r f) r (f req) left run) : Tries x y z u r req left run := by
  have frame : Frame x y u (u.setRequest r f) := .setRequest out f
  exact .after frame rfl rfl role (next (ok.tune live role noCt same) (get_setRequest live f))

theorem fails (ok : u.Ok x (r :: y) z) (live : u.requests.get r = some req) (isLeft : left req) :
    Tries x y z u r req left (.ok (u, false)) :=
  ⟨u, false, req, rfl, ok, .refl x y u, rfl, rfl, live, .refl req, nofun, fun _ => isLeft⟩

/-- A query has been sent. -/
theorem asks (ok : u.Ok x (r :: y) z) (out : r ∉ y) (live : u.requests.get r = some req)
    (noCt : req.ct = none) {f : SipRequest → SipRequest} (role : SameRole req (f req))
    (same : (f req).ct = none) (waits : (f req).Waits) :
    Tries x y z u r req left (.ok (u.setRequest r f, true)) := by
  exact ⟨_, true, f req, rfl, ok.tune live role noCt same, .setRequest out f, rfl, rfl,
    get_setRequest live f, role, fun _ => waits, nofun⟩

end Tries

/-- The new transaction of `sip_ctrans_request`. -/
def newCtrans (env : UaEnv) (invite : Bool) (tp : Option Transp) (resph : Option RequestId) :
    Ctrans where
  invite := invite
  state := if invite then .calling else .trying
  tp := tp
  tmr := some (env.now + 64 * sipT1)
  tmre := if Transp.reliable tp then none else some (env.now + sipT1)
  resph := resph

theorem ctransRequest_eq (u : Ua) (env : UaEnv) (n : Nat) (invite : Bool) (tp : Option Transp)
    (resph : Option RequestId) : u.ctransRequest env n invite tp resph =
      if env.sent n then
        ({ u with ctrans := u.ctrans.alloc (newCtrans env invite tp resph) }, some u.ctrans.next)
      else (u, none) := rfl

theorem newCtrans_ok (env : UaEnv) {invite : Bool} (tp : Option Transp) {resph : Option RequestId}
    (answers : invite = true → resph.isSome = true) : (newCtrans env invite tp resph).Ok where
  armed := .inl rfl
  invite isInvite := by
    subst isInvite
    exact ⟨nofun, answers rfl⟩
  plain isPlain := by
    subst isPlain
    exact nofun
  timed :=
    { rings := fun isInvite proceeding => by
        subst isInvite
        cases proceeding
      completed := fun completed => by cases invite <;> cases completed
      late := fun due isSome => by
        refine ⟨_, rfl, ?_⟩
        cases reliable : Transp.reliable tp with
        | true => simp [newCtrans, reliable] at isSome
        | false =>
          obtain rfl : env.now + sipT1 = due := by simpa [newCtrans, reliable] using isSome
          show env.now + 64 * sipT1 + sipT1 ≤ env.now + sipT1 + 64 * sipT1
          omega
      few := Nat.zero_le _ }

theorem request_tries (ok : u.Ok x (r :: y) z) (out : r ∉ y) (env : UaEnv) (n : Nat)
    (live : u.requests.get r = some req) (idle : Idle req) :
    Tries x y z u r req Idle (u.request env n r) := by
  have idle' : Idle { req with provrecv := false } := ⟨idle.ct, idle.dnsq, idle.dnsq2⟩
  simp only [request, follow_live live, ok_bind, ctransRequest_eq]
  refine .write ok out live idle.ct ⟨rfl, rfl, rfl, rfl⟩ idle.ct
    (f := fun req => { req with provrecv := false }) fun ok' live' => ?_
  generalize u.setRequest r (fun req => { req with provrecv := false }) = w at ok' live'
  cases env.sent n with
  | false => exact .fails ok' live' idle'
  | true =>
    have role' : SameRole { req with provrecv := false }
        { req with provrecv := false, ct := some w.ctrans.next } := ⟨rfl, rfl, rfl, rfl⟩
    have isOk : (newCtrans env req.invite req.tp (some r)).Ok :=
      newCtrans_ok env req.tp fun _ => rfl
    have carried := ok'.carry (f := fun req => { req with ct := some w.ctrans.next }) live' idle'.ct
      isOk (by cases req.invite <;> rfl) rfl rfl (fun out => absurd List.mem_cons_self out)
      ⟨rfl, iff_of_false nofun (by cases req.invite <;> nofun),
        fun _ => by cases req.invite <;> nofun⟩
      fun s sess out liveS holds => role'.pends (ok'.pends s sess r _ out liveS holds live')
    have here : (({ w with ctrans := w.ctrans.alloc (newCtrans env req.invite req.tp (some r)) } :
        Ua).setRequest r fun req => { req with ct := some w.ctrans.next }).requests.get r =
          some { req with provrecv := false, ct := some w.ctrans.next } := by
      exact get_setRequest live' _
    exact ⟨_, true, _, rfl, carried, (Frame.allocCtrans ok' _).rest.trans (.setRequest out _), rfl, rfl,
      here, role',
      fun _ => ⟨nofun, fun _ => ⟨idle.dnsq, idle.dnsq2⟩, fun _ => .inl idle.dnsq⟩, nofun⟩

theorem requestAddrs_tries (env : UaEnv) (out : r ∉ y) (addrl : List Addr) :
    ∀ {u : Ua} {req : SipRequest} (n : Nat), u.Ok x (r :: y) z → u.requests.get r = some req →
      Idle req → Tries x y z u r req Idle (requestAddrs env r u n addrl) := by
  induction addrl with
  | nil => exact fun _ ok live idle => .fails ok live idle
  | cons a addrl ih =>
    intro u req n ok live idle
    have idle' : Idle { req with addrl := addrl } := ⟨idle.ct, idle.dnsq, idle.dnsq2⟩
    rw [requestAddrs]
    refine .write ok out live idle.ct ⟨rfl, rfl, rfl, rfl⟩ idle.ct
      (f := fun req => { req with addrl := addrl }) fun ok' live' => ?_
    obtain ⟨w, made, req', ran, ok'', frame', sessions, log, live'', role', waits, left⟩ :=
      request_tries ok' out env n live' idle'
    dsimp only
    rw [ran, ok_bind]
    cases made with
    | true => exact ⟨w, true, req', rfl, ok'', frame', sessions, log, live'', role', waits, nofun⟩
    | false => exact .after frame' sessions log role' (ih (n + 1) ok'' live'' (left rfl))

theorem addrLookup_tries (ok : u.Ok x (r :: y) z) (out : r ∉ y) (env : UaEnv)
    (live : u.requests.get r = some req) (idle : Idle req) :
    Tries x y z u r req (fun req => req.ct = none) (u.addrLookup env r) := by
  obtain ⟨noCt, noQuery, noSecond⟩ := idle
  let f : SipRequest → SipRequest := fun req => { req with dnsq := some .addr }
  let g : SipRequest → SipRequest := fun req => { req with dnsq2 := true }
  have roleF : ∀ req, SameRole req (f req) := fun _ => ⟨rfl, rfl, rfl, rfl⟩
  have roleG : ∀ req, SameRole req (g req) := fun _ => ⟨rfl, rfl, rfl, rfl⟩
  simp only [addrLookup, follow_live live, ok_bind, noQuery, noSecond]
  generalize u.transpSupported req.tp .inet = inet
  generalize u.transpSupported req.tp .inet6 = inet6
  cases inet with
  | false =>
    cases inet6 with
    | false => exact .fails ok live noCt
    | true =>
      cases env.query6 with
      | false => exact .fails ok live noCt
      | true =>
        exact .asks ok out live noCt (roleG req) noCt
          (.dns noCt (.inr rfl) fun _ => .inl noQuery)
  | true =>
    cases env.query with
    | false => exact .fails ok live noCt
    | true =>
      cases inet6 with
      | false =>
        exact .asks ok out live noCt (roleF req) noCt
          (.dns noCt (.inl rfl) fun _ => .inr rfl)
      | true =>
        cases env.query6 with
        | false =>
          exact .write ok out live noCt (roleF req) noCt fun okF liveF => .fails okF liveF noCt
        | true =>
          exact .write ok out live noCt (roleF req) noCt fun okF liveF =>
            .asks okF out liveF noCt (roleG _) noCt (.dns noCt (.inl rfl) fun _ => .inr rfl)

/-- `request_next` for lists of addresses and SRV records. -/
theorem requestSrvs_tries (env : UaEnv) (out : r ∉ y) (srvl : List Nat) :
    ∀ {u : Ua} {req : SipRequest} (n : Nat) (addrl : List Addr), u.Ok x (r :: y) z →
      u.requests.get r = some req → Idle req →
      Tries x y z u r req (fun req => req.ct = none) (requestSrvs env r u n addrl srvl) := by
  induction srvl with
  | nil =>
    intro u req n addrl ok live idle
    obtain ⟨w, made, req', ran, ok', frame, sessions, log, live', role, waits, left⟩ :=
      requestAddrs_tries env out addrl n ok live idle
    rw [requestSrvs, ran, ok_bind]
    cases made with
    | true => exact ⟨w, true, req', rfl, ok', frame, sessions, log, live', role, waits, nofun⟩
    | false => exact .after frame sessions log role (.fails ok' live' (left rfl).ct)
  | cons srv srvl ih =>
    intro u req n addrl ok live idle
    obtain ⟨w, made, req', ran, ok', frame, sessions, log, live', role, waits, left⟩ :=
      requestAddrs_tries env out addrl n ok live idle
    rw [requestSrvs, ran, ok_bind]
    cases made with
    | true => exact ⟨w, true, req', rfl, ok', frame, sessions, log, live', role, waits, nofun⟩
    | false =>
      have idle := left rfl
      have idle' : Idle { req' with srvl := srvl, addrl := env.cached srv } :=
        ⟨idle.ct, idle.dnsq, idle.dnsq2⟩
      refine .after frame sessions log role ?_
      refine .write ok' out live' idle.ct ⟨rfl, rfl, rfl, rfl⟩ idle.ct
        (f := fun req => { req with srvl := srvl, addrl := env.cached srv }) fun ok'' live'' => ?_
      dsimp only
      split
      next made => cases made
      next =>
        split
        next => exact addrLookup_tries ok'' out env live'' idle'
        next => exact ih _ _ ok'' live'' idle'

theorem requestNext_tries (ok : u.Ok x (r :: y) z) (out : r ∉ y) (env : UaEnv)
    (live : u.requests.get r = some req) (idle : Idle req) :
    Tries x y z u r req (fun req => req.ct = none) (u.requestNext env r) := by
  rw [requestNext, follow_live live, ok_bind]
  exact requestSrvs_tries env out req.srvl 0 req.addrl ok live idle

theorem srvLookup_tries (ok : u.Ok x (r :: y) z) (out : r ∉ y) (env : UaEnv)
    (live : u.requests.get r = some req) (idle : Idle req) :
    Tries x y z u r req (fun req => req.ct = none) (u.srvLookup env r) := by
  rw [srvLookup, follow_live live, ok_bind]
  cases env.query with
  | false => exact .fails ok live idle.ct
  | true =>
    refine .asks ok out live idle.ct ⟨rfl, rfl, rfl, rfl⟩ idle.ct
      (.dns idle.ct (.inl rfl) fun second => ?_)
    rw [idle.dnsq2] at second
    cases second

/-! ## Transactions and requests that are canceled or freed -/

theorem memDerefRequest_idle (env : UaEnv) (live : u.requests.get r = some req)
    (reqp : req.reqp = none) (noCt : req.ct = none) :
    u.memDerefRequest env r = .ok { u with requests := u.requests.free r } := by
  rw [memDerefRequest, follow_live live, ok_bind, reqp, noCt]
  rfl

/-- A CANCEL, if it could be sent. -/
theorem ctransRequest_plain (ok : u.Ok x y z) (env : UaEnv) (n : Nat) (tp : Option Transp) :
    (u.ctransRequest env n false tp none).1.Ok x y z ∧
      Frame x y u (u.ctransRequest env n false tp none).1 ∧
      (u.ctransRequest env n false tp none).1.requests = u.requests ∧
      (u.ctransRequest env n false tp none).1.sessions = u.sessions ∧
      (u.ctransRequest env n false tp none).1.log = u.log := by
  rw [ctransRequest_eq]
  cases env.sent n with
  | false => exact ⟨ok, .refl x y u, rfl, rfl, rfl⟩
  | true =>
    exact ⟨ok.allocCtrans (newCtrans_ok env tp nofun) rfl, .allocCtrans ok _, rfl, rfl, rfl⟩

/-- `sip_request_cancel`: the request is canceled, and a transaction that rings will end. -/
theorem requestCancel_ok (ok : u.Ok x y z) (env : UaEnv) (live : u.requests.get r = some req) :
    ∃ u', u.requestCancel env r = .ok u' ∧ u'.Ok x y z ∧ u'.sessions = u.sessions ∧
      u'.log = u.log ∧ (∀ c, x = some c → u'.ctrans.get c = u.ctrans.get c) ∧
      u'.requests = u.requests.modify r fun req => { req with canceled := true } := by
  let f : SipRequest → SipRequest := fun req => { req with canceled := true }
  rw [requestCancel, follow_live live, ok_bind]
  cases canceled : req.canceled with
  | true =>
    refine ⟨u, rfl, ok, rfl, rfl, fun _ _ => rfl, (Heap.modify_eq_self fun req' live' => ?_).symm⟩
    cases live.symm.trans live'
    rw [← canceled]
  | false =>
    have isOk : r ∉ y → (f req).Ok := fun out =>
      have isOk := ok.requests r req out live
      ⟨⟨isOk.pending, isOk.quiet, isOk.second⟩, isOk.reqp⟩
    have pends : ∀ s sess, z ≠ some s → u.sessions.get s = some sess → sess.req = some r →
        Pends (history u.log s) s sess (f req) := fun s sess out liveS holds =>
      have pends := ok.pends s sess r req out liveS holds live
      { pends with canceled := fun _ => rfl }
    dsimp only
    rw [if_neg Bool.false_ne_true]
    cases provrecv : req.provrecv with
    | false =>
      rw [if_neg Bool.false_ne_true]
      refine ⟨_, rfl, ok.setRequest live rfl rfl isOk (fun c ct holds liveC => ?_) pends, rfl, rfl,
        fun _ _ => rfl, rfl⟩
      have carries := ok.carries r req c ct live holds liveC
      refine { carries with armed := fun _ proceeding => ?_ }
      cases provrecv.symm.trans (carries.provrecv.mpr proceeding)
    | true =>
      rw [if_pos rfl]
      cases holds : req.ct with
      | none =>
        refine ⟨_, rfl, ok.setRequest live rfl rfl isOk (fun c ct holds' => ?_) pends, rfl, rfl,
          fun _ _ => rfl, rfl⟩
        cases holds.symm.trans holds'
      | some c =>
        obtain ⟨other, ct, liveC, -, -⟩ := ok.ctrans_of live holds
        have carries := ok.carries r req c ct live holds liveC
        have proceeding := carries.provrecv.mp provrecv
        have isOkC := ok.ctrans c ct other liveC
        have liveC' : (u.setRequest r f).ctrans.get c = some ct := liveC
        simp only [ctransCancel]
        rw [follow_live liveC', ok_bind]
        cases invite : ct.invite with
        | false =>
          refine ⟨_, rfl, ok.setRequest live rfl rfl isOk (fun c' ct' holds' liveC' => ?_) pends,
            rfl, rfl, fun _ _ => rfl, rfl⟩
          cases holds.symm.trans holds'
          cases liveC.symm.trans liveC'
          refine { carries with armed := fun _ _ => isOkC.armed.resolve_right fun rings => ?_ }
          cases invite.symm.trans rings.1
        | true =>
          rw [if_pos rfl, if_pos proceeding]
          let g : Ctrans → Ctrans := fun ct => { ct with tmr := some (env.now + 64 * sipT1) }
          have okG : (u.setCtrans c g).Ok x y z := by
            refine ok.setCtrans liveC rfl
              (fun _ => ⟨.inl rfl, isOkC.invite, isOkC.plain,
                .quiet (isOkC.timed.rings invite proceeding) isOkC.timed.few⟩)
              fun r' req' live' holds' => ?_
            have carries := ok.carries r' req' c ct live' holds' liveC
            exact ⟨carries.invite, carries.provrecv, fun _ _ => rfl⟩
          have okF : ((u.setCtrans c g).setRequest r f).Ok x y z := by
            refine okG.setRequest live rfl rfl isOk (fun c' ct' holds' liveC' => ?_) pends
            have carries' := okG.carries r req c' ct' live holds' liveC'
            cases holds.symm.trans holds'
            refine { carries' with armed := fun _ _ => ?_ }
            rcases Heap.get_modify_cases liveC liveC' with ⟨-, rfl⟩ | ⟨away, -⟩
            · rfl
            · exact absurd rfl away
          have frame : ∀ c', x = some c' → (u.setCtrans c g).ctrans.get c' = u.ctrans.get c' :=
            fun c' here => Heap.get_modify_ne fun same => other (by rw [here, same])
          cases env.copied with
          | false => exact ⟨_, rfl, okF, rfl, rfl, frame, rfl⟩
          | true =>
            obtain ⟨ok', frame', requests, sessions, log⟩ := ctransRequest_plain okF env 0 ct.tp
            exact ⟨_, rfl, ok', sessions, log, fun c' here =>
              (frame'.ctrans c' here).trans (frame c' here), requests⟩

theorem requestFirst_tries (ok : u.Ok x (r :: y) z) (out : r ∉ y) (env : UaEnv)
    (live : u.requests.get r = some req) (idle : Idle req) :
    Tries x y z u r req (fun req => req.ct = none) (u.requestFirst env r) := by
  rw [requestFirst]
  split
  next => exact .fails ok live idle.ct
  next tp selected _ =>
    have idle' : Idle { req with tp := some tp, tpSelected := selected } :=
      ⟨idle.ct, idle.dnsq, idle.dnsq2⟩
    refine .write ok out live idle.ct ⟨rfl, rfl, rfl, rfl⟩ idle.ct
      (f := fun req => { req with tp := some tp, tpSelected := selected }) fun ok' live' => ?_
    dsimp only
    split
    next => exact (request_tries ok' out env 0 live' idle').mono fun _ idle => idle.ct
    next =>
      split
      next => exact addrLookup_tries ok' out env live' idle'
      next =>
        split
        next => exact srvLookup_tries ok' out env live' idle'
        next =>
          split
          next =>
            refine .asks ok' out live' idle.ct ⟨rfl, rfl, rfl, rfl⟩ idle.ct
              (.dns idle.ct (.inl rfl) fun second => ?_)
            cases idle.dnsq2.symm.trans second
          next => exact .fails ok' live' idle.ct

/-- `sip_request`: the session has a new request, or nothing has happened. -/
theorem sipRequest_ok (ok : u.Ok x y (some s)) (env : UaEnv) (invite : Bool) (resph : RespHandler)
    (live : u.sessions.get s = some sess) (free : sess.req = none) :
    ∃ u' made, u.sipRequest env invite s resph = .ok (u', made) ∧ u'.Ok x y (some s) ∧
      Frame x y u u' ∧ u'.log = u.log ∧ (made = false → u'.sessions = u.sessions) ∧
      (made = true → ∃ r req, u'.requests.get r = some req ∧ req.invite = invite ∧
        req.resph = some resph ∧ req.canceled = false ∧
        u'.sessions = u.sessions.modify s fun sess => { sess with req := some r }) := by
  rw [sipRequest]
  cases env.requested with
  | false => exact ⟨u, false, rfl, ok, .refl x y u, rfl, fun _ => rfl, nofun⟩
  | true =>
    have out : u.requests.next ∉ y := fun mem => Nat.lt_irrefl _ (ok.usedRequests _ mem)
    obtain ⟨new, isNew⟩ : ∃ new : SipRequest, new = { invite := invite, resph := some resph } :=
      ⟨_, rfl⟩
    have idle : Idle new := by
      rw [isNew]
      exact ⟨rfl, rfl, rfl⟩
    have noReqp : new.reqp = none := by rw [isNew]
    obtain ⟨w, isW⟩ : ∃ w : Ua, w = { u with requests := u.requests.alloc new } := ⟨_, rfl⟩
    have frame₁ : Frame x y u w := by
      rw [isW]
      exact .allocRequest ok new
    have ok₁ : w.Ok x (u.requests.next :: y) (some s) := by
      rw [isW]
      exact ok.allocRequest new noReqp idle.ct
    have live₁ : w.requests.get u.requests.next = some new := by
      rw [isW]
      exact Heap.get_alloc_next _ _
    have sessions₁ : w.sessions = u.sessions := by rw [isW]
    have log₁ : w.log = u.log := by rw [isW]
    dsimp only
    rw [if_pos rfl, ← isNew, ← isW]
    generalize u.requests.next = r at ok₁ live₁ out
    obtain ⟨w', made, req', ran, ok', frame', sessions, log, live', role, waits, left⟩ :=
      requestFirst_tries ok₁ out env live₁ idle
    rw [ran, ok_bind]
    dsimp only
    cases made with
    | false =>
      have noReqp' := role.reqp.trans noReqp
      rw [if_neg Bool.false_ne_true, memDerefRequest_idle env live' noReqp' (left rfl), ok_bind]
      exact ⟨_, false, rfl, ok'.freeRequest live' noReqp' (left rfl),
        frame₁.trans (frame'.trans (.freeRequest out)), log.trans log₁,
        fun _ => sessions.trans sessions₁, nofun⟩
    | true =>
      have liveS : w'.sessions.get s = some sess := by rw [sessions, sessions₁, live]
      have isOk : ({ req' with reqp := some s } : SipRequest).Ok :=
        ⟨⟨(waits rfl).pending, (waits rfl).quiet, (waits rfl).second⟩, rfl⟩
      rw [if_pos rfl, follow_live liveS, ok_bind]
      subst isNew
      refine ⟨_, true, rfl, ok'.join liveS free live' (role.reqp.trans noReqp) isOk,
        frame₁.trans (frame'.trans (.trans (.setRequest out _) (.of_eq rfl rfl))), log.trans log₁,
        nofun, fun _ => ⟨r, { req' with reqp := some s }, ?_, role.invite, role.resph,
          role.canceled, ?_⟩⟩
      · exact get_setRequest live' _
      · show w'.sessions.modify s _ = _
        rw [sessions, sessions₁]

end Ua

end Autodialer
