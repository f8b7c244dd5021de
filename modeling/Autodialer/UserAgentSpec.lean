import Autodialer.Lib.Paired
import Autodialer.UserAgent
import Mathlib.Data.List.Count

/-!
# What holds between the steps of the user agent

Sessions and requests, and requests and transactions, point at one another. A session is referenced
by its user and, after it was terminated, by the request that it waits for. `Ua.Ok` says so of all
objects, but for one transaction, one request and one session, which a function may be working on.

`Conforms` is what the entries of one session look like, in the order in which they were logged.
-/

namespace Autodialer

/-! ## Histories -/

def Entry.session : Entry → SipsessId
  | .connected s | .progress s _ | .answer s | .establish s | .offer s | .close s _ _
  | .released s | .invite s _ | .bye s _ | .answered s | .peerBye s | .freed s => s

/-- The entries of a session. -/
def history (log : List Entry) (s : SipsessId) : List Entry := log.filter fun e => e.session = s

def Entry.isInvite : Entry → Bool
  | .invite _ _ => true
  | _ => false

def Entry.isBye : Entry → Bool
  | .bye _ _ => true
  | _ => false

def inviteCount (h : List Entry) : Nat := h.countP Entry.isInvite

def byeCount (h : List Entry) : Nat := h.countP Entry.isBye

/-- What has come before an entry of the session `s`. -/
def Allowed (s : SipsessId) (before : List Entry) : Entry → Prop
  | .connected _ => before = [.invite s true]
  | .progress _ _ => sessOf before s = .live ∧ .answered s ∉ before
  | .answer _ => sessOf before s = .live ∧ .answered s ∉ before
  | .establish _ => sessOf before s = .live ∧ .answered s ∈ before ∧ .establish s ∉ before
  | .offer _ | .close _ _ _ => sessOf before s = .live
  | .released _ => sessOf before s ≠ .null
  | .invite _ _ => (before = [] ∨ sessOf before s = .live) ∧ .answered s ∉ before ∧
      inviteCount before < 16
  | .answered _ => .answered s ∉ before
  | .bye _ _ => .answered s ∈ before ∧ .peerBye s ∉ before ∧ byeCount before < 16
  | .peerBye _ => True
  | .freed _ => sessOf before s = .null ∧
      (.answered s ∈ before → .peerBye s ∈ before ∨ 0 < byeCount before)

/-- Each entry of the session is allowed by those before it, and none follows its end. -/
def Conforms (s : SipsessId) (h : List Entry) : Prop :=
  ∀ before e after, h = before ++ e :: after → .freed s ∉ before ∧ Allowed s before e

variable {s s' : SipsessId} {r r' : RequestId} {c c' : CtransId} {h log : List Entry} {e : Entry}

theorem Conforms.nil : Conforms s [] := by
  intro before e after eq
  cases before <;> cases eq

theorem Conforms.snoc (conforms : Conforms s h) (alive : .freed s ∉ h) (allowed : Allowed s h e) :
    Conforms s (h ++ [e]) := by
  intro before e' after eq
  rcases List.eq_nil_or_concat after with rfl | ⟨after, last, rfl⟩
  · obtain ⟨rfl, same⟩ := List.append_inj' eq rfl
    obtain rfl : e = e' := by simpa using same
    exact ⟨alive, allowed⟩
  · rw [List.concat_eq_append, ← List.cons_append, ← List.append_assoc] at eq
    exact conforms before e' after (List.append_inj_left' eq rfl)

theorem history_snoc (log : List Entry) (e : Entry) (s : SipsessId) :
    history (log ++ [e]) s = if e.session = s then history log s ++ [e] else history log s := by
  rw [history, List.filter_append, List.filter_singleton]
  split
  next same => rw [decide_eq_true same]; rfl
  next other => rw [decide_eq_false other]; exact List.append_nil _

theorem userView_other (other : e.session ≠ s) (sess : Sess) : e.userView s sess = sess := by
  cases e <;> first | rfl | exact if_neg other

/-- The entries of other sessions do not matter. -/
theorem sessOf_history (log : List Entry) (s : SipsessId) :
    sessOf (history log s) s = sessOf log s := by
  rw [sessOf, sessOf, history, List.foldl_filter]
  refine congrArg (fun f => List.foldl f Sess.null log) (funext fun sess => funext fun e => ?_)
  split
  next => rfl
  next other => exact (userView_other (by simpa using other) sess).symm

theorem sessOf_snoc (h : List Entry) (e : Entry) (s : SipsessId) :
    sessOf (h ++ [e]) s = e.userView s (sessOf h s) := by
  rw [sessOf, List.foldl_append]
  rfl

theorem inviteCount_snoc (h : List Entry) (e : Entry) :
    inviteCount (h ++ [e]) = inviteCount h + if e.isInvite then 1 else 0 := by
  rw [inviteCount, List.countP_append, List.countP_singleton]
  rfl

theorem byeCount_snoc (h : List Entry) (e : Entry) :
    byeCount (h ++ [e]) = byeCount h + if e.isBye then 1 else 0 := by
  rw [byeCount, List.countP_append, List.countP_singleton]
  rfl

/-! ## Objects -/

/-- The time from the start of a transaction to the retransmission after `txc` others. -/
def waited (invite : Bool) : Nat → Nat
  | 0 => sipT1
  | txc + 1 =>
    waited invite txc + if invite then sipT1 <<< (txc + 1) else min (sipT1 <<< (txc + 1)) sipT2

/-- A retransmission is not early, as far as the timer `tmr` that started with the transaction
tells. -/
structure Ctrans.Timed (ct : Ctrans) : Prop where
  rings : ct.invite = true → ct.state = .proceeding → ct.tmre = none
  completed : ct.state = .completed → ct.tmre = none
  late : ∀ due, ct.tmre = some due →
    ∃ last, ct.tmr = some last ∧ last + waited ct.invite ct.txc ≤ due + 64 * sipT1
  few : ct.txc ≤ if ct.invite then 6 else 10

theorem Ctrans.Timed.quiet {ct : Ctrans} (noTimer : ct.tmre = none)
    (few : ct.txc ≤ if ct.invite then 6 else 10) : ct.Timed where
  rings _ _ := noTimer
  completed _ := noTimer
  late due isSome := by cases noTimer.symm.trans isSome
  few := few

/-- A transaction has a timer that will end it, unless it is an INVITE that rings. -/
structure Ctrans.Ok (ct : Ctrans) : Prop where
  armed : ct.tmr.isSome = true ∨ (ct.invite = true ∧ ct.state = .proceeding)
  invite : ct.invite = true → ct.state ≠ .trying ∧ ct.resph.isSome = true
  plain : ct.invite = false → ct.state ≠ .calling
  timed : ct.Timed

/-- A request waits for a transaction or for the DNS, never for both. -/
structure SipRequest.Waits (req : SipRequest) : Prop where
  pending : req.ct = none → req.dnsq.isSome = true ∨ req.dnsq2 = true
  quiet : req.ct.isSome = true → req.dnsq = none ∧ req.dnsq2 = false
  second : req.dnsq2 = true → req.dnsq = none ∨ req.dnsq = some .addr

theorem SipRequest.Waits.dns {req : SipRequest} (noCt : req.ct = none)
    (pending : req.dnsq.isSome = true ∨ req.dnsq2 = true)
    (second : req.dnsq2 = true → req.dnsq = none ∨ req.dnsq = some .addr) : req.Waits where
  pending _ := pending
  quiet isSome := by
    rw [noCt] at isSome
    cases isSome
  second := second

/-- A request belongs to a session. -/
structure SipRequest.Ok (req : SipRequest) : Prop extends req.Waits where
  reqp : req.reqp.isSome = true

/-- The transaction `ct` carries the request `req`; if that is canceled it will end. -/
structure CarriedBy (req : SipRequest) (ct : Ctrans) : Prop where
  invite : ct.invite = req.invite
  provrecv : req.provrecv = true ↔ ct.state = .proceeding
  armed : req.canceled = true → ct.state = .proceeding → ct.tmr.isSome = true

/-- The request `req` is that of the session, with the history `h`. -/
structure Pends (h : List Entry) (s : SipsessId) (sess : Sipsess) (req : SipRequest) : Prop where
  resph : req.resph = some (if sess.terminated = .ended then .bye s else .invite s)
  invite : req.invite = true ↔ sess.terminated ≠ .ended
  early : sess.terminated ≠ .ended → sess.established = false
  late : sess.terminated = .ended → sess.established = true
  canceled : sess.terminated = .waiting → req.canceled = true
  failc : sess.ls.failc ≤ 15
  invites : sess.terminated ≠ .ended → inviteCount h ≤ sess.ls.failc + 1
  byes : sess.terminated = .ended → byeCount h ≤ sess.ls.failc + 1

/-- The references of a session that waits for a request if `waits`. -/
def refs (h : List Entry) (s : SipsessId) (sess : Sipsess) (waits : Bool) : Nat :=
  (if sessOf h s = .null then 0 else 1) + if sess.terminated ≠ .no ∧ waits = true then 1 else 0

/-- A session that has ended has been hung up, if it was answered. -/
def HungUp (h : List Entry) (sess : Sipsess) : Prop :=
  sess.terminated = .ended → sess.established = true → sess.peerterm = true ∨ 0 < byeCount h

/-- The references of a session are counted, and there is one. -/
structure Referenced (h : List Entry) (s : SipsessId) (sess : Sipsess) : Prop where
  nrefs : sess.nrefs = refs h s sess sess.req.isSome
  pos : 0 < sess.nrefs
  live : sess.terminated = .no ↔ sessOf h s = .live
  hungUp : HungUp h sess

/-- The history of a session that is live. -/
structure HistoryOk (h : List Entry) (s : SipsessId) (sess : Sipsess) : Prop where
  conforms : Conforms s h
  alive : .freed s ∉ h
  answered : sess.established = true ↔ .answered s ∈ h
  peerterm : sess.peerterm = true ↔ .peerBye s ∈ h
  establish : .establish s ∈ h → sess.established = true
  noBye : sess.terminated ≠ .ended → byeCount h = 0

namespace Ua

def reqOf (u : Ua) : SipsessId → Option RequestId := u.sessions.field Sipsess.req

def reqpOf (u : Ua) : RequestId → Option SipsessId := u.requests.field SipRequest.reqp

def ctOf (u : Ua) : RequestId → Option CtransId := u.requests.field SipRequest.ct

/-- The request that waits for a transaction. -/
def argOf (u : Ua) : CtransId → Option RequestId :=
  u.ctrans.field fun ct => if ct.state = .completed then none else ct.resph

/-- `f` without what it says of `x`. -/
def without (x : Option Nat) (f : Nat → Option Nat) : Nat → Option Nat :=
  fun p => if x = some p then none else f p

/-- All objects are as they should be between two steps, except the transaction `x`, the requests
`y` and the session `z`. -/
structure Ok (u : Ua) (x : Option CtransId) (y : List RequestId) (z : Option SipsessId) : Prop where
  held : Paired u.reqOf u.reqpOf
  carried : Paired u.ctOf (without x u.argOf)
  ctrans : ∀ c ct, x ≠ some c → u.ctrans.get c = some ct → ct.Ok
  requests : ∀ r req, r ∉ y → u.requests.get r = some req → req.Ok
  carries : ∀ r req c ct, u.requests.get r = some req → req.ct = some c →
    u.ctrans.get c = some ct → CarriedBy req ct
  pends : ∀ s sess r req, z ≠ some s → u.sessions.get s = some sess → sess.req = some r →
    u.requests.get r = some req → Pends (history u.log s) s sess req
  referenced : ∀ s sess, z ≠ some s → u.sessions.get s = some sess →
    Referenced (history u.log s) s sess
  recorded : ∀ s sess, u.sessions.get s = some sess → HistoryOk (history u.log s) s sess
  gone : ∀ s, u.sessions.get s = none → Conforms s (history u.log s) ∧
    sessOf (history u.log s) s = .null ∧ (u.sessions.next ≤ s → history u.log s = [])
  usedCtrans : ∀ c, x = some c → c < u.ctrans.next
  usedRequests : ∀ r ∈ y, r < u.requests.next

/-- What a function leaves alone that works on the transaction `x` and the requests `y` for its
caller. -/
structure Frame (x : Option CtransId) (y : List RequestId) (u u' : Ua) : Prop where
  ctrans : ∀ c, x = some c → u'.ctrans.get c = u.ctrans.get c
  requests : ∀ r ∈ y, u'.requests.get r = u.requests.get r

variable {u u' u'' : Ua} {x : Option CtransId} {y : List RequestId} {z : Option SipsessId}
  {sess : Sipsess} {req : SipRequest} {ct : Ctrans}

namespace Frame

theorem refl (x : Option CtransId) (y : List RequestId) (u : Ua) : Frame x y u u :=
  ⟨fun _ _ => rfl, fun _ _ => rfl⟩

theorem trans (first : Frame x y u u') (second : Frame x y u' u'') : Frame x y u u'' :=
  ⟨fun c here => (second.ctrans c here).trans (first.ctrans c here),
    fun r mem => (second.requests r mem).trans (first.requests r mem)⟩

theorem of_eq (ctrans : u'.ctrans = u.ctrans) (requests : u'.requests = u.requests) :
    Frame x y u u' :=
  ⟨fun c _ => congrArg (fun heap => Heap.get heap c) ctrans,
    fun r _ => congrArg (fun heap => Heap.get heap r) requests⟩

end Frame

theorem follow_live {α : Type} {o : UaObj} {heap : Heap α} {p : Nat} {a : α}
    (live : heap.get p = some a) : follow o heap p = .ok a := follow_eq_ok.mpr live

theorem without_none (f : Nat → Option Nat) : without none f = f := funext fun _ => if_neg nofun

theorem without_some (f : Nat → Option Nat) (p : Nat) :
    without (some p) f = Function.update f p none := by
  funext q
  rw [without, Function.update_apply]
  split
  next here => rw [if_pos (Option.some.inj here).symm]
  next other => rw [if_neg fun same => other (congrArg some same.symm)]

theorem without_other {f : Nat → Option Nat} {p : Nat} (other : x ≠ some p) :
    without x f p = f p := if_neg other

/-- Writing elsewhere and leaving something out do not interfere. -/
theorem without_update {p : Nat} {v : Option Nat} {f : Nat → Option Nat} (other : x ≠ some p) :
    without x (Function.update f p v) = Function.update (without x f) p v := by
  funext q
  rw [without, Function.update_apply, Function.update_apply, without]
  split
  next here => rw [if_neg fun same => other (by rw [here, same])]
  next => rfl

namespace Ok

/-! ### What a pointer points to -/

theorem request_of (ok : u.Ok x y z) (live : u.sessions.get s = some sess)
    (holds : sess.req = some r) : ∃ req, u.requests.get r = some req ∧ req.reqp = some s :=
  Heap.live_of_field ((ok.held s r).mp ((Heap.field_live live).trans holds))

theorem session_of (ok : u.Ok x y z) (live : u.requests.get r = some req)
    (holds : req.reqp = some s) : ∃ sess, u.sessions.get s = some sess ∧ sess.req = some r :=
  Heap.live_of_field ((ok.held s r).mpr ((Heap.field_live live).trans holds))

theorem ctrans_of (ok : u.Ok x y z) (live : u.requests.get r = some req)
    (holds : req.ct = some c) : x ≠ some c ∧
      ∃ ct, u.ctrans.get c = some ct ∧ ct.state ≠ .completed ∧ ct.resph = some r := by
  have back := (ok.carried r c).mp ((Heap.field_live live).trans holds)
  unfold without at back
  split at back
  next => cases back
  next other =>
    obtain ⟨ct, live, arg⟩ := Heap.live_of_field back
    split at arg
    next => cases arg
    next state => exact ⟨other, ct, live, state, arg⟩

theorem carrier_of (ok : u.Ok x y z) (live : u.ctrans.get c = some ct) (out : x ≠ some c)
    (state : ct.state ≠ .completed) (resph : ct.resph = some r) :
    ∃ req, u.requests.get r = some req ∧ req.ct = some c := by
  refine Heap.live_of_field ((ok.carried r c).mpr ?_)
  rw [without, if_neg out, argOf, Heap.field_live live, if_neg state, resph]

/-! ### Sessions -/

theorem weaken (ok : u.Ok x y none) (s : SipsessId) : u.Ok x y (some s) where
  held := ok.held
  carried := ok.carried
  ctrans := ok.ctrans
  requests := ok.requests
  carries := ok.carries
  pends _ _ _ _ _ := ok.pends _ _ _ _ nofun
  referenced _ _ _ := ok.referenced _ _ nofun
  recorded := ok.recorded
  gone := ok.gone
  usedCtrans := ok.usedCtrans
  usedRequests := ok.usedRequests

/-- A new transaction is not the one that the caller works on. -/
theorem fresh (ok : u.Ok x y z) : x ≠ some u.ctrans.next := fun same =>
  absurd (ok.usedCtrans _ same) (Nat.lt_irrefl _)

theorem settle (ok : u.Ok x y (some s)) (live : u.sessions.get s = some sess)
    (referenced : Referenced (history u.log s) s sess)
    (pends : ∀ r req, sess.req = some r → u.requests.get r = some req →
      Pends (history u.log s) s sess req) : u.Ok x y none := by
  refine { ok with pends := fun s' sess' r req _ live' holds => ?_,
                   referenced := fun s' sess' _ live' => ?_ }
  · by_cases here : s' = s
    · subst here
      cases live.symm.trans live'
      exact pends r req holds
    · exact ok.pends s' sess' r req (fun same => here (Option.some.inj same).symm) live' holds
  · by_cases here : s' = s
    · subst here
      cases live.symm.trans live'
      exact referenced
    · exact ok.referenced s' sess' (fun same => here (Option.some.inj same).symm) live'

theorem setSession (ok : u.Ok x y (some s)) {f : Sipsess → Sipsess}
    (live : u.sessions.get s = some sess) (link : (f sess).req = sess.req)
    (record : HistoryOk (history u.log s) s (f sess)) : (u.setSession s f).Ok x y (some s) := by
  have same : (u.setSession s f).reqOf = u.reqOf := Heap.field_modify_eq live link
  have other : ∀ s' sess', s' ≠ s → (u.setSession s f).sessions.get s' = some sess' →
      u.sessions.get s' = some sess' := fun _ _ away => (Heap.get_modify_ne away).symm.trans
  refine { ok with held := by rw [same]; exact ok.held
                   pends := fun s' sess' r req out live' => ?_
                   referenced := fun s' sess' out live' => ?_
                   recorded := fun s' sess' live' => ?_
                   gone := fun s' dead => ?_ }
  · exact ok.pends s' sess' r req out (other s' sess' (fun same => out (by rw [same])) live')
  · exact ok.referenced s' sess' out (other s' sess' (fun same => out (by rw [same])) live')
  · rcases Heap.get_modify_cases live live' with ⟨rfl, rfl⟩ | ⟨-, old⟩
    · exact record
    · exact ok.recorded s' sess' old
  · exact ok.gone s' (Heap.get_modify_none.mp dead)

theorem loggedSet (ok : u.Ok x y (some s)) {f : Sipsess → Sipsess}
    (live : u.sessions.get s = some sess) (mine : e.session = s) (link : (f sess).req = sess.req)
    (record : HistoryOk (history u.log s ++ [e]) s (f sess)) :
    ((u.logged e).setSession s f).Ok x y (some s) := by
  have same : ((u.logged e).setSession s f).reqOf = u.reqOf := Heap.field_modify_eq live link
  have others : ∀ s', s' ≠ s → history (u.log ++ [e]) s' = history u.log s' := fun s' away => by
    rw [history_snoc, mine, if_neg away.symm]
  have here : history (u.log ++ [e]) s = history u.log s ++ [e] := by
    rw [history_snoc, mine, if_pos rfl]
  have other : ∀ s' sess', s' ≠ s → (u.setSession s f).sessions.get s' = some sess' →
      u.sessions.get s' = some sess' := fun _ _ away => (Heap.get_modify_ne away).symm.trans
  refine { ok with held := by rw [same]; exact ok.held
                   pends := fun s' sess' r req out live' => ?_
                   referenced := fun s' sess' out live' => ?_
                   recorded := fun s' sess' live' => ?_
                   gone := fun s' dead => ?_ }
  · have away : s' ≠ s := fun same => out (by rw [same])
    show _ → _ → Pends (history (u.log ++ [e]) s') s' sess' req
    rw [others s' away]
    exact ok.pends s' sess' r req out (other s' sess' away live')
  · have away : s' ≠ s := fun same => out (by rw [same])
    show Referenced (history (u.log ++ [e]) s') s' sess'
    rw [others s' away]
    exact ok.referenced s' sess' out (other s' sess' away live')
  · show HistoryOk (history (u.log ++ [e]) s') s' sess'
    rcases Heap.get_modify_cases live live' with ⟨rfl, rfl⟩ | ⟨away, old⟩
    · rw [here]
      exact record
    · rw [others s' away]
      exact ok.recorded s' sess' old
  · have isDead : u.sessions.get s' = none := Heap.get_modify_none.mp dead
    have away : s' ≠ s := fun same => by
      subst same
      cases live.symm.trans isDead
    show Conforms s' (history (u.log ++ [e]) s') ∧
      sessOf (history (u.log ++ [e]) s') s' = .null ∧
        (u.sessions.next ≤ s' → history (u.log ++ [e]) s' = [])
    rw [others s' away]
    exact ok.gone s' isDead

theorem logged (ok : u.Ok x y (some s)) (live : u.sessions.get s = some sess)
    (mine : e.session = s) (record : HistoryOk (history u.log s ++ [e]) s sess) :
    (u.logged e).Ok x y (some s) := by
  have written := ok.loggedSet (f := id) live mine rfl record
  have same : (u.logged e).setSession s id = u.logged e :=
    congrArg (fun heap => { u.logged e with sessions := heap })
      (Heap.modify_eq_self fun _ _ => rfl)
  rwa [same] at written

/-! ### Requests -/

theorem setRequest (ok : u.Ok x y z) {f : SipRequest → SipRequest}
    (live : u.requests.get r = some req) (reqp : (f req).reqp = req.reqp)
    (sameCt : (f req).ct = req.ct) (isOk : r ∉ y → (f req).Ok)
    (carries : ∀ c ct, req.ct = some c → u.ctrans.get c = some ct → CarriedBy (f req) ct)
    (pends : ∀ s sess, z ≠ some s → u.sessions.get s = some sess → sess.req = some r →
      Pends (history u.log s) s sess (f req)) : (u.setRequest r f).Ok x y z := by
  have sameReqp : (u.setRequest r f).reqpOf = u.reqpOf := Heap.field_modify_eq live reqp
  have sameCtOf : (u.setRequest r f).ctOf = u.ctOf := Heap.field_modify_eq live sameCt
  refine { ok with held := by rw [sameReqp]; exact ok.held
                   carried := by rw [sameCtOf]; exact ok.carried
                   requests := fun r' req' out live' => ?_
                   carries := fun r' req' c ct live' => ?_
                   pends := fun s sess r' req' out liveS holds live' => ?_ }
  · rcases Heap.get_modify_cases live live' with ⟨rfl, rfl⟩ | ⟨-, old⟩
    · exact isOk out
    · exact ok.requests r' req' out old
  · rcases Heap.get_modify_cases live live' with ⟨rfl, rfl⟩ | ⟨-, old⟩
    · intro holds
      exact carries c ct (sameCt.symm.trans holds)
    · exact ok.carries r' req' c ct old
  · rcases Heap.get_modify_cases live live' with ⟨rfl, rfl⟩ | ⟨-, old⟩
    · exact pends s sess out liveS holds
    · exact ok.pends s sess r' req' out liveS holds old

/-- A request that has been made is as it should be. -/
theorem fill (ok : u.Ok x (r :: y) z) (live : u.requests.get r = some req) (isOk : req.Ok) :
    u.Ok x y z := by
  refine { ok with requests := fun r' req' out live' => ?_,
                   usedRequests := fun r' mem => ok.usedRequests r' (List.mem_cons_of_mem _ mem) }
  by_cases here : r' = r
  · subst here
    cases live.symm.trans live'
    exact isOk
  · exact ok.requests r' req' (fun mem => (List.mem_cons.mp mem).elim here out) live'

theorem allocRequest (ok : u.Ok x y z) (req : SipRequest) (reqp : req.reqp = none)
    (noCt : req.ct = none) :
    ({ u with requests := u.requests.alloc req } : Ua).Ok x (u.requests.next :: y) z := by
  refine { ok with held := ?_, carried := ?_, requests := fun r req' out live => ?_,
                   carries := fun r req' c ct live holds => ?_,
                   pends := fun s sess r req' out live holds liveR => ?_,
                   usedRequests := fun r mem => ?_ }
  · have field : ({ u with requests := u.requests.alloc req } : Ua).reqpOf = Function.update u.reqpOf
        u.requests.next none := by
      rw [← reqp]
      exact Heap.field_alloc _ _ _
    rw [field]
    exact ok.held.idle_right Heap.field_next
  · have field : ({ u with requests := u.requests.alloc req } : Ua).ctOf = Function.update u.ctOf
        u.requests.next none := by
      rw [← noCt]
      exact Heap.field_alloc _ _ _
    rw [field]
    exact ok.carried.idle_left Heap.field_next
  · obtain ⟨other, out⟩ := not_or.mp fun mem => out (List.mem_cons.mpr mem)
    rcases Heap.get_alloc_cases live with ⟨here, -⟩ | ⟨-, old⟩
    · exact absurd here other
    · exact ok.requests r req' out old
  · rcases Heap.get_alloc_cases live with ⟨-, rfl⟩ | ⟨-, old⟩
    · cases noCt.symm.trans holds
    · exact ok.carries r req' c ct old holds
  · obtain ⟨_, live', -⟩ := ok.request_of live holds
    rcases Heap.get_alloc_cases liveR with ⟨here, -⟩ | ⟨-, old⟩
    · exact absurd here (Heap.ne_next live')
    · exact ok.pends s sess r req' out live holds old
  · rcases List.mem_cons.mp mem with rfl | mem
    · exact Nat.lt_succ_self _
    · exact Nat.lt_succ_of_lt (ok.usedRequests r mem)

/-- A request that nothing points to is freed. -/
theorem freeRequest (ok : u.Ok x (r :: y) z) (live : u.requests.get r = some req)
    (reqp : req.reqp = none) (noCt : req.ct = none) :
    ({ u with requests := u.requests.free r } : Ua).Ok x y z := by
  refine { ok with held := ?_, carried := ?_, requests := fun r' req' out live' => ?_,
                   carries := fun r' req' c ct live' => ok.carries r' req' c ct (Heap.get_free_cases live').2,
                   pends := fun s sess r' req' out liveS holds live' =>
                     ok.pends s sess r' req' out liveS holds (Heap.get_free_cases live').2,
                   usedRequests := fun r' mem =>
                     ok.usedRequests r' (List.mem_cons_of_mem _ mem) }
  · have field : ({ u with requests := u.requests.free r } : Ua).reqpOf =
        Function.update u.reqpOf r none := Heap.field_free _ _ _
    rw [field]
    exact ok.held.idle_right ((Heap.field_live live).trans reqp)
  · have field : ({ u with requests := u.requests.free r } : Ua).ctOf =
        Function.update u.ctOf r none := Heap.field_free _ _ _
    rw [field]
    exact ok.carried.idle_left ((Heap.field_live live).trans noCt)
  · obtain ⟨other, live'⟩ := Heap.get_free_cases live'
    exact ok.requests r' req' (fun mem => (List.mem_cons.mp mem).elim other out) live'

/-! ### Transactions -/

/-- The request that waits for a transaction. -/
abbrev argOfCtrans (ct : Ctrans) : Option RequestId :=
  if ct.state = .completed then none else ct.resph

theorem setCtrans (ok : u.Ok x y z) {f : Ctrans → Ctrans} (live : u.ctrans.get c = some ct)
    (arg : argOfCtrans (f ct) = argOfCtrans ct) (isOk : x ≠ some c → (f ct).Ok)
    (carries : ∀ r req, u.requests.get r = some req → req.ct = some c → CarriedBy req (f ct)) :
    (u.setCtrans c f).Ok x y z := by
  have sameArg : (u.setCtrans c f).argOf = u.argOf := Heap.field_modify_eq live arg
  refine { ok with carried := by rw [sameArg]; exact ok.carried
                   ctrans := fun c' ct' out live' => ?_
                   carries := fun r req c' ct' liveR holds live' => ?_ }
  · rcases Heap.get_modify_cases live live' with ⟨rfl, rfl⟩ | ⟨-, old⟩
    · exact isOk out
    · exact ok.ctrans c' ct' out old
  · rcases Heap.get_modify_cases live live' with ⟨rfl, rfl⟩ | ⟨-, old⟩
    · exact carries r req liveR holds
    · exact ok.carries r req c' ct' liveR holds old

/-- A transaction that carries no request. -/
theorem allocCtrans (ok : u.Ok x y z) {new : Ctrans} (isOk : new.Ok) (resph : new.resph = none) :
    ({ u with ctrans := u.ctrans.alloc new } : Ua).Ok x y z := by
  have field : ({ u with ctrans := u.ctrans.alloc new } : Ua).argOf =
      Function.update u.argOf u.ctrans.next none := by
    refine (Heap.field_alloc _ _ _).trans ?_
    rw [resph, ite_self]
    rfl
  refine { ok with carried := ?_, ctrans := fun c ct out live => ?_,
                   carries := fun r req c ct liveR holds live => ?_,
                   usedCtrans := fun c here => Nat.lt_succ_of_lt (ok.usedCtrans c here) }
  · rw [field, without_update ok.fresh]
    refine ok.carried.idle_right ?_
    rw [without_other ok.fresh]
    exact Heap.field_next
  · rcases Heap.get_alloc_cases live with ⟨rfl, rfl⟩ | ⟨-, old⟩
    · exact isOk
    · exact ok.ctrans c ct out old
  · rcases Heap.get_alloc_cases live with ⟨rfl, rfl⟩ | ⟨-, old⟩
    · obtain ⟨-, ct', live', -⟩ := ok.ctrans_of liveR holds
      exact absurd rfl (Heap.ne_next live')
    · exact ok.carries r req c ct liveR holds old

/-- A new transaction carries a request. -/
theorem carry (ok : u.Ok x y z) {new : Ctrans} {f : SipRequest → SipRequest}
    (live : u.requests.get r = some req) (free : req.ct = none) (isOk : new.Ok)
    (arg : argOfCtrans new = some r)
    (holds : (f req).ct = some u.ctrans.next) (reqp : (f req).reqp = req.reqp)
    (isOkR : r ∉ y → (f req).Ok) (carries : CarriedBy (f req) new)
    (pends : ∀ s sess, z ≠ some s → u.sessions.get s = some sess → sess.req = some r →
      Pends (history u.log s) s sess (f req)) :
    (({ u with ctrans := u.ctrans.alloc new } : Ua).setRequest r f).Ok x y z := by
  have args : (({ u with ctrans := u.ctrans.alloc new } : Ua).setRequest r f).argOf =
      Function.update u.argOf u.ctrans.next (some r) := by
    refine (Heap.field_alloc _ _ _).trans ?_
    rw [← arg]
    rfl
  have holders : (({ u with ctrans := u.ctrans.alloc new } : Ua).setRequest r f).ctOf =
      Function.update u.ctOf r (some u.ctrans.next) := by
    refine (Heap.field_modify live f).trans ?_
    rw [holds]
    rfl
  have reqps : (({ u with ctrans := u.ctrans.alloc new } : Ua).setRequest r f).reqpOf =
      u.reqpOf := Heap.field_modify_eq live reqp
  refine { ok with held := by rw [reqps]; exact ok.held, carried := ?_,
                   ctrans := fun c ct out live' => ?_,
                   requests := fun r' req' out live' => ?_,
                   carries := fun r' req' c ct liveR holds' live' => ?_,
                   pends := fun s sess r' req' out liveS holds' live' => ?_,
                   usedCtrans := fun c here => Nat.lt_succ_of_lt (ok.usedCtrans c here) }
  · rw [args, holders, without_update ok.fresh]
    refine ok.carried.attach ((Heap.field_live live).trans free) ?_
    rw [without_other ok.fresh]
    exact Heap.field_next
  · rcases Heap.get_alloc_cases live' with ⟨rfl, rfl⟩ | ⟨-, old⟩
    · exact isOk
    · exact ok.ctrans c ct out old
  · rcases Heap.get_modify_cases live live' with ⟨rfl, rfl⟩ | ⟨-, old⟩
    · exact isOkR out
    · exact ok.requests r' req' out old
  · rcases Heap.get_modify_cases live liveR with ⟨rfl, rfl⟩ | ⟨-, old⟩
    · obtain rfl := Option.some.inj (holds.symm.trans holds')
      cases live'.symm.trans (Heap.get_alloc_next _ _)
      exact carries
    · obtain ⟨-, ct', live'', -⟩ := ok.ctrans_of old holds'
      rcases Heap.get_alloc_cases live' with ⟨rfl, rfl⟩ | ⟨-, oldC⟩
      · exact absurd rfl (Heap.ne_next live'')
      · exact ok.carries r' req' c ct old holds' oldC
  · rcases Heap.get_modify_cases live live' with ⟨rfl, rfl⟩ | ⟨-, old⟩
    · exact pends s sess out liveS holds'
    · exact ok.pends s sess r' req' out liveS holds' old

/-- A transaction that no request waits for may be set aside. -/
theorem aside (ok : u.Ok none y z) (live : u.ctrans.get c = some ct)
    (arg : argOfCtrans ct = none) : u.Ok (some c) y z := by
  have idle : u.argOf c = none := (Heap.field_live live).trans arg
  have same : without (some c) u.argOf = without none u.argOf := by
    rw [without_some, without_none, ← idle, Function.update_eq_self]
  exact { ok with carried := by rw [same]; exact ok.carried
                  ctrans := fun c' ct _ => ok.ctrans c' ct nofun
                  usedCtrans := fun c' here => Option.some.inj here ▸ Heap.lt_next live }

theorem freeCtrans (ok : u.Ok (some c) y z) :
    ({ u with ctrans := u.ctrans.free c } : Ua).Ok none y z := by
  have field : ({ u with ctrans := u.ctrans.free c } : Ua).argOf = Function.update u.argOf c none :=
    Heap.field_free _ _ _
  refine { ok with carried := ?_, ctrans := fun c' ct _ live => ?_, usedCtrans := nofun,
                   carries := fun r req c' ct liveR holds live =>
                     ok.carries r req c' ct liveR holds (Heap.get_free_cases live).2 }
  · rw [field, without_none, ← without_some]
    exact ok.carried
  · obtain ⟨other, live⟩ := Heap.get_free_cases live
    exact ok.ctrans c' ct (fun same => other (Option.some.inj same).symm) live

/-- A transaction that is set aside, and freed or kept, is as it should be again. -/
theorem putBack (ok : u.Ok (some c) y z) (live : u.ctrans.get c = some ct) (isOk : ct.Ok)
    (arg : argOfCtrans ct = none) : u.Ok none y z := by
  have idle : u.argOf c = none := (Heap.field_live live).trans arg
  refine { ok with carried := ?_, ctrans := fun c' ct' _ live' => ?_, usedCtrans := nofun }
  · rw [without_none, ← Function.update_eq_self c u.argOf, idle, ← without_some]
    exact ok.carried
  · by_cases here : c' = c
    · subst here
      cases live.symm.trans live'
      exact isOk
    · exact ok.ctrans c' ct' (fun same => here (Option.some.inj same).symm) live'

/-- A transaction that is set aside may be written. -/
theorem setAside (ok : u.Ok (some c) y z) (f : Ctrans → Ctrans) :
    (u.setCtrans c f).Ok (some c) y z := by
  have same : without (some c) (u.setCtrans c f).argOf = without (some c) u.argOf := by
    funext c'
    unfold without
    split
    next => rfl
    next other =>
      have away : c' ≠ c := fun same => other (by rw [same])
      show (Heap.get _ c').bind _ = (Heap.get _ c').bind _
      rw [Ua.setCtrans, Heap.get_modify_ne away]
  refine { ok with carried := by rw [same]; exact ok.carried
                   ctrans := fun c' ct' out live' => ?_
                   carries := fun r req c' ct' liveR holds live' => ?_ }
  · have away : c' ≠ c := fun same => out (by rw [same])
    exact ok.ctrans c' ct' out ((Heap.get_modify_ne away).symm.trans live')
  · have away : c' ≠ c := fun same => (ok.ctrans_of liveR holds).1 (by rw [same])
    exact ok.carries r req c' ct' liveR holds ((Heap.get_modify_ne away).symm.trans live')

/-- A request and the transaction that carries it are written together. -/
theorem setPair (ok : u.Ok x y z) {f : Ctrans → Ctrans} {g : SipRequest → SipRequest}
    (live : u.ctrans.get c = some ct) (liveR : u.requests.get r = some req)
    (holds : req.ct = some c) (arg : argOfCtrans (f ct) = argOfCtrans ct) (isOk : (f ct).Ok)
    (reqp : (g req).reqp = req.reqp) (sameCt : (g req).ct = req.ct) (isOkR : r ∉ y → (g req).Ok)
    (carries : CarriedBy (g req) (f ct))
    (pends : ∀ s sess, z ≠ some s → u.sessions.get s = some sess → sess.req = some r →
      Pends (history u.log s) s sess (g req)) :
    ((u.setCtrans c f).setRequest r g).Ok x y z := by
  have sameArg : ((u.setCtrans c f).setRequest r g).argOf = u.argOf :=
    Heap.field_modify_eq live arg
  have sameReqp : ((u.setCtrans c f).setRequest r g).reqpOf = u.reqpOf :=
    Heap.field_modify_eq liveR reqp
  have sameCtOf : ((u.setCtrans c f).setRequest r g).ctOf = u.ctOf :=
    Heap.field_modify_eq liveR sameCt
  refine { ok with held := by rw [sameReqp]; exact ok.held
                   carried := by rw [sameCtOf, sameArg]; exact ok.carried
                   ctrans := fun c' ct' out live' => ?_
                   requests := fun r' req' out live' => ?_
                   carries := fun r' req' c' ct' liveR' holds' live' => ?_
                   pends := fun s sess r' req' out liveS holds' live' => ?_ }
  · rcases Heap.get_modify_cases live live' with ⟨rfl, rfl⟩ | ⟨-, old⟩
    · exact isOk
    · exact ok.ctrans c' ct' out old
  · rcases Heap.get_modify_cases liveR live' with ⟨rfl, rfl⟩ | ⟨-, old⟩
    · exact isOkR out
    · exact ok.requests r' req' out old
  · rcases Heap.get_modify_cases liveR liveR' with ⟨rfl, rfl⟩ | ⟨away, oldR⟩
    · cases holds.symm.trans (sameCt.symm.trans holds')
      rcases Heap.get_modify_cases live live' with ⟨-, rfl⟩ | ⟨away, -⟩
      · exact carries
      · exact absurd rfl away
    · rcases Heap.get_modify_cases live live' with ⟨rfl, rfl⟩ | ⟨-, old⟩
      · have one := (ok.carried r c').mp ((Heap.field_live liveR).trans holds)
        have other := (ok.carried r' c').mp ((Heap.field_live oldR).trans holds')
        exact absurd (Option.some.inj (other.symm.trans one)) away
      · exact ok.carries r' req' c' ct' oldR holds' old
  · rcases Heap.get_modify_cases liveR live' with ⟨rfl, rfl⟩ | ⟨-, old⟩
    · exact pends s sess out liveS holds'
    · exact ok.pends s sess r' req' out liveS holds' old

/-- The transaction of a request goes. -/
theorem drop (ok : u.Ok none y z) (live : u.requests.get r = some req) (holds : req.ct = some c)
    (pends : ∀ s sess, z ≠ some s → u.sessions.get s = some sess → sess.req = some r →
      Pends (history u.log s) s sess { req with ct := none }) :
    (u.setRequest r fun req => { req with ct := none }).Ok (some c) (r :: y) z := by
  have holders : (u.setRequest r fun req => { req with ct := none }).ctOf =
      Function.update u.ctOf r none := Heap.field_modify live _
  have reqps : (u.setRequest r fun req => { req with ct := none }).reqpOf = u.reqpOf :=
    Heap.field_modify_eq live rfl
  refine { ok with held := by rw [reqps]; exact ok.held, carried := ?_,
                   ctrans := fun c ct _ => ok.ctrans c ct nofun,
                   requests := fun r' req' out live' => ?_,
                   carries := fun r' req' c ct liveR holds' live' => ?_,
                   pends := fun s sess r' req' out liveS holds' live' => ?_,
                   usedCtrans := fun c' here => ?_, usedRequests := fun r' mem => ?_ }
  · rw [holders, without_some]
    have paired := ok.carried
    rw [without_none] at paired
    exact paired.detach ((Heap.field_live live).trans holds)
  · obtain ⟨away, out⟩ := not_or.mp fun mem => out (List.mem_cons.mpr mem)
    rcases Heap.get_modify_cases live live' with ⟨rfl, -⟩ | ⟨-, old⟩
    · exact absurd rfl away
    · exact ok.requests r' req' out old
  · rcases Heap.get_modify_cases live liveR with ⟨rfl, rfl⟩ | ⟨-, old⟩
    · cases holds'
    · exact ok.carries r' req' c ct old holds' live'
  · rcases Heap.get_modify_cases live live' with ⟨rfl, rfl⟩ | ⟨-, old⟩
    · exact pends s sess out liveS holds'
    · exact ok.pends s sess r' req' out liveS holds' old
  · obtain ⟨-, _, liveC, -⟩ := ok.ctrans_of live holds
    exact Option.some.inj here ▸ Heap.lt_next liveC
  · show r' < u.requests.next
    rcases List.mem_cons.mp mem with rfl | mem
    · exact Heap.lt_next live
    · exact ok.usedRequests r' mem

/-! ### Sessions and their requests -/

/-- The request of a session goes. -/
theorem part (ok : u.Ok x (r :: y) none) (live : u.sessions.get s = some sess)
    (holds : sess.req = some r) (liveR : u.requests.get r = some req) :
    ((u.setSession s fun sess => { sess with req := none }).setRequest r fun req =>
      { req with reqp := none }).Ok x (r :: y) (some s) := by
  let u' := (u.setSession s fun sess => { sess with req := none }).setRequest r fun req =>
    { req with reqp := none }
  have reqs : u'.reqOf = Function.update u.reqOf s none := Heap.field_modify live _
  have reqps : u'.reqpOf = Function.update u.reqpOf r none := Heap.field_modify liveR _
  have holders : u'.ctOf = u.ctOf := Heap.field_modify_eq liveR rfl
  have casesR : ∀ r' req', u'.requests.get r' = some req' →
      (r' = r ∧ req' = { req with reqp := none }) ∨ (r' ≠ r ∧ u.requests.get r' = some req') :=
    fun _ _ live' => Heap.get_modify_cases liveR live'
  have casesS : ∀ s' sess', u'.sessions.get s' = some sess' →
      (s' = s ∧ sess' = { sess with req := none }) ∨ (s' ≠ s ∧ u.sessions.get s' = some sess') :=
    fun _ _ live' => Heap.get_modify_cases live live'
  refine { ok with held := ?_, carried := by rw [holders]; exact ok.carried,
                   requests := fun r' req' out live' => ?_,
                   carries := fun r' req' c ct live' => ?_,
                   pends := fun s' sess' r' req' out liveS holds' live' => ?_,
                   referenced := fun s' sess' out live' => ?_,
                   recorded := fun s' sess' live' => ?_,
                   gone := fun s' dead => ?_ }
  · rw [reqs, reqps]
    exact ok.held.detach ((Heap.field_live live).trans holds)
  · rcases casesR r' req' live' with ⟨rfl, -⟩ | ⟨-, old⟩
    · exact absurd List.mem_cons_self out
    · exact ok.requests r' req' out old
  · rcases casesR r' req' live' with ⟨rfl, rfl⟩ | ⟨-, old⟩
    · exact fun holds' live'' => ⟨(ok.carries r' req c ct liveR holds' live'').invite,
        (ok.carries r' req c ct liveR holds' live'').provrecv,
        (ok.carries r' req c ct liveR holds' live'').armed⟩
    · exact ok.carries r' req' c ct old
  · rcases casesS s' sess' liveS with ⟨rfl, -⟩ | ⟨-, oldS⟩
    · exact absurd rfl out
    · rcases casesR r' req' live' with ⟨rfl, rfl⟩ | ⟨-, old⟩
      · have same := ok.held.injective ((Heap.field_live oldS).trans holds')
          ((Heap.field_live live).trans holds)
        exact absurd (congrArg some same.symm) out
      · exact ok.pends s' sess' r' req' nofun oldS holds' old
  · rcases casesS s' sess' live' with ⟨rfl, -⟩ | ⟨-, old⟩
    · exact absurd rfl out
    · exact ok.referenced s' sess' nofun old
  · rcases casesS s' sess' live' with ⟨rfl, rfl⟩ | ⟨-, old⟩
    · have record := ok.recorded s' sess live
      exact ⟨record.conforms, record.alive, record.answered, record.peerterm, record.establish,
        record.noBye⟩
    · exact ok.recorded s' sess' old
  · exact ok.gone s' (Heap.get_modify_none.mp dead)

/-- A session has a new request. -/
theorem join (ok : u.Ok x (r :: y) (some s)) (live : u.sessions.get s = some sess)
    (free : sess.req = none) (liveR : u.requests.get r = some req) (freeR : req.reqp = none)
    (isOk : ({ req with reqp := some s } : SipRequest).Ok) :
    ((u.setRequest r fun req => { req with reqp := some s }).setSession s fun sess =>
      { sess with req := some r }).Ok x y (some s) := by
  let u' := (u.setRequest r fun req => { req with reqp := some s }).setSession s fun sess =>
    { sess with req := some r }
  have reqs : u'.reqOf = Function.update u.reqOf s (some r) := Heap.field_modify live _
  have reqps : u'.reqpOf = Function.update u.reqpOf r (some s) := Heap.field_modify liveR _
  have holders : u'.ctOf = u.ctOf := Heap.field_modify_eq liveR rfl
  have casesR : ∀ r' req', u'.requests.get r' = some req' →
      (r' = r ∧ req' = { req with reqp := some s }) ∨ (r' ≠ r ∧ u.requests.get r' = some req') :=
    fun _ _ live' => Heap.get_modify_cases liveR live'
  have casesS : ∀ s' sess', u'.sessions.get s' = some sess' →
      (s' = s ∧ sess' = { sess with req := some r }) ∨ (s' ≠ s ∧ u.sessions.get s' = some sess') :=
    fun _ _ live' => Heap.get_modify_cases live live'
  refine { ok with held := ?_, carried := by rw [holders]; exact ok.carried,
                   requests := fun r' req' out live' => ?_,
                   carries := fun r' req' c ct live' => ?_,
                   pends := fun s' sess' r' req' out liveS holds' live' => ?_,
                   referenced := fun s' sess' out live' => ?_,
                   recorded := fun s' sess' live' => ?_,
                   gone := fun s' dead => ?_,
                   usedRequests := fun r' mem =>
                     ok.usedRequests r' (List.mem_cons_of_mem _ mem) }
  · rw [reqs, reqps]
    exact ok.held.attach ((Heap.field_live live).trans free) ((Heap.field_live liveR).trans freeR)
  · rcases casesR r' req' live' with ⟨rfl, rfl⟩ | ⟨away, old⟩
    · exact isOk
    · exact ok.requests r' req' (fun mem => (List.mem_cons.mp mem).elim away out) old
  · rcases casesR r' req' live' with ⟨rfl, rfl⟩ | ⟨-, old⟩
    · exact fun holds' live'' => ⟨(ok.carries r' req c ct liveR holds' live'').invite,
        (ok.carries r' req c ct liveR holds' live'').provrecv,
        (ok.carries r' req c ct liveR holds' live'').armed⟩
    · exact ok.carries r' req' c ct old
  · rcases casesS s' sess' liveS with ⟨rfl, -⟩ | ⟨-, oldS⟩
    · exact absurd rfl out
    · rcases casesR r' req' live' with ⟨rfl, rfl⟩ | ⟨-, old⟩
      · have back := (ok.held s' r').mp ((Heap.field_live oldS).trans holds')
        rw [reqpOf, Heap.field_live liveR, freeR] at back
        cases back
      · exact ok.pends s' sess' r' req' out oldS holds' old
  · rcases casesS s' sess' live' with ⟨rfl, -⟩ | ⟨-, old⟩
    · exact absurd rfl out
    · exact ok.referenced s' sess' out old
  · rcases casesS s' sess' live' with ⟨rfl, rfl⟩ | ⟨-, old⟩
    · have record := ok.recorded s' sess live
      exact ⟨record.conforms, record.alive, record.answered, record.peerterm, record.establish,
        record.noBye⟩
    · exact ok.recorded s' sess' old
  · exact ok.gone s' (Heap.get_modify_none.mp dead)

/-- A session that has ended is freed. -/
theorem freeSession (ok : u.Ok x y (some s)) (live : u.sessions.get s = some sess)
    (free : sess.req = none) (isOver : sessOf (history u.log s) s = .null)
    (hungUp : sess.established = true → sess.peerterm = true ∨ 0 < byeCount (history u.log s)) :
    (({ u with sessions := u.sessions.free s } : Ua).logged (.freed s)).Ok x y none := by
  have record := ok.recorded s sess live
  have others : ∀ s', s' ≠ s → history (u.log ++ [.freed s]) s' = history u.log s' := by
    intro s' away
    rw [history_snoc]
    exact if_neg away.symm
  have here : history (u.log ++ [.freed s]) s = history u.log s ++ [.freed s] := by
    rw [history_snoc]
    exact if_pos rfl
  have reqs : (({ u with sessions := u.sessions.free s } : Ua).logged (.freed s)).reqOf =
      Function.update u.reqOf s none := Heap.field_free _ _ _
  refine { ok with held := ?_, pends := fun s' sess' r req _ liveS => ?_,
                   referenced := fun s' sess' _ live' => ?_,
                   recorded := fun s' sess' live' => ?_,
                   gone := fun s' dead => ?_ }
  · rw [reqs]
    exact ok.held.idle_left ((Heap.field_live live).trans free)
  · obtain ⟨away, liveS⟩ := Heap.get_free_cases liveS
    show _ → _ → Pends (history (u.log ++ [.freed s]) s') s' sess' req
    rw [others s' away]
    exact ok.pends s' sess' r req (fun same => away (Option.some.inj same).symm) liveS
  · obtain ⟨away, live'⟩ := Heap.get_free_cases live'
    show Referenced (history (u.log ++ [.freed s]) s') s' sess'
    rw [others s' away]
    exact ok.referenced s' sess' (fun same => away (Option.some.inj same).symm) live'
  · obtain ⟨away, live'⟩ := Heap.get_free_cases live'
    show HistoryOk (history (u.log ++ [.freed s]) s') s' sess'
    rw [others s' away]
    exact ok.recorded s' sess' live'
  · show Conforms s' (history (u.log ++ [.freed s]) s') ∧
      sessOf (history (u.log ++ [.freed s]) s') s' = .null ∧
        (u.sessions.next ≤ s' → history (u.log ++ [.freed s]) s' = [])
    by_cases same : s' = s
    · subst same
      rw [here]
      refine ⟨record.conforms.snoc record.alive ⟨isOver, fun answered => ?_⟩, ?_, fun late => ?_⟩
      · rw [← record.peerterm]
        exact hungUp (record.answered.mpr answered)
      · rw [sessOf_snoc, isOver]
        rfl
      · exact absurd (Heap.lt_next live) (Nat.not_lt.mpr late)
    · rw [others s' same]
      exact ok.gone s' ((Heap.get_free_ne same).symm.trans dead)

/-- A session is made. -/
theorem allocSession (ok : u.Ok x y none) :
    ({ u with sessions := u.sessions.alloc {} } : Ua).Ok x y (some u.sessions.next) := by
  obtain ⟨-, -, blank⟩ := ok.gone u.sessions.next u.sessions.get_next
  have blank := blank (Nat.le_refl _)
  have reqs : ({ u with sessions := u.sessions.alloc {} } : Ua).reqOf =
      Function.update u.reqOf u.sessions.next none := Heap.field_alloc _ _ _
  refine { ok with held := ?_, pends := fun s sess r req out liveS => ?_,
                   referenced := fun s sess out live => ?_,
                   recorded := fun s sess live => ?_,
                   gone := fun s dead => ?_ }
  · rw [reqs]
    exact ok.held.idle_left Heap.field_next
  · rcases Heap.get_alloc_cases liveS with ⟨rfl, -⟩ | ⟨-, old⟩
    · exact absurd rfl out
    · exact ok.pends s sess r req nofun old
  · rcases Heap.get_alloc_cases live with ⟨rfl, -⟩ | ⟨-, old⟩
    · exact absurd rfl out
    · exact ok.referenced s sess nofun old
  · rcases Heap.get_alloc_cases live with ⟨rfl, rfl⟩ | ⟨-, old⟩
    · show HistoryOk (history u.log u.sessions.next) u.sessions.next {}
      rw [blank]
      exact ⟨.nil, nofun, iff_of_false nofun nofun, iff_of_false nofun nofun, nofun, fun _ => rfl⟩
    · exact ok.recorded s sess old
  · by_cases here : s = u.sessions.next
    · subst here
      rw [show ({ u with sessions := u.sessions.alloc {} } : Ua).sessions =
        u.sessions.alloc {} from rfl, Heap.get_alloc_next] at dead
      cases dead
    · obtain ⟨conforms, isOver, late⟩ := ok.gone s (by
        rwa [show ({ u with sessions := u.sessions.alloc {} } : Ua).sessions =
          u.sessions.alloc {} from rfl, Heap.get_alloc, if_neg here] at dead)
      exact ⟨conforms, isOver, fun next => late (Nat.le_trans (Nat.le_succ _) next)⟩

end Ok

end Ua

end Autodialer
