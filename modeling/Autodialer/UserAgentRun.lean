import Autodialer.UserAgentSteps

/-!
# Runs of the user agent

Sessions, requests, transactions, timers and answers of the DNS in any order:

* `agent_runs`: every event that may occur has a result, so no callback follows a pointer to a
  transaction, a request or a session that is gone.
* `agent_conforms`: what the user and the peer see of one session obeys the rules of `Allowed`.
* `agent_quiet`, `agent_hungUp`: what follows from them, for the handlers of the user and for a call
  that was answered.
* `agent_live`, `agent_waits`: what keeps a session, and what its request waits for.
-/

namespace Autodialer

open Fallible

variable {u : Ua} {s : SipsessId} {sess : Sipsess} {h : List Entry}

/-- The peer hangs up. -/
theorem HistoryOk.peerBye (record : HistoryOk h s sess) :
    HistoryOk (h ++ [.peerBye s]) s { sess with peerterm := true } := by
  have allowed : Allowed s h (.peerBye s) := trivial
  exact record.snoc allowed nofun (or_iff_left nofun).symm (iff_of_true rfl (.inr rfl)) nofun
    fun running => ⟨running, rfl⟩

namespace Ua

/-! ## `listen.c` -/

theorem byeHandler_ok (ok : u.Ok none [] none) (env : UaEnv)
    (live : u.sessions.get s = some sess) : Keeps (u.byeHandler env s) := by
  let f : Sipsess → Sipsess := fun sess => { sess with peerterm := true }
  let w := (u.logged (.peerBye s)).setSession s f
  have referenced := ok.referenced s sess nofun live
  have same : SameCounts (history u.log s) (history w.log s) := sameCounts_logged rfl rfl rfl
  have view : sessOf (history w.log s) s = sessOf (history u.log s) s := sessOf_logged rfl
  have okW : w.Ok none [] (some s) :=
    (ok.weaken s).loggedSet live rfl rfl (ok.recorded s sess live).peerBye
  have liveW : w.sessions.get s = some (f sess) :=
    get_setSession (u := u.logged (.peerBye s)) live f
  have kept := referenced.keep same view
  have referencedW : Referenced (history w.log s) s (f sess) :=
    ⟨kept.nrefs, kept.pos, kept.live, fun _ _ => .inl rfl⟩
  have pendingW : w.Pending s (f sess) := fun r req holds liveR =>
    { (ok.pends s sess r req nofun live holds liveR).keep same with }
  rw [byeHandler, follow_live live, ok_bind]
  show Keeps (if sess.terminated ≠ .no then pure w else w.sipsessTerminate env s true 0)
  split
  next => exact ⟨w, rfl, okW.settle liveW referencedW pendingW⟩
  next running =>
    have running : sess.terminated = .no := not_not.mp running
    exact (sipsessTerminate_ok okW nofun env true 0 liveW referencedW pendingW running).keeps

theorem reinviteHandler_ok (ok : u.Ok none [] none) (env : UaEnv)
    (live : u.sessions.get s = some sess) : Keeps (u.reinviteHandler env s) := by
  have referenced := ok.referenced s sess nofun live
  rw [reinviteHandler, follow_live live, ok_bind]
  split
  next => exact ⟨u, rfl, ok⟩
  next running =>
    split
    next => exact ⟨u, rfl, ok⟩
    next =>
      have view := referenced.live.mp (not_not.mp running)
      have plain : Entry.Plain s (.offer s) := ⟨nofun, nofun, nofun, nofun⟩
      have record : HistoryOk (history u.log s ++ [.offer s]) s sess :=
        (ok.recorded s sess live).plain plain view nofun
      have same : SameCounts (history u.log s) (history (u.logged (.offer s)).log s) :=
        sameCounts_logged rfl rfl rfl
      have sameView : sessOf (history (u.logged (.offer s)).log s) s =
          sessOf (history u.log s) s := sessOf_logged rfl
      have okW := (ok.weaken s).logged (e := .offer s) live rfl record
      exact ⟨_, rfl, okW.settle live (referenced.keep same sameView) fun r req holds liveR =>
        (ok.pends s sess r req nofun live holds liveR).keep same⟩

/-! ## Steps -/

/-- Every event that may occur has a result, in which all is as it should be. -/
theorem run_ok {e : UaEvent} (ok : u.Ok none [] none) (enabled : u.enabled e = true) :
    Keeps (u.run e) := by
  cases e with
  | connect env => exact (userCall_ok ok nofun (.connect, env)).keeps
  | deref s env =>
    have held : sessOf u.log s ≠ .null := of_decide_eq_true enabled
    have kept := (userCall_ok ok nofun (.deref s, env)).keeps
    rwa [userCall, if_neg held] at kept
  | response c scode env =>
    obtain ⟨ct, live⟩ := Option.isSome_iff_exists.mp enabled
    exact responseHandler_ok ok env scode live
  | timeout c env =>
    obtain ⟨ct, live, -⟩ := Option.any_eq_true _ _ |>.mp enabled
    exact ctransFail_ok ok env live rfl rfl
  | retransmit c env =>
    obtain ⟨ct, live, due⟩ := Option.any_eq_true _ _ |>.mp enabled
    exact retransmitHandler_ok ok env live due
  | transport c env =>
    obtain ⟨ct, live, -⟩ := Option.any_eq_true _ _ |>.mp enabled
    have same : u.setCtrans c id = u :=
      congrArg (fun heap => { u with ctrans := heap }) (Heap.modify_eq_self fun _ _ => rfl)
    have kept := ctransFail_ok (f := id) ok env live rfl rfl
    rwa [same] at kept
  | dns r second env =>
    obtain ⟨req, live, waits⟩ := Option.any_eq_true _ _ |>.mp enabled
    exact queryHandler_ok ok env second live waits
  | bye s env =>
    obtain ⟨sess, live⟩ := Option.isSome_iff_exists.mp enabled
    exact byeHandler_ok ok env live
  | reinvite s env =>
    obtain ⟨sess, live⟩ := Option.isSome_iff_exists.mp enabled
    exact reinviteHandler_ok ok env live

theorem init_ok (transports : List (Transp × Family)) :
    ({ transports := transports } : Ua).Ok none [] none where
  held := Paired.empty
  carried := by
    rw [without_none]
    exact Paired.empty
  ctrans c ct _ live := by cases live
  requests r req _ live := by cases live
  carries r req c ct live := by cases live
  pends s sess r req _ live := by cases live
  referenced s sess _ live := by cases live
  recorded s sess live := by cases live
  gone s _ := ⟨.nil, rfl, fun _ => rfl⟩
  usedCtrans c here := by cases here
  usedRequests r mem := by cases mem

end Ua

/-! ## Histories that conform -/

/-- A handler of the user is called. -/
def Entry.isCallback : Entry → Bool
  | .progress _ _ | .answer _ | .establish _ | .offer _ | .close _ _ _ => true
  | _ => false

variable {before after : List Entry} {e e' : Entry}

/-- Handlers are called for a session that its user has, and that has not called the close handler
before. -/
theorem Allowed.view (allowed : Allowed s before e) (callback : e.isCallback = true) :
    sessOf before s = .live := by
  cases e with
  | progress | answer | establish => exact allowed.1
  | offer | close => exact allowed
  | connected | released | invite | bye | answered | peerBye | freed => cases callback

theorem Conforms.of_append (conforms : Conforms s (before ++ after)) : Conforms s before := by
  intro first e rest eq
  refine conforms first e (rest ++ after) ?_
  rw [eq, List.append_assoc]
  rfl

/-- Only `connected` makes a session live, and nothing but the first INVITE comes before it. -/
theorem Allowed.stays (allowed : Allowed s before e) (mem : e' ∈ before)
    (other : e' ≠ .invite s true) (ended : sessOf before s ≠ .live) :
    sessOf (before ++ [e]) s ≠ .live := by
  rw [sessOf_snoc]
  cases e with
  | connected =>
    rw [show before = [.invite s true] from allowed] at mem
    exact absurd (List.mem_singleton.mp mem) other
  | close s' =>
    show (if s' = s then Sess.terminated else sessOf before s) ≠ .live
    split
    next => decide
    next => exact ended
  | released s' =>
    show (if s' = s then Sess.null else sessOf before s) ≠ .live
    split
    next => decide
    next => exact ended
  | progress | answer | establish | offer | invite | bye | answered | peerBye | freed => exact ended

/-- A session that has ended for its user stays so, whatever comes after. -/
theorem Conforms.stays (conforms : Conforms s (before ++ after)) (mem : e' ∈ before)
    (other : e' ≠ .invite s true) (ended : sessOf before s ≠ .live) :
    sessOf (before ++ after) s ≠ .live := by
  induction after generalizing before with
  | nil => rwa [List.append_nil]
  | cons e after ih =>
    have allowed := (conforms before e after rfl).2
    rw [List.append_cons] at conforms ⊢
    exact ih conforms (List.mem_append_left _ mem) (allowed.stays mem other ended)

/-- What ends a session for its user: the close handler, or its own `mem_deref`. -/
def Entry.endsFor (s : SipsessId) (e : Entry) : Prop :=
  (∃ err scode, e = .close s err scode) ∨ e = .released s

theorem Entry.endsFor.view (ends : e.endsFor s) : sessOf (before ++ [e]) s ≠ .live := by
  rw [sessOf_snoc]
  rcases ends with ⟨err, scode, rfl⟩ | rfl <;> rw [userView, if_pos rfl] <;> nofun

/-- Behind that no handler is called. -/
theorem Conforms.quiet (conforms : Conforms s (before ++ e :: after)) (ends : e.endsFor s)
    (mem : e' ∈ after) : e'.isCallback = false := by
  obtain ⟨middle, rest, rfl⟩ := List.append_of_mem mem
  have eq : before ++ e :: (middle ++ e' :: rest) = (before ++ [e] ++ middle) ++ e' :: rest := by
    simp only [List.append_assoc, List.cons_append, List.nil_append]
  rw [eq] at conforms
  have other : e ≠ .invite s true := by rcases ends with ⟨err, scode, rfl⟩ | rfl <;> nofun
  have last : e ∈ before ++ [e] := List.mem_append_right _ List.mem_cons_self
  have ended := conforms.of_append.stays last other ends.view
  exact Bool.eq_false_iff.mpr fun callback => ended ((conforms _ e' rest rfl).2.view callback)

/-- A session that was answered has been hung up when it is freed. -/
theorem Conforms.hungUp (conforms : Conforms s h) (freed : .freed s ∈ h)
    (answered : .answered s ∈ h) : .peerBye s ∈ h ∨ 0 < byeCount h := by
  obtain ⟨before, after, rfl⟩ := List.append_of_mem freed
  obtain ⟨-, -, hungUp⟩ := conforms before (.freed s) after rfl
  have early : .answered s ∈ before := by
    rcases List.mem_append.mp answered with early | late
    · exact early
    · rcases List.mem_cons.mp late with same | late
      · cases same
      · obtain ⟨middle, rest, rfl⟩ := List.append_of_mem late
        rw [List.append_cons, ← List.append_assoc] at conforms
        have alive := (conforms _ (.answered s) rest rfl).1
        exact absurd (List.mem_append_left _ (List.mem_append_right _ List.mem_cons_self)) alive
  rcases hungUp early with bye | made
  · exact .inl (List.mem_append_left _ bye)
  · exact .inr (Nat.lt_of_lt_of_le made (List.sublist_append_left before _).countP_le)

open Ua

/-! ## Runs -/

theorem agent_ok (reach : agent.Reachable u) : u.Ok none [] none := by
  refine reach.invariant (I := fun u => u.Ok none [] none) ?_ ?_
  · rintro u ⟨transports, rfl⟩
    exact init_ok transports
  · intro u e v ok step
    obtain ⟨enabled, taken⟩ : u.enabled e = true ∧ (u.run e).toOption = some v := by
      simpa [agent, Lts.ofNext, Ua.next] using step
    obtain ⟨w, ran, okW⟩ := run_ok ok enabled
    rw [ran] at taken
    cases taken
    exact okW

/-- A call over UDP to a numeric address: it rings, is answered, and the user ends it. -/
def oneCall : List UaEvent :=
  [.connect { target := { numeric := some 1 } }, .response 0 180 {}, .response 0 200 {},
    .deref 0 { target := { numeric := some 1 } }]

/-- What is seen of it until the BYE request is answered. -/
def oneCallLog : List Entry :=
  [.invite 0 true, .connected 0, .progress 0 180, .answer 0, .answered 0, .establish 0,
    .released 0, .bye 0 true]

theorem oneCall_run : ∃ h u, agent.Execution h u ∧ u.enabled (.response 1 200 {}) = true ∧
    (u.requests.get 1).isSome = true ∧ history u.log 0 = oneCallLog := by
  obtain ⟨h, u, run, test⟩ := Lts.replay_exists agent.init Ua.next
    (s := { transports := [(.udp, .inet)] }) oneCall
    (fun _ u => decide (u.enabled (.response 1 200 {}) = true ∧
      (u.requests.get 1).isSome = true ∧ history u.log 0 = oneCallLog))
    ⟨_, rfl⟩ (by decide)
  exact ⟨h, u, run, of_decide_eq_true test⟩

/-- **No callback follows a dangling pointer.** Every event that may occur has a result. -/
theorem agent_runs {e : UaEvent} (reach : agent.Reachable u) (enabled : u.enabled e = true) :
    ∃ v, u.run e = .ok v ∧ agent.step u e v := by
  obtain ⟨v, ran, -⟩ := run_ok (agent_ok reach) enabled
  refine ⟨v, ran, ?_⟩
  show (if u.enabled e = true then (u.run e).toOption else none) = some v
  rw [if_pos enabled, ran]
  rfl

theorem agent_runs_answer : ∃ u v, u.run (.response 1 200 {}) = .ok v ∧
    agent.step u (.response 1 200 {}) v ∧ history u.log 0 = oneCallLog := by
  obtain ⟨h, u, run, enabled, -, seen⟩ := oneCall_run
  obtain ⟨v, ran, step⟩ := agent_runs run.reachable enabled
  exact ⟨u, v, ran, step, seen⟩

/-- **The histories of the sessions.** Live or freed, a session has a history that conforms. -/
theorem agent_conforms (reach : agent.Reachable u) (s : SipsessId) :
    Conforms s (history u.log s) := by
  have ok := agent_ok reach
  cases live : u.sessions.get s with
  | none => exact (ok.gone s live).1
  | some sess => exact (ok.recorded s sess live).conforms

theorem agent_conforms_call : Conforms 0 oneCallLog := by
  obtain ⟨h, u, run, -, -, seen⟩ := oneCall_run
  exact seen ▸ agent_conforms run.reachable 0

/-- **The user is left alone.** For a session that has called the close handler, or that the user
has dereffed, no handler is called any more. -/
theorem agent_quiet (reach : agent.Reachable u) (ends : e.endsFor s)
    (split : history u.log s = before ++ e :: after) : ∀ e' ∈ after, e'.isCallback = false := by
  intro e' mem
  have conforms := agent_conforms reach s
  rw [split] at conforms
  exact conforms.quiet ends mem

theorem agent_quiet_released : ∃ u, agent.Reachable u ∧ history u.log 0 = oneCallLog ∧
    ∀ e' ∈ [Entry.bye 0 true], e'.isCallback = false := by
  obtain ⟨h, u, run, -, -, seen⟩ := oneCall_run
  have split : history u.log 0 = [.invite 0 true, .connected 0, .progress 0 180, .answer 0,
      .answered 0, .establish 0] ++ .released 0 :: [.bye 0 true] := seen
  exact ⟨u, run.reachable, seen, agent_quiet run.reachable (.inr rfl) split⟩

/-- **A call that was answered is hung up.** Its session is not freed before the peer has sent a
BYE, or one was made or tried. -/
theorem agent_hungUp (reach : agent.Reachable u) (freed : .freed s ∈ history u.log s)
    (answered : .answered s ∈ history u.log s) :
    .peerBye s ∈ history u.log s ∨ 0 < byeCount (history u.log s) :=
  (agent_conforms reach s).hungUp freed answered

/-- **Nothing leaks, nothing dangles.** A session is live exactly if its user has it or a request is
pending for it. -/
theorem agent_live (reach : agent.Reachable u) (s : SipsessId) :
    (∃ sess, u.sessions.get s = some sess) ↔ sessOf u.log s ≠ .null ∨
      ∃ r req, u.requests.get r = some req ∧ req.reqp = some s := by
  have ok := agent_ok reach
  constructor
  · rintro ⟨sess, live⟩
    have referenced := ok.referenced s sess nofun live
    by_cases held : sessOf u.log s = .null
    · have pos := referenced.pos
      rw [referenced.nrefs, refs, sessOf_history, if_pos held, Nat.zero_add] at pos
      split at pos
      next waits =>
        obtain ⟨r, holds⟩ := Option.isSome_iff_exists.mp waits.2
        obtain ⟨req, liveR, back⟩ := ok.request_of live holds
        exact .inr ⟨r, req, liveR, back⟩
      next => cases pos
    · exact .inl held
  · rintro (held | ⟨r, req, liveR, back⟩)
    · cases live : u.sessions.get s with
      | none => exact absurd ((sessOf_history u.log s).symm.trans (ok.gone s live).2.1) held
      | some sess => exact ⟨sess, rfl⟩
    · obtain ⟨sess, live, -⟩ := ok.session_of liveR back
      exact ⟨sess, live⟩

/-- The user has left the call, and its session waits for the answer to the BYE. -/
theorem agent_live_released : ∃ u, agent.Reachable u ∧ history u.log 0 = oneCallLog ∧
    ((∃ sess, u.sessions.get 0 = some sess) ↔ sessOf u.log 0 ≠ .null ∨
      ∃ r req, u.requests.get r = some req ∧ req.reqp = some 0) := by
  obtain ⟨h, u, run, -, -, seen⟩ := oneCall_run
  exact ⟨u, run.reachable, seen, agent_live run.reachable 0⟩

/-- **Nothing waits for ever.** A request belongs to a session, and waits for a query of the DNS,
for a transaction with a timer that ends it, or for an INVITE transaction that rings, of a session
that the user has. -/
theorem agent_waits (reach : agent.Reachable u) {r : RequestId} {req : SipRequest}
    (live : u.requests.get r = some req) : ∃ s, req.reqp = some s ∧
      (req.dnsq.isSome = true ∨ req.dnsq2 = true ∨ ∃ c ct, req.ct = some c ∧
        u.ctrans.get c = some ct ∧ (ct.tmr.isSome = true ∨
          ct.invite = true ∧ ct.state = .proceeding ∧ sessOf u.log s = .live)) := by
  have ok := agent_ok reach
  have isOk := ok.requests r req List.not_mem_nil live
  obtain ⟨s, reqp⟩ := Option.isSome_iff_exists.mp isOk.reqp
  refine ⟨s, reqp, ?_⟩
  cases holds : req.ct with
  | none => exact (isOk.pending holds).imp id .inl
  | some c =>
    obtain ⟨-, ct, liveC, -⟩ := ok.ctrans_of live holds
    refine .inr (.inr ⟨c, ct, rfl, liveC, ?_⟩)
    rcases (ok.ctrans c ct nofun liveC).armed with armed | ⟨invite, rings⟩
    · exact .inl armed
    · obtain ⟨sess, liveS, -, referenced, pends⟩ := ok.session_pends live reqp
      have carried := ok.carries r req c ct live holds liveC
      cases terminated : sess.terminated with
      | no =>
        exact .inr ⟨invite, rings,
          (sessOf_history u.log s).symm.trans (referenced.live.mp terminated)⟩
      | waiting => exact .inl (carried.armed (pends.canceled terminated) rings)
      | ended => exact absurd terminated (pends.invite.mp (carried.invite.symm.trans invite))

/-- The BYE request waits for its answer, or for the timer of its transaction. -/
theorem agent_waits_bye : ∃ (u : Ua) (req : SipRequest), history u.log 0 = oneCallLog ∧
    u.requests.get 1 = some req ∧
    ∃ s, req.reqp = some s ∧ (req.dnsq.isSome = true ∨ req.dnsq2 = true ∨ ∃ c ct,
      req.ct = some c ∧ u.ctrans.get c = some ct ∧
        (ct.tmr.isSome = true ∨
          ct.invite = true ∧ ct.state = .proceeding ∧ sessOf u.log s = .live)) := by
  obtain ⟨h, u, run, -, pending, seen⟩ := oneCall_run
  obtain ⟨req, live⟩ := Option.isSome_iff_exists.mp pending
  exact ⟨u, req, seen, live, agent_waits run.reachable live⟩

end Autodialer
