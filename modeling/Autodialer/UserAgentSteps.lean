import Autodialer.SipsessCallbacks
import Mathlib.Order.Monotone.Basic

/-!
# What the handlers of the user agent keep

A response, a timer or an answer of the DNS reaches a request. A request that is done leaves its
session first, then calls the handler, then goes; a transaction that has given its last response is
set aside until it is freed, or waits for copies of the response.
-/

namespace Autodialer

open Fallible

namespace Ua

variable {u u' u'' : Ua} {x : Option CtransId} {y : List RequestId} {z : Option SipsessId}
  {s : SipsessId} {r : RequestId} {c : CtransId} {sess sess' : Sipsess} {req req' : SipRequest}
  {ct : Ctrans} {h : List Entry}

/-! ## `request.c` -/

/-- The session of a request. -/
theorem Ok.session_pends (ok : u.Ok x y none) (live : u.requests.get r = some req)
    (reqp : req.reqp = some s) : ∃ sess, u.sessions.get s = some sess ∧ sess.req = some r ∧
      Referenced (history u.log s) s sess ∧ Pends (history u.log s) s sess req := by
  obtain ⟨sess, liveS, holds⟩ := ok.session_of live reqp
  exact ⟨sess, liveS, holds, ok.referenced s sess nofun liveS,
    ok.pends s sess r req nofun liveS holds live⟩

/-- A request that has no transaction is terminated, then dereffed. -/
theorem requestDone_ok (ok : u.Ok x (r :: y) none) (out : r ∉ y) (apart : Apart y u) (env : UaEnv)
    (err : Bool) (scode : Nat) (live : u.requests.get r = some req) (reqp : req.reqp.isSome = true)
    (noCt : req.ct = none) (final : err = false → 200 ≤ scode) :
    Ends x y u (u.requestDone env r err scode) := by
  obtain ⟨s, reqp⟩ := Option.isSome_iff_exists.mp reqp
  obtain ⟨sess, liveS, holds, referenced, pends⟩ := ok.session_pends live reqp
  let w := (u.setSession s fun sess => { sess with req := none }).setRequest r fun req =>
    { req with reqp := none }
  have okW : w.Ok x (r :: y) (some s) := ok.part liveS holds live
  have liveW : w.sessions.get s = some { sess with req := none } := get_setSession liveS _
  have liveR : w.requests.get r = some { req with reqp := none } :=
    get_setRequest (u := u.setSession s fun sess => { sess with req := none }) live _
  have frameS : Frame x y u (u.setSession s fun sess => { sess with req := none }) :=
    .of_eq rfl rfl
  have frameW : Frame x y u w := frameS.trans (.setRequest out _)
  have apartW : Apart (r :: y) w := by
    intro r' mem
    rcases List.mem_cons.mp mem with rfl | mem
    · exact Heap.field_live liveR
    · exact apart.frame frameW r' mem
  have awaited : Awaited (history w.log s) s { sess with req := none } := by
    refine ⟨?_, rfl, referenced.live, referenced.hungUp⟩
    have nrefs := referenced.nrefs
    rw [holds] at nrefs
    exact nrefs
  obtain ⟨v, ran, okV, frameV⟩ := callResph_ok okW apartW env err scode liveW awaited
    { pends with } pends.resph final
  have liveV : v.requests.get r = some { req with reqp := none } :=
    (frameV.requests r List.mem_cons_self).trans liveR
  let f : SipRequest → SipRequest := fun req => { req with resph := none }
  have okF : (v.setRequest r f).Ok x (r :: y) none :=
    okV.setRequest liveV rfl rfl (fun out => absurd List.mem_cons_self out)
      (fun c ct holds => by cases noCt.symm.trans holds)
      fun s sess _ liveS holds => absurd holds (okV.unheld liveV rfl liveS)
  have liveF := get_setRequest liveV f
  refine ⟨_, ?_, okF.freeRequest liveF rfl noCt,
    frameW.trans (frameV.rest.trans (.trans (.setRequest out f) (.freeRequest out)))⟩
  have terminated : u.requestTerminate env r err scode = .ok (v.setRequest r f) := by
    simp only [requestTerminate, follow_live live, ok_bind, reqp, follow_live liveS, pends.resph]
    show (do
      let u ← w.callResph env _ err scode
      let _ ← follow .request u.requests r
      pure (u.setRequest r f) : UaExec Ua) = _
    rw [ran, ok_bind, follow_live liveV]
    rfl
  rw [requestDone, terminated, ok_bind]
  exact memDerefRequest_idle env liveF rfl noCt

/-- An attempt ends, and a request for which it has failed is done. -/
theorem Tries.ends {run : UaExec (Ua × Bool)}
    (tries : Tries x y none u r req (fun req => req.ct = none) run) (last : Ua → UaExec Ua)
    (reqp : req.reqp.isSome = true)
    (done : ∀ {u' req'}, u'.Ok x (r :: y) none → Frame x y u u' → u'.requests.get r = some req' →
      req'.reqp.isSome = true → req'.ct = none → Ends x y u' (last u')) :
    Ends x y u (do
      let (u, made) ← run
      if made then pure u else last u) := by
  obtain ⟨w, made, req', ran, ok, frame, -, -, live, role, waits, left⟩ := tries
  have reqp' : req'.reqp.isSome = true := by rw [role.reqp]; exact reqp
  rw [ran, ok_bind]
  cases made with
  | true => exact ⟨w, rfl, ok.fill live { waits rfl with reqp := reqp' }, frame⟩
  | false =>
    obtain ⟨v, ranV, okV, frame'⟩ := done ok frame live reqp' (left rfl)
    exact ⟨v, ranV, okV, frame.trans frame'⟩

theorem requestNextOrDone_ok (ok : u.Ok x (r :: y) none) (out : r ∉ y) (apart : Apart y u)
    (env : UaEnv) (scode : Nat) (live : u.requests.get r = some req)
    (reqp : req.reqp.isSome = true) (idle : Idle req) :
    Ends x y u (u.requestNextOrDone env r scode) :=
  (requestNext_tries ok out env live idle).ends _ reqp fun ok' frame live' reqp' noCt =>
    requestDone_ok ok' out (apart.frame frame) env true scode live' reqp' noCt nofun

theorem lookedUp_ok (apart : Apart y u) (out : r ∉ y) (env : UaEnv) {run : UaExec (Ua × Bool)}
    (tries : Tries x y none u r req (fun req => req.ct = none) run)
    (reqp : req.reqp.isSome = true) : Ends x y u (run >>= lookedUp env r) := by
  have ends := tries.ends (fun u => u.requestDone env r true 0) reqp
    fun ok' frame live' reqp' noCt =>
      requestDone_ok ok' out (apart.frame frame) env true 0 live' reqp' noCt nofun
  refine (congrArg (Ends x y u) (congrArg (run >>= ·) (funext fun looked => ?_))).mpr ends
  obtain ⟨w, made⟩ := looked
  cases made <;> rfl

/-! ## Responses -/

theorem setCtrans_setCtrans (u : Ua) (c : CtransId) (f g : Ctrans → Ctrans) :
    (u.setCtrans c f).setCtrans c g = u.setCtrans c fun ct => g (f ct) := by
  rw [setCtrans, setCtrans, setCtrans, Heap.modify_modify]

/-- A transaction gives its last response; it is set aside. -/
theorem ctransResph_final (ok : u.Ok none [] none) (env : UaEnv) (f : Ctrans → Ctrans)
    (err : Bool) (scode : Nat) (live : u.ctrans.get c = some ct) (state : ct.state ≠ .completed)
    (final : err = false → 200 ≤ scode) :
    ∃ u', (u.setCtrans c f).ctransResph env ct.resph err scode = .ok u' ∧
      u'.Ok (some c) [] none ∧ u'.ctrans.get c = some (f ct) := by
  have liveF := get_setCtrans live f
  cases resph : ct.resph with
  | none =>
    have arg : Ok.argOfCtrans ct = none := by rw [Ok.argOfCtrans, resph, ite_self]
    exact ⟨_, rfl, (ok.aside live arg).setAside f, liveF⟩
  | some r =>
    obtain ⟨req, liveR, holds⟩ := ok.carrier_of live nofun state resph
    have isOk := ok.requests r req List.not_mem_nil liveR
    obtain ⟨noQuery, noSecond⟩ := isOk.quiet (by rw [holds]; rfl)
    let g : SipRequest → SipRequest := fun req => { req with ct := none }
    let w := (u.setRequest r g).setCtrans c f
    have okW : w.Ok (some c) [r] none := (ok.drop liveR holds fun s sess _ liveS holds' =>
      { ok.pends s sess r req nofun liveS holds' liveR with }).setAside f
    have liveW : w.requests.get r = some (g req) := get_setRequest liveR g
    have ends : Ends (some c) [] w (if !req.canceled && (err || scode = 503) &&
        (req.addrl ≠ [] || req.srvl ≠ []) then w.requestNextOrDone env r scode
        else w.requestDone env r err scode) := by
      split
      next =>
        exact requestNextOrDone_ok okW List.not_mem_nil nofun env scode liveW isOk.reqp
          ⟨rfl, noQuery, noSecond⟩
      next =>
        exact requestDone_ok okW List.not_mem_nil nofun env err scode liveW isOk.reqp rfl final
    obtain ⟨v, ran, okV, frame⟩ := ends
    refine ⟨v, ?_, okV, (frame.ctrans c rfl).trans liveF⟩
    have liveR' : (u.setCtrans c f).requests.get r = some req := liveR
    have late : (!err && decide (scode < 200)) = false := by
      cases err with
      | true => rfl
      | false => exact decide_eq_false (Nat.not_lt.mpr (final rfl))
    rw [ctransResph, requestResponse, follow_live liveR', ok_bind, late, if_neg Bool.false_ne_true]
    exact ran

/-- A write that leaves a transaction where it is. -/
structure Stays (ct ct' : Ctrans) : Prop where
  state : ct'.state = ct.state
  invite : ct'.invite = ct.invite
  resph : ct'.resph = ct.resph
  txc : ct'.txc = ct.txc

/-- What a provisional response does to a transaction. -/
structure Rings (ct ct' : Ctrans) : Prop where
  state : ct'.state = .proceeding
  invite : ct'.invite = ct.invite
  resph : ct'.resph = ct.resph
  isOk : ct'.Ok
  tmr : ct.state = .proceeding → ct'.tmr = ct.tmr

theorem Rings.arg {ct' : Ctrans} (rings : Rings ct ct') (state : ct.state ≠ .completed) :
    Ok.argOfCtrans ct' = Ok.argOfCtrans ct := by
  rw [Ok.argOfCtrans, Ok.argOfCtrans, rings.state, rings.resph, if_neg nofun, if_neg state]

theorem Rings.intro {k : Ctrans} (isOk : ct.Ok) (stays : Stays ct k)
    (armed : k.tmr.isSome = true ∨ ct.invite = true)
    (tmr : ct.state = .proceeding → k.tmr = ct.tmr) (quiet : ct.invite = true → k.tmre = none)
    (plain : ct.invite = false → k = ct) : Rings ct { k with state := .proceeding } where
  state := rfl
  invite := stays.invite
  resph := stays.resph
  isOk :=
    { armed := armed.imp_right fun invite => ⟨stays.invite.trans invite, rfl⟩
      invite := fun invite => ⟨(nofun : CtransState.proceeding ≠ .trying), by
        rw [stays.resph]
        exact (isOk.invite (stays.invite.symm.trans invite)).2⟩
      plain := fun _ => (nofun : CtransState.proceeding ≠ .calling)
      timed :=
        { rings := fun invite _ => quiet (stays.invite.symm.trans invite)
          completed := fun completed => by cases completed
          late := fun due isSome => by
            cases invite : ct.invite with
            | true => cases (quiet invite).symm.trans isSome
            | false =>
              cases plain invite
              exact isOk.timed.late due isSome
          few := by
            rw [stays.txc, stays.invite]
            exact isOk.timed.few } }
  tmr := tmr

/-- The first provisional response for a request. If that has been canceled, its transaction is
now. -/
theorem firstProvisional_ok (ok : u.Ok none [] none) (env : UaEnv) {f : Ctrans → Ctrans}
    (live : u.ctrans.get c = some ct) (state : ct.state ≠ .completed) (rings : Rings ct (f ct))
    (liveR : u.requests.get r = some req) (holds : req.ct = some c) :
    ∃ u', (do
        let u := (u.setCtrans c f).setRequest r fun req => { req with provrecv := true }
        if req.canceled then u.ctransCancel env req.ct else pure u : UaExec Ua) = .ok u' ∧
      u'.Ok none [] none ∧ u'.sessions = u.sessions ∧ u'.log = u.log ∧
      u'.requests.get r = some { req with provrecv := true } := by
  let g : SipRequest → SipRequest := fun req => { req with provrecv := true }
  have isOk := ok.requests r req List.not_mem_nil liveR
  have isOkG : (g req).Ok := ⟨⟨isOk.pending, isOk.quiet, isOk.second⟩, isOk.reqp⟩
  have carries := ok.carries r req c ct liveR holds live
  have pends : ∀ s sess, none ≠ some s → u.sessions.get s = some sess → sess.req = some r →
      Pends (history u.log s) s sess (g req) := fun s sess out liveS holds' =>
    { ok.pends s sess r req out liveS holds' liveR with }
  -- the timer of a transaction that is canceled is started again
  have pair : ∀ k : Ctrans → Ctrans, Rings ct (k ct) →
      (req.canceled = true → (k ct).tmr.isSome = true) →
      ((u.setCtrans c k).setRequest r g).Ok none [] none := fun k rings armed =>
    ok.setPair live liveR holds (rings.arg state) rings.isOk rfl rfl (fun _ => isOkG)
      ⟨rings.invite.trans carries.invite, iff_of_true rfl rings.state,
        fun canceled _ => armed canceled⟩ pends
  have here : ((u.setCtrans c f).setRequest r g).requests.get r = some (g req) :=
    get_setRequest (u := u.setCtrans c f) liveR g
  show ∃ u', (if req.canceled then ((u.setCtrans c f).setRequest r g).ctransCancel env req.ct
      else pure ((u.setCtrans c f).setRequest r g) : UaExec Ua) = .ok u' ∧ u'.Ok none [] none ∧
    u'.sessions = u.sessions ∧ u'.log = u.log ∧ u'.requests.get r = some (g req)
  by_cases canceled : req.canceled = true
  · have liveF : ((u.setCtrans c f).setRequest r g).ctrans.get c = some (f ct) :=
      get_setCtrans live f
    rw [if_pos canceled, holds]
    simp only [ctransCancel]
    rw [follow_live liveF, ok_bind]
    cases invite : (f ct).invite with
    | false =>
      refine ⟨_, rfl, pair f rings fun _ => rings.isOk.armed.resolve_right fun rung => ?_, rfl, rfl,
        here⟩
      cases invite.symm.trans rung.1
    | true =>
      let k : Ctrans → Ctrans := fun ct => { f ct with tmr := some (env.now + 64 * sipT1) }
      have okK : ((u.setCtrans c k).setRequest r g).Ok none [] none := by
        refine ok.setPair live liveR holds (rings.arg state)
          ⟨.inl rfl, rings.isOk.invite, rings.isOk.plain,
            .quiet (rings.isOk.timed.rings invite rings.state) rings.isOk.timed.few⟩
          rfl rfl (fun _ => isOkG)
          ⟨rings.invite.trans carries.invite, iff_of_true rfl rings.state, fun _ _ => rfl⟩ pends
      have both : ((u.setCtrans c f).setRequest r g).setCtrans c (fun ct =>
          { ct with tmr := some (env.now + 64 * sipT1) }) = (u.setCtrans c k).setRequest r g :=
        congrArg (fun u => setRequest u r g) (setCtrans_setCtrans u c f _)
      rw [if_pos rfl, if_pos rings.state, both]
      cases env.copied with
      | false => exact ⟨_, rfl, okK, rfl, rfl, here⟩
      | true =>
        obtain ⟨okV, -, requests, sessions, log⟩ := ctransRequest_plain okK env 0 (f ct).tp
        exact ⟨_, rfl, okV, sessions, log, by rw [requests]; exact here⟩
  · rw [if_neg canceled]
    exact ⟨_, rfl, pair f rings fun yes => absurd yes canceled, rfl, rfl, here⟩

/-- The handler of a request is called with a provisional response. -/
theorem progress_ok (ok : u.Ok none [] none) (env : UaEnv) {scode : Nat}
    (live : u.requests.get r = some req) (provisional : scode < 200) :
    Ends none [] u (match req.resph with
      | some resph => u.callResph env resph false scode
      | none => pure u) := by
  obtain ⟨s, reqp⟩ := Option.isSome_iff_exists.mp (ok.requests r req List.not_mem_nil live).reqp
  obtain ⟨sess, liveS, holds, referenced, pends⟩ := ok.session_pends live reqp
  rw [pends.resph]
  exact callResph_progress (ok.weaken s) nofun env scode liveS referenced
    (fun r' req' holds' live' => ok.pends s sess r' req' nofun liveS holds' live') pends pends.resph
    provisional

theorem ctransResph_provisional (ok : u.Ok none [] none) (env : UaEnv) {f : Ctrans → Ctrans}
    (scode : Nat) (live : u.ctrans.get c = some ct) (state : ct.state ≠ .completed)
    (rings : Rings ct (f ct)) (provisional : scode < 200) :
    Ends none [] u ((u.setCtrans c f).ctransResph env ct.resph false scode) := by
  cases resph : ct.resph with
  | none =>
    refine ⟨_, rfl, ok.setCtrans live (rings.arg state) (fun _ => rings.isOk) fun r req liveR holds => ?_,
      ⟨nofun, nofun⟩⟩
    obtain ⟨-, ct', live', -, arg⟩ := ok.ctrans_of liveR holds
    cases live.symm.trans live'
    cases resph.symm.trans arg
  | some r =>
    obtain ⟨req, liveR, holds⟩ := ok.carrier_of live nofun state resph
    have liveF : (u.setCtrans c f).requests.get r = some req := liveR
    have carries := ok.carries r req c ct liveR holds live
    rw [ctransResph, requestResponse, follow_live liveF, ok_bind]
    simp only [Bool.not_false, Bool.true_and, provisional, decide_true, if_true]
    by_cases provrecv : req.provrecv = true
    · have ringing := carries.provrecv.mp provrecv
      have okF : (u.setCtrans c f).Ok none [] none := by
        refine ok.setCtrans live (rings.arg state) (fun _ => rings.isOk) fun r' req' liveR' holds' => ?_
        obtain ⟨-, ct', live', -, arg⟩ := ok.ctrans_of liveR' holds'
        cases live.symm.trans live'
        cases resph.symm.trans arg
        cases liveR.symm.trans liveR'
        refine ⟨rings.invite.trans carries.invite, iff_of_true provrecv rings.state, fun canceled _ => ?_⟩
        rw [rings.tmr ringing]
        exact carries.armed canceled ringing
      rw [if_pos provrecv]
      obtain ⟨v, ran, okV, -⟩ := progress_ok okF env liveF provisional
      exact ⟨v, ran, okV, ⟨nofun, nofun⟩⟩
    · obtain ⟨w, ranW, okW, -, -, liveW⟩ := firstProvisional_ok ok env live state rings liveR holds
      obtain ⟨v, ran, okV, -⟩ := progress_ok okW env liveW provisional
      refine ⟨v, ?_, okV, ⟨nofun, nofun⟩⟩
      rw [if_neg provrecv]
      dsimp only at ranW
      by_cases canceled : req.canceled = true
      · rw [if_pos canceled] at ranW ⊢
        rw [ranW, ok_bind]
        exact ran
      · rw [if_neg canceled] at ranW ⊢
        cases ranW
        exact ran

/-! ## `ctrans.c` -/

/-- The computation has a result in which all is as it should be. -/
def Keeps (run : UaExec Ua) : Prop := ∃ u', run = .ok u' ∧ u'.Ok none [] none

theorem Ends.keeps {run : UaExec Ua} (ends : Ends none [] u run) : Keeps run := by
  obtain ⟨u', ran, ok, -⟩ := ends
  exact ⟨u', ran, ok⟩

theorem memDerefCtrans_ok (ok : u.Ok (some c) [] none) (live : u.ctrans.get c = some ct) :
    Keeps (u.memDerefCtrans c) := by
  rw [memDerefCtrans, follow_live live]
  exact ⟨_, rfl, ok.freeCtrans⟩

/-- A transaction fails, after its timers were written. -/
theorem ctransFail_ok (ok : u.Ok none [] none) (env : UaEnv) {f : Ctrans → Ctrans}
    (live : u.ctrans.get c = some ct) (state : (f ct).state = ct.state)
    (resph : (f ct).resph = ct.resph) : Keeps ((u.setCtrans c f).ctransFail env c) := by
  have liveF := get_setCtrans live f
  rw [ctransFail, follow_live liveF, ok_bind, state, resph]
  split
  next completed =>
    have arg : Ok.argOfCtrans ct = none := if_pos completed
    exact memDerefCtrans_ok ((ok.aside live arg).setAside f) liveF
  next pending =>
    obtain ⟨v, ran, okV, liveV⟩ := ctransResph_final ok env f true 0 live pending nofun
    rw [ran, ok_bind]
    exact memDerefCtrans_ok okV liveV

theorem waited_monotone (invite : Bool) : Monotone (waited invite) :=
  monotone_nat_of_le_succ fun _ => Nat.le_add_right _ _

/-- A transaction ends before it has been retransmitted too often. -/
theorem lt_of_waited {invite : Bool} {txc : Nat} (early : waited invite txc ≤ 64 * sipT1) :
    txc < if invite then 6 else 10 := by
  by_contra many
  have late := Nat.le_trans (waited_monotone invite (Nat.not_lt.mp many)) early
  cases invite with
  | true => exact absurd late (by decide)
  | false => exact absurd late (by decide)

theorem fires_iff {now : Nat} {due other : Option Nat} :
    fires now due other = true ↔ ∃ t, due = some t ∧ t ≤ now ∧ ∀ t', other = some t' → t ≤ t' := by
  rw [fires, Option.any_eq_true]
  simp [Option.all_eq_true]

/-- The counter and the timer of the retransmission are written. -/
theorem setTimer_ok (ok : u.Ok none [] none) {f : Ctrans → Ctrans}
    (live : u.ctrans.get c = some ct) (stays : (f ct).state = ct.state)
    (resph : (f ct).resph = ct.resph) (invite : (f ct).invite = ct.invite)
    (tmr : (f ct).tmr = ct.tmr) (timed : (f ct).Timed) : (u.setCtrans c f).Ok none [] none := by
  have isOk := ok.ctrans c ct nofun live
  refine ok.setCtrans live (by rw [Ok.argOfCtrans, stays, resph]) (fun _ => ⟨?_, ?_, ?_, timed⟩)
    fun r req liveR holds => ?_
  · rw [tmr, invite, stays]
    exact isOk.armed
  · rw [invite, stays, resph]
    exact isOk.invite
  · rw [invite, stays]
    exact isOk.plain
  · obtain ⟨same, provrecv, armed⟩ := ok.carries r req c ct liveR holds live
    refine ⟨by rw [invite, same], by rw [stays, provrecv], ?_⟩
    rw [stays, tmr]
    exact armed

theorem retransmitHandler_ok (ok : u.Ok none [] none) (env : UaEnv)
    (live : u.ctrans.get c = some ct) (due : fires env.now ct.tmre ct.tmr = true) :
    Keeps ((u.setCtrans c fun ct => { ct with tmre := none }).retransmitHandler env c) := by
  have isOk := ok.ctrans c ct nofun live
  obtain ⟨t, tmre, now, first⟩ := fires_iff.mp due
  obtain ⟨last, tmr, elapsed⟩ := isOk.timed.late t tmre
  have early : waited ct.invite ct.txc ≤ 64 * sipT1 := by
    have dueFirst := first last tmr
    omega
  have few := lt_of_waited early
  have ten : ct.txc < 10 := Nat.lt_of_lt_of_le few (by split <;> decide)
  have count : (ct.txc + 1) % 2 ^ 32 = ct.txc + 1 := Nat.mod_eq_of_lt (by omega)
  have again : ∀ timeout, ct.state ≠ .completed →
      (ct.invite = true → ct.state = .calling ∧ sipT1 <<< (ct.txc + 1) ≤ timeout) →
      (ct.invite = false → min (sipT1 <<< (ct.txc + 1)) sipT2 ≤ timeout) → Keeps (
      let w := (u.setCtrans c fun ct => { ct with tmre := none }).setCtrans c fun now =>
        { now with txc := ct.txc + 1, tmre := some (env.now + timeout) }
      if env.resent then pure w else w.ctransFail env c : UaExec Ua) := by
    intro timeout pending calling plain
    dsimp only
    rw [setCtrans_setCtrans]
    split
    next =>
      refine ⟨_, rfl, setTimer_ok ok live rfl rfl rfl rfl
        ⟨fun invite proceeding => ?_, fun completed => absurd completed pending,
          fun due isSome => ⟨last, tmr, ?_⟩, few⟩⟩
      · cases (calling invite).1.symm.trans proceeding
      · obtain rfl : env.now + timeout = due := Option.some.inj isSome
        show last + (waited ct.invite ct.txc + if ct.invite then sipT1 <<< (ct.txc + 1)
          else min (sipT1 <<< (ct.txc + 1)) sipT2) ≤ _
        have step : (if ct.invite then sipT1 <<< (ct.txc + 1)
            else min (sipT1 <<< (ct.txc + 1)) sipT2) ≤ timeout := by
          split
          next invite => exact (calling invite).2
          next other => exact plain (Bool.eq_false_iff.mpr other)
        omega
    next => exact ctransFail_ok ok env live rfl rfl
  have liveF := get_setCtrans live fun ct => { ct with tmre := none }
  simp only [retransmitHandler]
  rw [follow_live liveF, ok_bind]
  dsimp only
  rw [count]
  cases state : ct.state with
  | trying =>
    exact again _ (by rw [state]; nofun) (fun invite => absurd state (isOk.invite invite).1)
      fun _ => Nat.le_refl _
  | calling =>
    exact again _ (by rw [state]; nofun) (fun _ => ⟨state, Nat.le_refl _⟩)
      fun plain => absurd state (isOk.plain plain)
  | proceeding =>
    refine again _ (by rw [state]; nofun) (fun invite => ?_) fun _ => Nat.min_le_right _ _
    cases (isOk.timed.rings invite state).symm.trans tmre
  | completed => cases (isOk.timed.completed state).symm.trans tmre

/-- A transaction has its final response, and waits for copies of it. -/
theorem ctransComplete_ok (ok : u.Ok none [] none) (env : UaEnv) {f : Ctrans → Ctrans}
    (scode wait : Nat) (live : u.ctrans.get c = some ct) (stays : Stays ct (f ct))
    (state : ct.state ≠ .completed) (final : 200 ≤ scode) :
    Keeps ((u.setCtrans c f).ctransComplete env c scode wait) := by
  have liveF := get_setCtrans live f
  have isOk := ok.ctrans c ct nofun live
  obtain ⟨v, ran, okV, liveV⟩ := ctransResph_final ok env
    (fun ct => { f ct with state := .completed, mbAck := (f ct).invite && env.copied }) false scode
    live state fun _ => final
  rw [← stays.resph] at ran
  simp only [ctransComplete]
  rw [follow_live liveF, ok_bind, setCtrans_setCtrans, ran, ok_bind]
  split
  next => exact memDerefCtrans_ok okV liveV
  next =>
    rw [follow_live liveV, ok_bind]
    have few : (f ct).txc ≤ if (f ct).invite then 6 else 10 := by
      rw [stays.txc, stays.invite]
      exact isOk.timed.few
    refine ⟨_, rfl, (okV.setAside _).putBack (get_setCtrans liveV _) ⟨.inl rfl, fun invite => ⟨nofun, ?_⟩,
      nofun, .quiet rfl few⟩ (if_pos rfl)⟩
    show (f ct).resph.isSome = true
    rw [stays.resph]
    exact (isOk.invite (stays.invite.symm.trans invite)).2

/-- The timers of a transaction that has its first response. -/
theorem inviteResponse_ok (ok : u.Ok none [] none) (env : UaEnv) (scode : Nat)
    (live : u.ctrans.get c = some ct) (invite : ct.invite = true) :
    Keeps (u.inviteResponse env c scode) := by
  let f : Ctrans → Ctrans := fun ct =>
    if ct.state = .calling then { ct with tmr := none, tmre := none } else ct
  have stays : Stays ct (f ct) := by
    unfold f
    split <;> exact ⟨rfl, rfl, rfl, rfl⟩
  have same : (if ct.state = .calling then
      u.setCtrans c fun ct => { ct with tmr := none, tmre := none } else u) = u.setCtrans c f := by
    split
    next calling =>
      refine congrArg (fun heap => { u with ctrans := heap }) (Heap.modify_congr fun ct' live' => ?_)
      cases live.symm.trans live'
      exact (if_pos calling).symm
    next other =>
      refine (congrArg (fun heap => { u with ctrans := heap })
        (Heap.modify_eq_self fun ct' live' => ?_)).symm
      cases live.symm.trans live'
      exact if_neg other
  have isOk := ok.ctrans c ct nofun live
  simp only [inviteResponse]
  rw [follow_live live, ok_bind, same]
  split
  next waiting =>
    have pending : ct.state ≠ .completed := by rcases waiting with state | state <;> rw [state] <;> nofun
    split
    next provisional =>
      rw [setCtrans_setCtrans]
      have tmr : ct.state = .proceeding → (f ct).tmr = ct.tmr := fun proceeding =>
        congrArg Ctrans.tmr (if_neg fun calling => by cases proceeding.symm.trans calling)
      have quiet : (f ct).tmre = none := by
        rcases waiting with calling | proceeding
        · exact congrArg Ctrans.tmre (if_pos calling)
        · have same : f ct = ct := if_neg fun calling => by cases proceeding.symm.trans calling
          rw [same]
          exact isOk.timed.rings invite proceeding
      exact (ctransResph_provisional ok env scode live pending
        (.intro isOk stays (.inr invite) tmr (fun _ => quiet) fun plain => by
          cases invite.symm.trans plain) provisional).keeps
    next late =>
      split
      next =>
        obtain ⟨v, ran, okV, liveV⟩ := ctransResph_final ok env f false scode live pending
          fun _ => Nat.not_lt.mp late
        rw [ran, ok_bind]
        exact memDerefCtrans_ok okV liveV
      next => exact ctransComplete_ok ok env scode completeWait live stays pending (Nat.not_lt.mp late)
  next other =>
    have same : u.setCtrans c f = u :=
      congrArg (fun heap => { u with ctrans := heap }) (Heap.modify_eq_self fun ct' live' => by
        cases live.symm.trans live'
        exact if_neg fun calling => other (.inl calling))
    rw [same]
    exact ⟨u, rfl, ok⟩

theorem responseHandler_ok (ok : u.Ok none [] none) (env : UaEnv) (scode : Nat)
    (live : u.ctrans.get c = some ct) : Keeps (u.responseHandler env c scode) := by
  have isOk := ok.ctrans c ct nofun live
  simp only [responseHandler]
  rw [follow_live live, ok_bind]
  split
  next invite => exact inviteResponse_ok ok env scode live invite
  next plain =>
    have plain : ct.invite = false := Bool.eq_false_iff.mpr plain
    have armed := isOk.armed.resolve_right fun rings => by cases plain.symm.trans rings.1
    split
    next waiting =>
      have pending : ct.state ≠ .completed := by
        rcases waiting with state | state <;> rw [state] <;> nofun
      split
      next provisional =>
        exact (ctransResph_provisional ok env scode live pending
          (.intro isOk ⟨rfl, rfl, rfl, rfl⟩ (.inl armed) (fun _ => rfl)
            (fun invite => by cases plain.symm.trans invite) fun _ => rfl) provisional).keeps
      next late =>
        have same : u.setCtrans c id = u :=
          congrArg (fun heap => { u with ctrans := heap }) (Heap.modify_eq_self fun _ _ => rfl)
        rw [← same]
        exact ctransComplete_ok ok env scode sipT4 live ⟨rfl, rfl, rfl, rfl⟩ pending (Nat.not_lt.mp late)
    next => exact ⟨u, rfl, ok⟩

/-! ## Answers of the DNS -/

/-- A request that is worked on is written, and keeps its part. -/
theorem tuned (ok : u.Ok none [r] none) {f : SipRequest → SipRequest}
    (live : u.requests.get r = some req) (role : SameRole req (f req)) (noCt : req.ct = none)
    (same : (f req).ct = none) : (u.setRequest r f).Ok none [r] none ∧
      (u.setRequest r f).requests.get r = some (f req) :=
  ⟨ok.tune live role noCt same, get_setRequest live f⟩

theorem lookedUp_keeps (env : UaEnv) {run : UaExec (Ua × Bool)}
    (tries : Tries none [] none u r req (fun req => req.ct = none) run)
    (reqp : req.reqp.isSome = true) : Keeps (run >>= lookedUp env r) :=
  (lookedUp_ok (x := none) (y := []) nofun List.not_mem_nil env tries reqp).keeps

theorem naptrHandler_ok (ok : u.Ok none [r] none) (env : UaEnv)
    (live : u.requests.get r = some req) (reqp : req.reqp.isSome = true) (idle : Idle req) :
    Keeps (u.naptrHandler env r) := by
  simp only [naptrHandler]
  rw [follow_live live, ok_bind]
  split
  next => exact lookedUp_keeps env (srvLookup_tries ok List.not_mem_nil env live idle) reqp
  next tp _ =>
    obtain ⟨okW, liveW⟩ := tuned ok (f := fun req =>
      { req with tp := some tp, tpSelected := true, srvl := req.srvl ++ env.srvs }) live
      ⟨rfl, rfl, rfl, rfl⟩ idle.ct idle.ct
    have idleW : Idle { req with tp := some tp, tpSelected := true, srvl := req.srvl ++ env.srvs } :=
      ⟨idle.ct, idle.dnsq, idle.dnsq2⟩
    rw [follow_live liveW, ok_bind]
    split
    next => exact lookedUp_keeps env (srvLookup_tries okW List.not_mem_nil env liveW idleW) reqp
    next =>
      exact (requestNextOrDone_ok okW List.not_mem_nil nofun env 0 liveW reqp idleW).keeps

theorem srvHandler_ok (ok : u.Ok none [r] none) (env : UaEnv)
    (live : u.requests.get r = some req) (reqp : req.reqp.isSome = true) (idle : Idle req) :
    Keeps (u.srvHandler env r) := by
  obtain ⟨okW, liveW⟩ := tuned ok (f := fun req => { req with srvl := req.srvl ++ env.srvs }) live
    ⟨rfl, rfl, rfl, rfl⟩ idle.ct idle.ct
  have idleW : Idle { req with srvl := req.srvl ++ env.srvs } := ⟨idle.ct, idle.dnsq, idle.dnsq2⟩
  have next : ∀ tp, (((u.setRequest r fun req => { req with srvl := req.srvl ++ env.srvs }).setRequest
      r fun req => { req with tp := tp }).Ok none [r] none ∧ _) ∧
      Idle { req with srvl := req.srvl ++ env.srvs, tp := tp } := fun tp =>
    ⟨tuned okW (f := fun req => { req with tp := tp }) liveW ⟨rfl, rfl, rfl, rfl⟩ idle.ct idle.ct,
      idle.ct, idle.dnsq, idle.dnsq2⟩
  simp only [srvHandler]
  rw [follow_live liveW, ok_bind]
  split
  next => exact (requestNextOrDone_ok okW List.not_mem_nil nofun env 0 liveW reqp idleW).keeps
  next =>
    split
    next => exact lookedUp_keeps env (addrLookup_tries okW List.not_mem_nil env liveW idleW) reqp
    next =>
      split
      next tp _ =>
        obtain ⟨⟨okN, liveN⟩, idleN⟩ := next (some tp)
        exact lookedUp_keeps env (srvLookup_tries okN List.not_mem_nil env liveN idleN) reqp
      next =>
        split
        next tp _ =>
          obtain ⟨⟨okN, liveN⟩, idleN⟩ := next (some tp)
          exact lookedUp_keeps env (addrLookup_tries okN List.not_mem_nil env liveN idleN) reqp
        next =>
          obtain ⟨⟨okN, liveN⟩, -⟩ := next none
          exact (requestDone_ok okN List.not_mem_nil nofun env true 0 liveN reqp idle.ct nofun).keeps

theorem addrHandler_ok (ok : u.Ok none [r] none) (env : UaEnv)
    (live : u.requests.get r = some req) (reqp : req.reqp.isSome = true) (noCt : req.ct = none)
    (second : req.dnsq2 = true → req.dnsq = none ∨ req.dnsq = some .addr) :
    Keeps (u.addrHandler env r) := by
  obtain ⟨okW, liveW⟩ := tuned ok (f := fun req => { req with addrl := req.addrl ++ env.addrs }) live
    ⟨rfl, rfl, rfl, rfl⟩ noCt noCt
  simp only [addrHandler]
  rw [follow_live liveW, ok_bind]
  split
  next pending =>
    have isOk : ({ req with addrl := req.addrl ++ env.addrs } : SipRequest).Ok :=
      { SipRequest.Waits.dns noCt ((Bool.or_eq_true _ _).mp pending) second with reqp := reqp }
    exact ⟨_, rfl, okW.fill liveW isOk⟩
  next quiet =>
    obtain ⟨noQuery, noSecond⟩ := Bool.or_eq_false_iff.mp (Bool.eq_false_iff.mpr quiet)
    split
    next =>
      exact (requestDone_ok okW List.not_mem_nil nofun env true 0 liveW reqp noCt nofun).keeps
    next =>
      exact (requestNextOrDone_ok okW List.not_mem_nil nofun env 0 liveW reqp
        ⟨noCt, Option.not_isSome_iff_eq_none.mp (Bool.eq_false_iff.mp noQuery), noSecond⟩).keeps

theorem queryHandler_ok (ok : u.Ok none [] none) (env : UaEnv) (second : Bool)
    (live : u.requests.get r = some req)
    (waits : (if second then req.dnsq2 else req.dnsq.isSome) = true) :
    Keeps (u.queryHandler env r second) := by
  have isOk := ok.requests r req List.not_mem_nil live
  have okR := ok.loosen live
  have noCt : req.ct = none := by
    by_contra holds
    obtain ⟨noQuery, noSecond⟩ := isOk.quiet (Option.isSome_iff_ne_none.mpr holds)
    rw [noQuery, noSecond] at waits
    cases second <;> cases waits
  simp only [queryHandler]
  rw [follow_live live, ok_bind]
  cases second with
  | true =>
    obtain ⟨okW, liveW⟩ := tuned okR (f := fun req => { req with dnsq2 := false }) live
      ⟨rfl, rfl, rfl, rfl⟩ noCt noCt
    exact addrHandler_ok okW env liveW isOk.reqp noCt nofun
  | false =>
    obtain ⟨okW, liveW⟩ := tuned okR (f := fun req => { req with dnsq := none }) live
      ⟨rfl, rfl, rfl, rfl⟩ noCt noCt
    have first : ∀ q, req.dnsq = some q → q ≠ .addr → req.dnsq2 = false := by
      intro q asked other
      by_contra twice
      rcases isOk.second (Bool.not_eq_false _ ▸ twice) with none | addr
      · cases asked.symm.trans none
      · exact other (Option.some.inj (asked.symm.trans addr))
    rw [if_neg Bool.false_ne_true]
    cases asked : req.dnsq with
    | none =>
      rw [asked] at waits
      cases waits
    | some q =>
      cases q with
      | naptr => exact naptrHandler_ok okW env liveW isOk.reqp ⟨noCt, rfl, first _ asked nofun⟩
      | srv => exact srvHandler_ok okW env liveW isOk.reqp ⟨noCt, rfl, first _ asked nofun⟩
      | addr => exact addrHandler_ok okW env liveW isOk.reqp noCt fun _ => .inl rfl

end Ua

end Autodialer
