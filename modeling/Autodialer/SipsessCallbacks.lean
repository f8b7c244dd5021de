import Autodialer.SipsessSpec

/-!
# What the handlers of responses keep

A response that ends a request reaches a session that has just lost it (`Awaited`).
-/

namespace Autodialer

open Fallible

namespace Ua

variable {u u' u'' : Ua} {x : Option CtransId} {y : List RequestId} {z : Option SipsessId}
  {s : SipsessId} {r : RequestId} {c : CtransId} {sess sess' : Sipsess} {req req' : SipRequest}
  {h : List Entry} {e : Entry}

/-- The close handler of a session that has been terminated is called. -/
theorem close_ok (ok : u.Ok x y (some s)) (apart : Apart y u) (env : UaEnv) (err : Bool)
    (scode : Nat) (live : u.sessions.get s = some sess)
    (view : sessOf (history u.log s) s = .live) (terminated : sess.terminated ≠ .no)
    (nrefs : sess.nrefs = 1 + if sess.req.isSome then 1 else 0)
    (hungUp : HungUp (history u.log s) sess) (pending : u.Pending s sess) :
    Ends x y u (u.called env (.close s err scode)) := by
  have after : sessOf (history u.log s ++ [.close s err scode]) s = .terminated :=
    (sessOf_snoc _ _ _).trans (if_pos rfl)
  have same : SameCounts (history u.log s) (history u.log s ++ [.close s err scode]) :=
    .snoc _ rfl rfl
  have referenced : Referenced (history u.log s ++ [.close s err scode]) s sess := by
    refine ⟨?_, by omega, iff_of_false terminated (by rw [after]; decide), hungUp.keep same⟩
    rw [nrefs, refs, after]
    simp [terminated]
  have plain : Entry.Plain s (.close s err scode) := by constructor <;> simp
  have record : HistoryOk (history u.log s ++ [.close s err scode]) s sess :=
    (ok.recorded s sess live).plain plain view fun bye => absurd bye Bool.false_ne_true
  exact called_ok ok apart env live rfl record same referenced pending

theorem sipsessTerminate_ok (ok : u.Ok x y (some s)) (apart : Apart y u) (env : UaEnv)
    (err : Bool) (scode : Nat) (live : u.sessions.get s = some sess)
    (referenced : Referenced (history u.log s) s sess) (pending : u.Pending s sess)
    (terminated : sess.terminated = .no) : Ends x y u (u.sipsessTerminate env s err scode) := by
  have running : sess.terminated ≠ .ended := by rw [terminated]; nofun
  have view := referenced.live.mp terminated
  have nrefs : sess.nrefs = 1 := referenced.nrefs.trans (refs_live terminated view _)
  obtain ⟨w, ran, okW, frame, log, liveW, canceled⟩ := termwait_ok ok apart env live running
  simp only [sipsessTerminate]
  rw [follow_live live, ok_bind, if_neg (not_not.mpr terminated), ran, ok_bind]
  cases holds : sess.req with
  | none =>
    have free : (waitsFor sess).req = none := holds
    obtain ⟨v, waits, sess', ran', okV, frame', liveV, pending', ending⟩ :=
      sessTerminate_ok okW env liveW free waitsFor_running
    have count : sess'.nrefs = 1 + if sess'.req.isSome then 1 else 0 := by
      rw [ending.nrefs, ending.req]
      simp [waitsFor, nrefs, holds]
    obtain ⟨v', ranV, okEnd, frame''⟩ := close_ok okV (apart.frame (frame.trans frame')) env err scode
      liveV (ending.view.trans (log ▸ view)) (by rw [ending.terminated]; decide) count ending.hungUp
      pending'
    refine ⟨v', ?_, okEnd, frame.trans (frame'.trans frame'')⟩
    dsimp only [Option.isSome]
    rw [if_neg Bool.false_ne_true, ran']
    exact ranV
  | some r =>
    have count : (waitsFor sess).nrefs = 1 + if (waitsFor sess).req.isSome then 1 else 0 := by
      simp [waitsFor, nrefs]
    have pendingW : w.Pending s (waitsFor sess) := fun r' req' holds' liveR => by
      obtain ⟨req, liveR', rfl⟩ := canceled r' req' holds' liveR
      rw [log]
      exact (pending r' req holds' liveR').wait running
    obtain ⟨v, ranV, okEnd, frame'⟩ := close_ok okW (apart.frame frame) env err scode liveW
      (log ▸ view) waitsFor_stopped count waitsFor_hungUp pendingW
    exact ⟨v, ranV, okEnd, frame.trans frame'⟩

/-- A session whose request has been answered. -/
structure Awaited (h : List Entry) (s : SipsessId) (sess : Sipsess) : Prop where
  nrefs : sess.nrefs = refs h s sess true
  req : sess.req = none
  live : sess.terminated = .no ↔ sessOf h s = .live
  hungUp : HungUp h sess

namespace Awaited

theorem owed (awaited : Awaited h s sess) (terminated : sess.terminated ≠ .no) :
    Owed h s sess := by
  refine ⟨?_, fun live => terminated (awaited.live.mpr live), fun no => absurd no terminated,
    awaited.hungUp⟩
  rw [awaited.nrefs, awaited.req]
  exact refs_waits terminated

theorem referenced (awaited : Awaited h s sess) (terminated : sess.terminated = .no) :
    Referenced h s sess := by
  have view := awaited.live.mp terminated
  have nrefs : sess.nrefs = 1 := awaited.nrefs.trans (refs_live terminated view true)
  exact ⟨nrefs.trans (refs_live terminated view _).symm, by omega, awaited.live, awaited.hungUp⟩

theorem keep (awaited : Awaited h s sess) {h' : List Entry} (byes : byeCount h' = byeCount h)
    (view : sessOf h' s = sessOf h s) : Awaited h' s sess where
  nrefs := by rw [refs, view]; exact awaited.nrefs
  req := awaited.req
  live := by rw [view]; exact awaited.live
  hungUp := by rw [HungUp, byes]; exact awaited.hungUp

end Awaited

theorem inviteOut_ok (ok : u.Ok x y (some s)) (apart : Apart y u) (env : UaEnv) (err : Bool)
    (scode : Nat) (live : u.sessions.get s = some sess)
    (awaited : Awaited (history u.log s) s sess) : Ends x y u (u.inviteOut env s err scode) := by
  rw [inviteOut, follow_live live, ok_bind]
  by_cases terminated : sess.terminated = .no
  · rw [if_pos terminated]
    exact sipsessTerminate_ok ok apart env err scode live (awaited.referenced terminated)
      (.free u s awaited.req) terminated
  · rw [if_neg terminated]
    exact memDerefSipsess_ok ok apart env live (awaited.owed terminated) (.free u s awaited.req)

/-- The INVITE request is made again, or the session is terminated. -/
theorem inviteAgain_ok (ok : u.Ok x y (some s)) (apart : Apart y u) (env : UaEnv) (scode : Nat)
    (live : u.sessions.get s = some sess) (awaited : Awaited (history u.log s) s sess)
    (terminated : sess.terminated = .no) (early : sess.established = false)
    (failc : sess.ls.failc ≤ 15) (few : inviteCount (history u.log s) ≤ sess.ls.failc) :
    Ends x y u (do
      let (u, made) ← u.invite env s
      if made then pure u else u.inviteOut env s true scode) := by
  have view := awaited.live.mp terminated
  obtain ⟨v, made, sess', ran, okV, frame, liveV, pending, invited⟩ :=
    invite_ok ok env live awaited.req terminated early failc few (.inr view)
  have viewV : sessOf (history v.log s) s = .live := by
    rw [invited.history, sessOf_snoc, view]
    rfl
  have nrefs : sess'.nrefs = 1 :=
    invited.nrefs.trans (awaited.nrefs.trans (refs_live terminated view true))
  have liveIff : sess'.terminated = .no ↔ sessOf (history v.log s) s = .live :=
    iff_of_true invited.terminated viewV
  have hungUp : HungUp (history v.log s) sess' := fun ended => by
    cases invited.terminated.symm.trans ended
  rw [ran, ok_bind]
  cases made with
  | true =>
    have referenced : Referenced (history v.log s) s sess' :=
      ⟨nrefs.trans (refs_live invited.terminated viewV _).symm, by omega, liveIff, hungUp⟩
    exact ⟨v, rfl, okV.settle liveV referenced pending, frame⟩
  | false =>
    have awaitedV : Awaited (history v.log s) s sess' :=
      ⟨nrefs.trans (refs_live invited.terminated viewV _).symm,
        Option.not_isSome_iff_eq_none.mp (Bool.eq_false_iff.mp invited.req), liveIff, hungUp⟩
    obtain ⟨w, ranW, okEnd, frame'⟩ :=
      inviteOut_ok okV (apart.frame frame) env true scode liveV awaitedV
    exact ⟨w, ranW, okEnd, frame.trans frame'⟩

/-- The call is answered with a 2xx response. -/
theorem inviteAnswered_ok (ok : u.Ok x y (some s)) (apart : Apart y u) (env : UaEnv) (scode : Nat)
    (live : u.sessions.get s = some sess) (awaited : Awaited (history u.log s) s sess)
    (running : sess.terminated ≠ .ended) (early : sess.established = false) (final : 200 ≤ scode)
    (success : scode < 300) : Ends x y u (u.inviteResponded env s scode) := by
  simp only [inviteResponded]
  rw [follow_live live, ok_bind, if_neg (Nat.not_lt.mpr final), if_pos success]
  generalize isAsked : (if sess.terminated = Terminated.no then
    (u.logged (Entry.answer s), env.answer) else (u, false)) = asked
  obtain ⟨v, answered⟩ := asked
  have asked : v.Ok x y (some s) ∧ Frame x y u v ∧ v.sessions.get s = some sess ∧
      SameCounts (history u.log s) (history v.log s) ∧
      sessOf (history v.log s) s = sessOf (history u.log s) s := by
    split at isAsked
    next terminated =>
      cases isAsked
      have record := ok.recorded s sess live
      have allowed : Allowed s (history u.log s) (.answer s) := ⟨awaited.live.mp terminated,
        fun mem => Bool.false_ne_true (early.symm.trans (record.answered.mpr mem))⟩
      exact ⟨ok.logged live rfl (record.plain ⟨nofun, nofun, nofun, nofun⟩ allowed nofun),
        .of_eq rfl rfl, live, sameCounts_logged rfl rfl rfl, sessOf_logged rfl⟩
    next =>
      cases isAsked
      exact ⟨ok, .refl x y u, live, ⟨rfl, rfl⟩, rfl⟩
  obtain ⟨okV, frame, liveV, sameV, viewV⟩ := asked
  let f : Sipsess → Sipsess := fun sess => { sess with established := true }
  let w := (v.logged (.answered s)).setSession s f
  have record := okV.recorded s sess liveV
  have here : history w.log s = history v.log s ++ [.answered s] := history_logged rfl
  have okW : w.Ok x y (some s) := okV.loggedSet liveV rfl rfl (record.answer early)
  have liveW : w.sessions.get s = some (f sess) :=
    get_setSession (u := v.logged (.answered s)) liveV f
  have frameW : Frame x y u w := frame.trans (.of_eq rfl rfl)
  have view : sessOf (history w.log s) s = sessOf (history u.log s) s := by
    rw [here, sessOf_snoc, ← viewV]
    rfl
  have hungUp : HungUp (history w.log s) (f sess) := fun ended => absurd ended running
  have awaitedW : Awaited (history w.log s) s (f sess) := by
    refine ⟨?_, awaited.req, ?_, hungUp⟩
    · rw [refs, view]
      exact awaited.nrefs
    · rw [view]
      exact awaited.live
  split
  next => exact inviteOut_ok ok apart env true scode live awaited
  next =>
    split
    next =>
      obtain ⟨w', ran, okEnd, frame'⟩ :=
        inviteOut_ok okW (apart.frame frameW) env _ scode liveW awaitedW
      exact ⟨w', ran, okEnd, frameW.trans frame'⟩
    next success =>
      have terminated : sess.terminated = .no := by
        simp only [Bool.or_eq_true, decide_eq_true_eq, not_or, not_not] at success
        exact success.2
      have viewW : sessOf (history w.log s) s = .live := view.trans (awaited.live.mp terminated)
      have fresh : .establish s ∉ history w.log s := by
        intro mem
        rcases List.mem_append.mp (here ▸ mem) with old | last
        · exact Bool.false_ne_true (early.symm.trans (record.establish old))
        · cases List.mem_singleton.mp last
      have after : sessOf (history w.log s ++ [.establish s]) s = .live := by
        rw [sessOf_snoc, viewW]
        rfl
      have same : SameCounts (history w.log s) (history w.log s ++ [.establish s]) := .snoc _ rfl rfl
      obtain ⟨w', ran, okEnd, frame'⟩ := called_ok okW (apart.frame frameW) env liveW rfl
        ((okW.recorded s (f sess) liveW).establishes rfl viewW fresh) same
        ((awaitedW.referenced terminated).keep same (after.trans viewW.symm))
        (.free w s awaited.req)
      exact ⟨w', ran, okEnd, frameW.trans frame'⟩

/-- `invite_resp_handler` for a final response, which the session is not going to loop on. -/
theorem inviteResponded_ok (ok : u.Ok x y (some s)) (apart : Apart y u) (env : UaEnv) (scode : Nat)
    (live : u.sessions.get s = some sess) (awaited : Awaited (history u.log s) s sess)
    (running : sess.terminated ≠ .ended) (early : sess.established = false) (final : 200 ≤ scode)
    (failc : 300 ≤ scode → sess.ls.failc ≤ 15)
    (few : 300 ≤ scode → inviteCount (history u.log s) ≤ sess.ls.failc) :
    Ends x y u (u.inviteResponded env s scode) := by
  by_cases success : scode < 300
  · exact inviteAnswered_ok ok apart env scode live awaited running early final success
  · have failed : 300 ≤ scode := Nat.not_lt.mp success
    have out := fun err => inviteOut_ok ok apart env err scode live awaited
    simp only [inviteResponded]
    rw [follow_live live, ok_bind, if_neg (Nat.not_lt.mpr final), if_neg success]
    by_cases terminated : sess.terminated = .no
    · have again := inviteAgain_ok ok apart env scode live awaited terminated early (failc failed)
        (few failed)
      rw [if_neg (not_not.mpr terminated)]
      split
      next =>
        split
        next => exact out true
        next => exact again
      next =>
        split
        next =>
          split
          next => exact out _
          next => exact again
        next => exact out false
    · rw [if_pos terminated]
      exact out false

/-- What `sip_request_loops` counts. -/
theorem sipRequestLoops_failc {ls ls' : LoopState} {scode : Nat}
    (goes : sipRequestLoops ls scode = (ls', false)) (failed : 300 ≤ scode) :
    ls'.failc = ls.failc + 1 ∧ ls'.failc ≤ 15 := by
  rw [sipRequestLoops, if_neg (by omega), if_neg (by omega)] at goes
  split at goes
  next =>
    obtain ⟨rfl, few⟩ := Prod.mk.inj goes
    exact ⟨rfl, Nat.lt_succ_iff.mp (Nat.not_le.mp (of_decide_eq_false few))⟩
  next =>
    obtain ⟨rfl, few⟩ := Prod.mk.inj goes
    have few := of_decide_eq_false (Bool.or_eq_false_iff.mp few).2
    exact ⟨rfl, Nat.lt_succ_iff.mp (Nat.not_le.mp few)⟩

/-- A response to an INVITE that is not provisional, or its failure. -/
theorem inviteRespHandler_ok (ok : u.Ok x y (some s)) (apart : Apart y u) (env : UaEnv) (err : Bool)
    (scode : Nat) (live : u.sessions.get s = some sess)
    (awaited : Awaited (history u.log s) s sess) (running : sess.terminated ≠ .ended)
    (early : sess.established = false) (final : err = false → 200 ≤ scode)
    (few : inviteCount (history u.log s) ≤ sess.ls.failc + 1) :
    Ends x y u (u.inviteRespHandler env s err scode) := by
  have record := ok.recorded s sess live
  simp only [inviteRespHandler]
  rw [follow_live live, ok_bind]
  cases err with
  | true => exact inviteOut_ok ok apart env true scode live awaited
  | false =>
    rw [if_neg Bool.false_ne_true]
    generalize counted : sipRequestLoops sess.ls scode = next
    obtain ⟨ls, loops⟩ := next
    let f : Sipsess → Sipsess := fun sess => { sess with ls := ls }
    have okW : (u.setSession s f).Ok x y (some s) := ok.setSession live rfl
      (record.write rfl rfl fun now => now)
    have liveW := get_setSession live f
    have awaitedW : Awaited (history u.log s) s (f sess) :=
      ⟨awaited.nrefs, awaited.req, awaited.live, awaited.hungUp⟩
    have frame₁ : Frame x y u (u.setSession s f) := .of_eq rfl rfl
    have apartW := apart.frame frame₁
    cases loops with
    | true =>
      obtain ⟨w, ran, okEnd, frame⟩ := inviteOut_ok okW apartW env false scode liveW awaitedW
      exact ⟨w, ran, okEnd, frame₁.trans frame⟩
    | false =>
      obtain ⟨w, ran, okEnd, frame⟩ := inviteResponded_ok okW apartW env scode liveW awaitedW running
        early (final rfl) (fun failed => (sipRequestLoops_failc counted failed).2)
        fun failed => by
          have counts := (sipRequestLoops_failc counted failed).1
          show inviteCount (history u.log s) ≤ ls.failc
          omega
      exact ⟨w, ran, okEnd, frame₁.trans frame⟩

theorem sipRequestLoops_provisional {ls : LoopState} {scode : Nat} (provisional : scode < 200) :
    sipRequestLoops ls scode = (ls, false) := if_pos provisional

/-- A provisional response to an INVITE. -/
theorem inviteProgress_ok (ok : u.Ok x y (some s)) (apart : Apart y u) (env : UaEnv) (scode : Nat)
    (live : u.sessions.get s = some sess) (referenced : Referenced (history u.log s) s sess)
    (pending : u.Pending s sess) (early : sess.established = false) (provisional : scode < 200) :
    Ends x y u (u.inviteRespHandler env s false scode) := by
  have record := ok.recorded s sess live
  let f : Sipsess → Sipsess := fun now => { now with ls := sess.ls }
  have okW : (u.setSession s f).Ok x y (some s) := ok.setSession live rfl
    (record.write rfl rfl fun now => now)
  have liveW : (u.setSession s f).sessions.get s = some sess := get_setSession live f
  have frame₁ : Frame x y u (u.setSession s f) := .of_eq rfl rfl
  simp only [inviteRespHandler, inviteResponded]
  rw [follow_live live, ok_bind, sipRequestLoops_provisional provisional]
  simp only [Bool.false_eq_true, if_false]
  rw [follow_live liveW, ok_bind, if_pos provisional]
  split
  next terminated =>
    have view := referenced.live.mp terminated
    have same : SameCounts (history u.log s) (history u.log s ++ [.progress s scode]) :=
      .snoc _ rfl rfl
    have after : sessOf (history u.log s ++ [.progress s scode]) s = .live := by
      rw [sessOf_snoc, view]
      rfl
    have allowed : Allowed s (history u.log s) (.progress s scode) :=
      ⟨view, fun mem => Bool.false_ne_true (early.symm.trans (record.answered.mpr mem))⟩
    obtain ⟨w, ran, okEnd, frame⟩ := called_ok (e := .progress s scode) okW (apart.frame frame₁) env
      liveW rfl (record.plain ⟨nofun, nofun, nofun, nofun⟩ allowed nofun) same
      (referenced.keep same (after.trans view.symm)) pending
    exact ⟨w, ran, okEnd, frame₁.trans frame⟩
  next => exact ⟨_, rfl, okW.settle liveW referenced pending, frame₁⟩

theorem byeRespHandler_ok (ok : u.Ok x y (some s)) (apart : Apart y u) (env : UaEnv) (err : Bool)
    (scode : Nat) (live : u.sessions.get s = some sess)
    (awaited : Awaited (history u.log s) s sess) (ended : sess.terminated = .ended)
    (answered : sess.established = true) (final : err = false → 200 ≤ scode)
    (few : byeCount (history u.log s) ≤ sess.ls.failc + 1) :
    Ends x y u (u.byeRespHandler env s err scode) := by
  have record := ok.recorded s sess live
  have terminated : sess.terminated ≠ .no := by rw [ended]; nofun
  simp only [byeRespHandler]
  rw [follow_live live, ok_bind]
  cases err with
  | true => exact memDerefSipsess_ok ok apart env live (awaited.owed terminated) (.free u s awaited.req)
  | false =>
    rw [if_neg Bool.false_ne_true]
    generalize counted : sipRequestLoops sess.ls scode = next
    obtain ⟨ls, loops⟩ := next
    let f : Sipsess → Sipsess := fun sess => { sess with ls := ls }
    have okW : (u.setSession s f).Ok x y (some s) := ok.setSession live rfl
      (record.write rfl rfl fun now => now)
    have liveW := get_setSession live f
    have awaitedW : Awaited (history u.log s) s (f sess) :=
      ⟨awaited.nrefs, awaited.req, awaited.live, awaited.hungUp⟩
    have frame₁ : Frame x y u (u.setSession s f) := .of_eq rfl rfl
    have apartW := apart.frame frame₁
    have isOver : Ends x y u ((u.setSession s f).memDerefSipsess env s) := by
      obtain ⟨w, ran, okEnd, frame⟩ := memDerefSipsess_ok okW apartW env liveW
        (awaitedW.owed terminated) (.free _ s awaited.req)
      exact ⟨w, ran, okEnd, frame₁.trans frame⟩
    dsimp only
    split
    next => exact isOver
    next goes =>
      rw [if_neg (Nat.not_lt.mpr (final rfl))]
      split
      next => exact isOver
      next failed =>
        simp only [Bool.or_eq_true, decide_eq_true_eq, not_or, Nat.not_lt, Bool.not_eq_true] at failed
        split
        next =>
          have goes : loops = false := Bool.eq_false_iff.mpr goes
          obtain ⟨counts, failc⟩ := sipRequestLoops_failc (goes ▸ counted) failed.1
          obtain ⟨v, made, sess', ran, okV, frame, liveV, pending, ending⟩ :=
            sipsessBye_ok okW env false liveW awaited.req ended answered failed.2 failc (by
              show byeCount (history u.log s) ≤ ls.failc
              omega)
          have terminatedV : sess'.terminated ≠ .no := by rw [ending.terminated]; nofun
          have other : sessOf (history v.log s) s ≠ .live := by
            rw [ending.view]
            exact fun live => terminated (awaited.live.mpr live)
          have nrefs : sess'.nrefs = refs (history v.log s) s sess' true :=
            ending.nrefs.trans (awaited.nrefs.trans
              (refs_keep ending.view terminated terminatedV true).symm)
          rw [ran, ok_bind]
          cases made with
          | true =>
            have referenced : Referenced (history v.log s) s sess' :=
              ⟨nrefs.trans (by rw [ending.req]), by rw [nrefs, refs_waits terminatedV]; omega,
                iff_of_false terminatedV other, ending.hungUp⟩
            exact ⟨v, rfl, okV.settle liveV referenced pending, frame₁.trans frame⟩
          | false =>
            have owed : Owed (history v.log s) s sess' :=
              ⟨by rw [ending.req, nrefs, refs_waits terminatedV], other,
                fun no => absurd no terminatedV, ending.hungUp⟩
            obtain ⟨w, ranW, okEnd, frame'⟩ :=
              memDerefSipsess_ok okV (apartW.frame frame) env liveV owed pending
            exact ⟨w, ranW, okEnd, frame₁.trans (frame.trans frame')⟩
        next => exact isOver

/-- The request `req` of the session has been answered, or has failed. -/
theorem callResph_ok (ok : u.Ok x y (some s)) (apart : Apart y u) (env : UaEnv)
    {resph : RespHandler} (err : Bool) (scode : Nat) (live : u.sessions.get s = some sess)
    (awaited : Awaited (history u.log s) s sess) (pends : Pends (history u.log s) s sess req)
    (here : req.resph = some resph) (final : err = false → 200 ≤ scode) :
    Ends x y u (u.callResph env resph err scode) := by
  obtain rfl := Option.some.inj (here.symm.trans pends.resph)
  by_cases ended : sess.terminated = .ended
  · rw [if_pos ended]
    exact byeRespHandler_ok ok apart env err scode live awaited ended (pends.late ended) final
      (pends.byes ended)
  · rw [if_neg ended]
    exact inviteRespHandler_ok ok apart env err scode live awaited ended (pends.early ended) final
      (pends.invites ended)

/-- A provisional response has come for the request `req` of the session. -/
theorem callResph_progress (ok : u.Ok x y (some s)) (apart : Apart y u) (env : UaEnv)
    {resph : RespHandler} (scode : Nat) (live : u.sessions.get s = some sess)
    (referenced : Referenced (history u.log s) s sess) (pending : u.Pending s sess)
    (pends : Pends (history u.log s) s sess req) (here : req.resph = some resph)
    (provisional : scode < 200) : Ends x y u (u.callResph env resph false scode) := by
  obtain rfl := Option.some.inj (here.symm.trans pends.resph)
  by_cases ended : sess.terminated = .ended
  · have record := ok.recorded s sess live
    let f : Sipsess → Sipsess := fun now => { now with ls := sess.ls }
    have okW : (u.setSession s f).Ok x y (some s) := ok.setSession live rfl
      (record.write rfl rfl fun now => now)
    have liveW : (u.setSession s f).sessions.get s = some sess := get_setSession live f
    have frame₁ : Frame x y u (u.setSession s f) := .of_eq rfl rfl
    rw [if_pos ended, callResph, byeRespHandler, follow_live live, ok_bind,
      sipRequestLoops_provisional provisional]
    simp only [Bool.false_eq_true, if_false]
    rw [if_pos provisional]
    exact ⟨_, rfl, okW.settle liveW referenced pending, frame₁⟩
  · rw [if_neg ended]
    exact inviteProgress_ok ok apart env scode live referenced pending (pends.early ended) provisional

end Ua

end Autodialer
