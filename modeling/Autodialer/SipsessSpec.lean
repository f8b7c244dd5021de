import Autodialer.SipRequestSpec

/-!
# What the calls of the user keep

A session that is terminated or dereffed lives on as long as it waits for a request. The functions
that drop a reference find one reference too many (`Owed`).
-/

namespace Autodialer

open Fallible

variable {x : Option CtransId} {y : List RequestId} {z : Option SipsessId}
  {s : SipsessId} {r : RequestId} {c : CtransId} {sess sess' : Sipsess} {req req' : SipRequest}
  {h : List Entry} {e : Entry}

/-! ## Histories with one entry more -/

theorem HistoryOk.snoc (record : HistoryOk h s sess) (allowed : Allowed s h e)
    (alive : .freed s ≠ e)
    (answered : sess'.established = true ↔ sess.established = true ∨ .answered s = e)
    (peerterm : sess'.peerterm = true ↔ sess.peerterm = true ∨ .peerBye s = e)
    (establish : .establish s = e → sess'.established = true)
    (running : sess'.terminated ≠ .ended → sess.terminated ≠ .ended ∧ e.isBye = false) :
    HistoryOk (h ++ [e]) s sess' where
  conforms := record.conforms.snoc record.alive allowed
  alive mem := (List.mem_append.mp mem).elim record.alive fun last =>
    alive (List.mem_singleton.mp last)
  answered := by rw [List.mem_append, List.mem_singleton, ← record.answered, answered]
  peerterm := by rw [List.mem_append, List.mem_singleton, ← record.peerterm, peerterm]
  establish mem := (List.mem_append.mp mem).elim
    (fun old => answered.mpr (.inl (record.establish old)))
    fun last => establish (List.mem_singleton.mp last)
  noBye now := by
    obtain ⟨before, other⟩ := running now
    rw [byeCount_snoc, record.noBye before, other]
    rfl

/-- The entry is none that a session is asked about. -/
structure Entry.Plain (s : SipsessId) (e : Entry) : Prop where
  answered : .answered s ≠ e
  peerBye : .peerBye s ≠ e
  establish : .establish s ≠ e
  freed : .freed s ≠ e

theorem HistoryOk.plain (record : HistoryOk h s sess) (plain : e.Plain s)
    (allowed : Allowed s h e) (byes : e.isBye = true → sess.terminated = .ended) :
    HistoryOk (h ++ [e]) s sess :=
  record.snoc allowed plain.freed (or_iff_left plain.answered).symm (or_iff_left plain.peerBye).symm
    (fun here => absurd here plain.establish) fun running =>
      ⟨running, Bool.eq_false_iff.mpr fun bye => running (byes bye)⟩

/-- What a session is asked about in its history is not what a function writes. -/
theorem HistoryOk.write (record : HistoryOk h s sess)
    (established : sess'.established = sess.established) (peerterm : sess'.peerterm = sess.peerterm)
    (running : sess'.terminated ≠ .ended → sess.terminated ≠ .ended) : HistoryOk h s sess' where
  conforms := record.conforms
  alive := record.alive
  answered := by rw [established]; exact record.answered
  peerterm := by rw [peerterm]; exact record.peerterm
  establish := by rw [established]; exact record.establish
  noBye now := record.noBye (running now)

/-- The call is answered. -/
theorem HistoryOk.answer (record : HistoryOk h s sess) (early : sess.established = false) :
    HistoryOk (h ++ [.answered s]) s { sess with established := true } :=
  record.snoc (fun mem => Bool.false_ne_true (early.symm.trans (record.answered.mpr mem))) nofun
    (iff_of_true rfl (.inr rfl)) (or_iff_left nofun).symm (fun _ => rfl)
    fun running => ⟨running, rfl⟩

/-- The user is told so. -/
theorem HistoryOk.establishes (record : HistoryOk h s sess) (answered : sess.established = true)
    (view : sessOf h s = .live) (first : .establish s ∉ h) :
    HistoryOk (h ++ [.establish s]) s sess :=
  record.snoc ⟨view, record.answered.mp answered, first⟩ nofun (or_iff_left nofun).symm
    (or_iff_left nofun).symm (fun _ => answered) fun running => ⟨running, rfl⟩

/-- No attempt has been made between two histories. -/
structure SameCounts (h h' : List Entry) : Prop where
  invites : inviteCount h' = inviteCount h
  byes : byeCount h' = byeCount h

theorem SameCounts.snoc (h : List Entry) (invite : e.isInvite = false) (bye : e.isBye = false) :
    SameCounts h (h ++ [e]) :=
  ⟨by rw [inviteCount_snoc, invite]; rfl, by rw [byeCount_snoc, bye]; rfl⟩

variable {h' : List Entry}

theorem Pends.keep (pends : Pends h s sess req) (same : SameCounts h h') : Pends h' s sess req where
  resph := pends.resph
  invite := pends.invite
  early := pends.early
  late := pends.late
  canceled := pends.canceled
  failc := pends.failc
  invites := by rw [same.invites]; exact pends.invites
  byes := by rw [same.byes]; exact pends.byes

theorem HungUp.keep (hungUp : HungUp h sess) (same : SameCounts h h') : HungUp h' sess := by
  rw [HungUp, same.byes]
  exact hungUp

theorem refs_waits (terminated : sess.terminated ≠ .no) :
    refs h s sess true = refs h s sess false + 1 := by
  simp [refs, terminated]

theorem refs_keep (view : sessOf h' s = sessOf h s) (terminated : sess.terminated ≠ .no)
    (terminated' : sess'.terminated ≠ .no) (waits : Bool) :
    refs h' s sess' waits = refs h s sess waits := by
  simp [refs, view, terminated, terminated']

theorem refs_live (terminated : sess.terminated = .no) (view : sessOf h s = .live) (waits : Bool) :
    refs h s sess waits = 1 := by
  simp [refs, terminated, view]

theorem Referenced.keep (referenced : Referenced h s sess) (same : SameCounts h h')
    (view : sessOf h' s = sessOf h s) : Referenced h' s sess where
  nrefs := by rw [refs, view]; exact referenced.nrefs
  pos := referenced.pos
  live := by rw [view]; exact referenced.live
  hungUp := referenced.hungUp.keep same

/-- A session after `termwait`. -/
def waitsFor (sess : Sipsess) : Sipsess :=
  { sess with terminated := .waiting, nrefs := sess.nrefs + if sess.req.isSome then 1 else 0 }

theorem waitsFor_running : (waitsFor sess).terminated ≠ .ended := nofun

theorem waitsFor_stopped : (waitsFor sess).terminated ≠ .no := nofun

theorem waitsFor_hungUp : HungUp h (waitsFor sess) := fun ended => absurd ended waitsFor_running

/-- The request of a session that waits for it is canceled. -/
theorem Pends.wait (pends : Pends h s sess req) (running : sess.terminated ≠ .ended) :
    Pends h s (waitsFor sess) { req with canceled := true } where
  resph := pends.resph.trans (by rw [if_neg running]; rfl)
  invite := iff_of_true (pends.invite.mpr running) nofun
  early _ := pends.early running
  late := nofun
  canceled _ := rfl
  failc := pends.failc
  invites _ := pends.invites running
  byes := nofun

namespace Ua

variable {u u' u'' : Ua}

/-- The requests that the caller works on have left their sessions. -/
def Apart (y : List RequestId) (u : Ua) : Prop := ∀ r ∈ y, u.reqpOf r = none

namespace Apart

theorem frame (apart : Apart y u) (frame : Frame x y u u') : Apart y u' := by
  intro r mem
  rw [reqpOf, Heap.field, frame.requests r mem]
  exact apart r mem

theorem out (apart : Apart y u) (ok : u.Ok x y z) (live : u.sessions.get s = some sess)
    (holds : sess.req = some r) : r ∉ y := by
  intro mem
  have held := (ok.held s r).mp ((Heap.field_live live).trans holds)
  cases (apart r mem).symm.trans held

end Apart

/-- The request of the session, if there is one, is as it should be. -/
def Pending (u : Ua) (s : SipsessId) (sess : Sipsess) : Prop :=
  ∀ r req, sess.req = some r → u.requests.get r = some req → Pends (history u.log s) s sess req

theorem Pending.free (u : Ua) (s : SipsessId) (free : sess.req = none) : u.Pending s sess := by
  intro r req holds
  cases free.symm.trans holds

theorem history_logged (mine : e.session = s) :
    history (u.logged e).log s = history u.log s ++ [e] := by
  rw [logged, history_snoc, mine, if_pos rfl]

theorem sameCounts_logged (mine : e.session = s) (invite : e.isInvite = false)
    (bye : e.isBye = false) : SameCounts (history u.log s) (history (u.logged e).log s) := by
  rw [history_logged mine]
  exact .snoc _ invite bye

theorem sessOf_logged (mine : e.session = s) : sessOf (history (u.logged e).log s) s =
    e.userView s (sessOf (history u.log s) s) := by
  rw [history_logged mine, sessOf_snoc]

/-! ## Sessions that end -/

theorem termwait_ok (ok : u.Ok x y (some s)) (apart : Apart y u) (env : UaEnv)
    (live : u.sessions.get s = some sess) (running : sess.terminated ≠ .ended) :
    ∃ u', u.termwait env s = .ok (u', sess.req.isSome) ∧ u'.Ok x y (some s) ∧ Frame x y u u' ∧
      u'.log = u.log ∧ u'.sessions.get s = some (waitsFor sess) ∧
      ∀ r req', sess.req = some r → u'.requests.get r = some req' → ∃ req,
        u.requests.get r = some req ∧ req' = { req with canceled := true } := by
  let f : Sipsess → Sipsess := fun sess => { sess with terminated := .waiting }
  have record := ok.recorded s sess live
  have ok₁ : (u.setSession s f).Ok x y (some s) := ok.setSession live rfl
    (record.write rfl rfl fun _ => running)
  have live₁ := get_setSession live f
  simp only [termwait]
  rw [follow_live live, ok_bind]
  cases holds : sess.req with
  | none =>
    have same : f sess = waitsFor sess := by simp [waitsFor, f, holds]
    rw [same] at live₁
    exact ⟨_, rfl, ok₁, .of_eq rfl rfl, rfl, live₁, fun _ _ eq => by cases eq⟩
  | some r =>
    have same : { f sess with nrefs := (f sess).nrefs + 1 } = waitsFor sess := by
      simp [waitsFor, f, holds]
    obtain ⟨req, liveR, -⟩ := ok.request_of live holds
    have liveR₁ : (u.setSession s f).requests.get r = some req := liveR
    obtain ⟨w, ran, okW, sessions, log, frame, requests⟩ := requestCancel_ok ok₁ env liveR₁
    have liveW : w.sessions.get s = some (f sess) := by rw [sessions, live₁]
    have recordW : HistoryOk (history w.log s) s
        { f sess with nrefs := (f sess).nrefs + 1 } := by
      rw [log]
      exact record.write rfl rfl fun _ => running
    dsimp only
    rw [ran, ok_bind, follow_live liveW, ok_bind]
    have here := get_setSession liveW fun sess => { sess with nrefs := sess.nrefs + 1 }
    rw [same] at here
    refine ⟨_, rfl, okW.setSession liveW rfl recordW, ⟨frame, fun r' mem => ?_⟩, log, here, fun r' req' holds' live' => ?_⟩
    · show w.requests.get r' = _
      rw [requests]
      exact Heap.get_modify_ne fun same => apart.out ok live holds (same ▸ mem)
    · cases holds'
      have live' : w.requests.get r = some req' := live'
      rw [requests, Heap.get_modify_self, liveR₁, Option.map_some] at live'
      exact ⟨req, liveR, (Option.some.inj live').symm⟩

/-- A session that has ended, with `n` references, waits for the answer to a BYE if `waits`. -/
structure Ending (h h' : List Entry) (s : SipsessId) (n : Nat) (waits : Bool) (sess : Sipsess) :
    Prop where
  nrefs : sess.nrefs = n
  terminated : sess.terminated = .ended
  req : sess.req.isSome = waits
  hungUp : HungUp h' sess
  view : sessOf h' s = sessOf h s

theorem sipsessBye_ok (ok : u.Ok x y (some s)) (env : UaEnv) (resetLs : Bool)
    (live : u.sessions.get s = some sess) (free : sess.req = none)
    (ended : sess.terminated = .ended) (established : sess.established = true)
    (there : sess.peerterm = false)
    (failc : (if resetLs then {} else sess.ls).failc ≤ 15)
    (few : byeCount (history u.log s) ≤ (if resetLs then {} else sess.ls).failc) :
    ∃ u' made sess', u.sipsessBye env s resetLs = .ok (u', made) ∧ u'.Ok x y (some s) ∧
      Frame x y u u' ∧ u'.sessions.get s = some sess' ∧ u'.Pending s sess' ∧
      Ending (history u.log s) (history u'.log s) s sess.nrefs made sess' := by
  obtain ⟨w, isW⟩ : ∃ w, w = if resetLs then u.setSession s fun sess => { sess with ls := {} }
    else u := ⟨_, rfl⟩
  obtain ⟨now, isNow⟩ : ∃ now, now = { sess with ls := if resetLs then {} else sess.ls } := ⟨_, rfl⟩
  have record := ok.recorded s sess live
  have recordNow : HistoryOk (history u.log s) s now := by
    rw [isNow]
    exact record.write rfl rfl fun running => running
  have reset : w.Ok x y (some s) ∧ Frame x y u w ∧ w.log = u.log ∧
      w.sessions.get s = some now := by
    rw [isW, isNow]
    cases resetLs with
    | true =>
      exact ⟨ok.setSession live rfl (record.write rfl rfl fun running => running), .of_eq rfl rfl,
        rfl, get_setSession live _⟩
    | false => exact ⟨ok, .refl x y u, rfl, live⟩
  obtain ⟨okW, frame, log, liveW⟩ := reset
  have allowed : ∀ made, Allowed s (history u.log s) (.bye s made) := fun made =>
    ⟨record.answered.mp established,
      fun mem => Bool.false_ne_true (there.symm.trans (record.peerterm.mpr mem)),
      Nat.lt_succ_of_le (Nat.le_trans few failc)⟩
  have freeNow : now.req = none := by rw [isNow, free]
  have endedNow : now.terminated = .ended := by rw [isNow, ended]
  obtain ⟨v, made, ran, okV, frame', log', same, new⟩ :=
    sipRequest_ok okW env false (.bye s) liveW freeNow
  have logV : v.log = u.log := log'.trans log
  have here : history (v.logged (.bye s made)).log s = history u.log s ++ [.bye s made] :=
    (history_logged (s := s) rfl).trans (by rw [logV])
  have plain : Entry.Plain s (.bye s made) := ⟨nofun, nofun, nofun, nofun⟩
  have view : sessOf (history u.log s ++ [.bye s made]) s = sessOf (history u.log s) s :=
    sessOf_snoc _ _ _
  have count : byeCount (history u.log s ++ [.bye s made]) = byeCount (history u.log s) + 1 :=
    byeCount_snoc _ _
  have result : u.sipsessBye env s resetLs = .ok (v.logged (.bye s made), made) := by
    simp only [sipsessBye, follow_live live, ok_bind, free, ← isW, ran]
    rfl
  cases made with
  | false =>
    have liveV : v.sessions.get s = some now := by rw [same rfl, liveW]
    refine ⟨_, false, now, result, okV.logged liveV rfl ?_, frame.trans (frame'.trans (.of_eq rfl rfl)),
      liveV, .free _ s freeNow, ?_⟩
    · rw [logV]
      exact recordNow.plain plain (allowed false) fun _ => endedNow
    · rw [here]
      exact ⟨by rw [isNow], endedNow, by rw [freeNow]; rfl, fun _ _ => .inr (by omega), view⟩
  | true =>
    obtain ⟨r, req, liveR, invite, resph, canceled, sessions⟩ := new rfl
    have liveV : v.sessions.get s = some { now with req := some r } := by
      rw [sessions, Heap.get_modify_self, liveW, Option.map_some]
    have recordV : HistoryOk (history u.log s) s { now with req := some r } :=
      recordNow.write rfl rfl fun running => running
    refine ⟨_, true, _, result, okV.logged liveV rfl ?_, frame.trans (frame'.trans (.of_eq rfl rfl)),
      liveV, fun r' req' holds liveR' => ?_, ?_⟩
    · rw [logV]
      exact recordV.plain plain (allowed true) fun _ => endedNow
    · cases holds
      cases liveR.symm.trans liveR'
      rw [here]
      have loops : now.ls.failc = (if resetLs then {} else sess.ls).failc := by rw [isNow]
      exact { resph := by rw [resph]; exact congrArg some (if_pos endedNow).symm
              invite := by
                rw [invite]
                exact iff_of_false nofun fun running => running endedNow
              early := fun running => absurd endedNow running
              late := fun _ => by rw [isNow]; exact established
              canceled := fun waiting => by cases endedNow.symm.trans waiting
              failc := by rw [loops]; exact failc
              invites := fun running => absurd endedNow running
              byes := fun _ => by rw [count, loops]; exact Nat.succ_le_succ few }
    · rw [here]
      exact ⟨by rw [isNow], endedNow, rfl, fun _ _ => .inr (by omega), view⟩

theorem sessTerminate_ok (ok : u.Ok x y (some s)) (env : UaEnv)
    (live : u.sessions.get s = some sess) (free : sess.req = none)
    (running : sess.terminated ≠ .ended) :
    ∃ u' waits sess', u.sessTerminate env s = .ok (u', waits) ∧ u'.Ok x y (some s) ∧
      Frame x y u u' ∧ u'.sessions.get s = some sess' ∧ u'.Pending s sess' ∧
      Ending (history u.log s) (history u'.log s) s (sess.nrefs + if waits then 1 else 0) waits
        sess' := by
  have record := ok.recorded s sess live
  let f : Sipsess → Sipsess := fun sess => { sess with terminated := .ended }
  have ok₁ : (u.setSession s f).Ok x y (some s) := ok.setSession live rfl
    (record.write rfl rfl fun _ => running)
  have live₁ := get_setSession live f
  have frame₁ : Frame x y u (u.setSession s f) := .of_eq rfl rfl
  simp only [sessTerminate]
  rw [follow_live live, ok_bind]
  by_cases isOver : sess.established = false ∨ sess.peerterm = true
  · rw [if_pos (by simpa using isOver)]
    refine ⟨_, false, f sess, rfl, ok₁, .of_eq rfl rfl, live₁, .free _ s free, rfl, rfl,
      congrArg Option.isSome free, fun _ established => .inl ?_, rfl⟩
    exact isOver.resolve_left fun early => Bool.false_ne_true (early.symm.trans established)
  · obtain ⟨answered, there⟩ := not_or.mp isOver
    rw [if_neg (by simpa using isOver)]
    obtain ⟨w, made, sess', ran, okW, frame, liveW, pending, ending⟩ :=
      sipsessBye_ok ok₁ env true live₁ free rfl (Bool.not_eq_false _ ▸ answered)
        (Bool.not_eq_true _ ▸ there) (Nat.zero_le _) (Nat.le_of_eq (record.noBye running))
    rw [ran, ok_bind]
    cases made with
    | false =>
      exact ⟨w, false, sess', rfl, okW, frame₁.trans frame, liveW, pending, ending⟩
    | true =>
      dsimp only
      rw [if_pos rfl, follow_live liveW, ok_bind]
      have recordW := okW.recorded s sess' liveW
      exact ⟨_, true, _, rfl, okW.setSession liveW rfl (recordW.write rfl rfl fun now => now),
        frame₁.trans (frame.trans (.of_eq rfl rfl)), get_setSession liveW _,
        fun r req holds liveR => { pending r req holds liveR with },
        congrArg (· + 1) ending.nrefs, ending.terminated, ending.req, ending.hungUp, ending.view⟩

/-- What the destructor leaves of a session, which waits for a request if `waits`. -/
structure Destructed (h : List Entry) (s : SipsessId) (waits : Bool) (sess : Sipsess) : Prop where
  nrefs : sess.nrefs = if waits then 1 else 0
  view : sessOf h s = .null
  req : sess.req.isSome = waits
  terminated : sess.terminated ≠ .no
  ended : waits = false → sess.terminated = .ended
  hungUp : HungUp h sess

/-- The destructor terminates a session that has no request: it waits for the answer to a BYE, or
for nothing. -/
theorem sessTerminate_destructs {w : Ua} (okW : w.Ok x y (some s)) (frame : Frame x y u w)
    (env : UaEnv) (liveW : w.sessions.get s = some sess) (free : sess.req = none)
    (running : sess.terminated ≠ .ended) (nrefs : sess.nrefs = 0)
    (null : sessOf (history w.log s) s = .null) : ∃ u' waits sess', (do
        let (u, waits) ← w.sessTerminate env s
        if waits then pure u
        else do
          let sess ← follow .sipsess u.sessions s
          match sess.req with
          | some r => u.memDerefRequest env r
          | none => pure u : UaExec Ua) = .ok u' ∧ u'.Ok x y (some s) ∧ Frame x y u u' ∧
      u'.sessions.get s = some sess' ∧ u'.Pending s sess' ∧
      Destructed (history u'.log s) s waits sess' := by
  obtain ⟨v, waits, sess', ran, okV, frame', liveV, pending, ending⟩ :=
    sessTerminate_ok okW env liveW free running
  have view := ending.view.trans null
  have count := ending.nrefs.trans (by rw [nrefs, Nat.zero_add])
  have left : Destructed (history v.log s) s waits sess' :=
    ⟨count, view, ending.req, fun no => (by cases ending.terminated.symm.trans no),
      fun _ => ending.terminated, ending.hungUp⟩
  refine ⟨v, waits, sess', ?_, okV, frame.trans frame', liveV, pending, left⟩
  rw [ran, ok_bind]
  cases waits with
  | true => rfl
  | false =>
    dsimp only
    rw [if_neg Bool.false_ne_true, follow_live liveV, ok_bind,
      Option.not_isSome_iff_eq_none.mp (Bool.eq_false_iff.mp ending.req)]
    rfl

theorem sessDestructor_ok (ok : u.Ok x y (some s)) (apart : Apart y u) (env : UaEnv)
    (live : u.sessions.get s = some sess) (nrefs : sess.nrefs = 0)
    (null : sessOf (history u.log s) s = .null) (idle : sess.terminated ≠ .no → sess.req = none)
    (hungUp : HungUp (history u.log s) sess) (pending : u.Pending s sess) :
    ∃ u' waits sess', u.sessDestructor env s = .ok u' ∧ u'.Ok x y (some s) ∧ Frame x y u u' ∧
      u'.sessions.get s = some sess' ∧ u'.Pending s sess' ∧
      Destructed (history u'.log s) s waits sess' := by
  simp only [sessDestructor]
  rw [follow_live live, ok_bind]
  cases terminated : sess.terminated with
  | no =>
    have running : sess.terminated ≠ .ended := fun ended => by cases terminated.symm.trans ended
    obtain ⟨w, ran, okW, frame, log, liveW, canceled⟩ := termwait_ok ok apart env live running
    dsimp only
    rw [ran, ok_bind]
    cases holds : sess.req with
    | none =>
      have free : (waitsFor sess).req = none := holds
      have count : (waitsFor sess).nrefs = 0 := by simp [waitsFor, nrefs, holds]
      exact sessTerminate_destructs okW frame env liveW free waitsFor_running count (log ▸ null)
    | some r =>
      refine ⟨w, true, waitsFor sess, rfl, okW, frame, liveW, fun r' req' holds' liveR => ?_, ?_⟩
      · obtain ⟨req, liveR', rfl⟩ := canceled r' req' holds' liveR
        rw [log]
        exact (pending r' req holds' liveR').wait running
      · exact ⟨by simp [waitsFor, nrefs, holds], log ▸ null, congrArg Option.isSome holds,
          waitsFor_stopped, fun no => absurd no.symm Bool.false_ne_true, waitsFor_hungUp⟩
  | waiting =>
    have stopped : sess.terminated ≠ .no := fun no => by cases terminated.symm.trans no
    exact sessTerminate_destructs ok (.refl x y u) env live (idle stopped)
      (fun ended => by cases terminated.symm.trans ended) nrefs null
  | ended =>
    have stopped : sess.terminated ≠ .no := fun no => by cases terminated.symm.trans no
    have free := idle stopped
    refine ⟨u, false, sess, ?_, ok, .refl x y u, live, pending, nrefs, null,
      congrArg Option.isSome free, stopped, fun _ => terminated, hungUp⟩
    show (follow .sipsess u.sessions s >>= _ : UaExec Ua) = _
    rw [follow_live live, ok_bind, free]
    rfl

/-- A session with one reference too many, which calls back no more. -/
structure Owed (h : List Entry) (s : SipsessId) (sess : Sipsess) : Prop where
  nrefs : sess.nrefs = refs h s sess sess.req.isSome + 1
  notLive : sessOf h s ≠ .live
  null : sess.terminated = .no → sessOf h s = .null
  hungUp : HungUp h sess

theorem memDerefSipsess_ok (ok : u.Ok x y (some s)) (apart : Apart y u) (env : UaEnv)
    (live : u.sessions.get s = some sess) (owed : Owed (history u.log s) s sess)
    (pending : u.Pending s sess) : Ends x y u (u.memDerefSipsess env s) := by
  let f : Sipsess → Sipsess := fun sess => { sess with nrefs := sess.nrefs - 1 }
  have record := ok.recorded s sess live
  have ok₁ : (u.setSession s f).Ok x y (some s) := ok.setSession live rfl
    (record.write rfl rfl fun running => running)
  have live₁ := get_setSession live f
  have frame₁ : Frame x y u (u.setSession s f) := .of_eq rfl rfl
  have count : sess.nrefs - 1 = refs (history u.log s) s sess sess.req.isSome := by
    rw [owed.nrefs, Nat.add_sub_cancel]
  have pending₁ : (u.setSession s f).Pending s (f sess) := fun r req holds liveR =>
    { pending r req holds liveR with }
  simp only [memDerefSipsess]
  rw [follow_live live, ok_bind]
  by_cases more : 0 < sess.nrefs - 1
  · rw [if_pos more]
    have referenced : Referenced (history u.log s) s (f sess) := by
      refine ⟨count, more, iff_of_false (fun no => ?_) owed.notLive, owed.hungUp⟩
      have no : sess.terminated = .no := no
      rw [count, refs, if_pos (owed.null no), if_neg fun waits => waits.1 no] at more
      exact absurd more (Nat.lt_irrefl 0)
    exact ⟨_, rfl, ok₁.settle live₁ referenced pending₁, frame₁⟩
  · rw [if_neg more]
    have none : refs (history u.log s) s sess sess.req.isSome = 0 := by omega
    obtain ⟨noUser, noRequest⟩ := Nat.add_eq_zero_iff.mp none
    have null : sessOf (history u.log s) s = .null := by
      by_contra held
      rw [if_neg held] at noUser
      cases noUser
    have idle : sess.terminated ≠ .no → sess.req = Option.none := by
      intro stopped
      by_contra holds
      rw [if_pos ⟨stopped, Option.isSome_iff_ne_none.mpr holds⟩] at noRequest
      cases noRequest
    obtain ⟨w, waits, sess', ran, okW, frame, liveW, pending', left⟩ :=
      sessDestructor_ok ok₁ apart env live₁ (count.trans none) null idle owed.hungUp pending₁
    rw [ran, ok_bind, follow_live liveW, ok_bind, left.nrefs]
    cases waits with
    | true =>
      have referenced : Referenced (history w.log s) s sess' := by
        refine ⟨?_, by rw [left.nrefs]; exact Nat.one_pos,
          iff_of_false left.terminated (by rw [left.view]; nofun), left.hungUp⟩
        rw [left.nrefs, refs, if_pos left.view, left.req, if_pos rfl, if_pos ⟨left.terminated, rfl⟩]
      exact ⟨w, rfl, okW.settle liveW referenced pending', frame₁.trans frame⟩
    | false =>
      have free : sess'.req = Option.none :=
        Option.not_isSome_iff_eq_none.mp (Bool.eq_false_iff.mp left.req)
      exact ⟨_, rfl, okW.freeSession liveW free left.view (left.hungUp (left.ended rfl)),
        frame₁.trans (frame.trans (.of_eq rfl rfl))⟩

/-- The user derefs a session that it has. -/
theorem release_ok (ok : u.Ok x y (some s)) (apart : Apart y u) (env : UaEnv)
    (live : u.sessions.get s = some sess) (referenced : Referenced (history u.log s) s sess)
    (pending : u.Pending s sess) (held : sessOf (history u.log s) s ≠ .null) :
    Ends x y u (u.release env s) := by
  have here : history (u.logged (.released s)).log s = history u.log s ++ [.released s] :=
    history_logged rfl
  have null : sessOf (history u.log s ++ [.released s]) s = .null :=
    (sessOf_snoc _ _ _).trans (if_pos rfl)
  have same : SameCounts (history u.log s) (history u.log s ++ [.released s]) := .snoc _ rfl rfl
  have okW := ok.logged (e := .released s) live rfl
    ((ok.recorded s sess live).plain ⟨nofun, nofun, nofun, nofun⟩ held nofun)
  have owed : Owed (history u.log s ++ [.released s]) s sess := by
    refine ⟨?_, by rw [null]; nofun, fun _ => null, referenced.hungUp.keep same⟩
    rw [referenced.nrefs, refs, refs, if_neg held, if_pos null, Nat.zero_add, Nat.add_comm]
  have pendingW : (u.logged (.released s)).Pending s sess := fun r req holds liveR => by
    rw [here]
    exact (pending r req holds liveR).keep same
  obtain ⟨w, ran, okEnd, frame⟩ := memDerefSipsess_ok okW apart env live (here ▸ owed) pendingW
  have frame₁ : Frame x y u (u.logged (.released s)) := .of_eq rfl rfl
  exact ⟨w, ran, okEnd, frame₁.trans frame⟩

/-! ## What the user calls -/

/-- An INVITE request was made for the session, or could not be made. -/
structure Invited (h h' : List Entry) (s : SipsessId) (made : Bool) (sess sess' : Sipsess) :
    Prop where
  history : h' = h ++ [.invite s made]
  nrefs : sess'.nrefs = sess.nrefs
  terminated : sess'.terminated = .no
  req : sess'.req.isSome = made

theorem invite_ok (ok : u.Ok x y (some s)) (env : UaEnv) (live : u.sessions.get s = some sess)
    (free : sess.req = none) (terminated : sess.terminated = .no)
    (early : sess.established = false) (failc : sess.ls.failc ≤ 15)
    (few : inviteCount (history u.log s) ≤ sess.ls.failc)
    (view : history u.log s = [] ∨ sessOf (history u.log s) s = .live) :
    ∃ u' made sess', u.invite env s = .ok (u', made) ∧ u'.Ok x y (some s) ∧ Frame x y u u' ∧
      u'.sessions.get s = some sess' ∧ u'.Pending s sess' ∧
      Invited (history u.log s) (history u'.log s) s made sess sess' := by
  have running : sess.terminated ≠ .ended := by rw [terminated]; nofun
  have record := ok.recorded s sess live
  obtain ⟨v, made, ran, okV, frame, log, same, new⟩ :=
    sipRequest_ok ok env true (.invite s) live free
  have result : u.invite env s = .ok (v.logged (.invite s made), made) := by
    simp only [invite, follow_live live, ok_bind, ran]
    rfl
  have here : history (v.logged (.invite s made)).log s = history u.log s ++ [.invite s made] :=
    (history_logged (s := s) rfl).trans (by rw [log])
  have allowed : Allowed s (history u.log s) (.invite s made) :=
    ⟨view, fun mem => Bool.false_ne_true (early.symm.trans (record.answered.mpr mem)),
      Nat.lt_succ_of_le (Nat.le_trans few failc)⟩
  have plain : Entry.Plain s (.invite s made) := ⟨nofun, nofun, nofun, nofun⟩
  cases made with
  | false =>
    have liveV : v.sessions.get s = some sess := by rw [same rfl, live]
    have recordV : HistoryOk (history v.log s ++ [.invite s false]) s sess := by
      rw [log]
      exact record.plain plain allowed nofun
    exact ⟨_, false, sess, result, okV.logged liveV rfl recordV, frame.trans (.of_eq rfl rfl), liveV,
      .free _ s free, here, rfl, terminated, by rw [free]; rfl⟩
  | true =>
    obtain ⟨r, req, liveR, invite, resph, canceled, sessions⟩ := new rfl
    have liveV : v.sessions.get s = some { sess with req := some r } := by
      rw [sessions, Heap.get_modify_self, live, Option.map_some]
    have recordS : HistoryOk (history u.log s) s { sess with req := some r } :=
      record.write rfl rfl fun now => now
    have recordV : HistoryOk (history v.log s ++ [.invite s true]) s { sess with req := some r } := by
      rw [log]
      exact recordS.plain plain allowed nofun
    refine ⟨_, true, _, result, okV.logged liveV rfl recordV, frame.trans (.of_eq rfl rfl), liveV,
      fun r' req' holds liveR' => ?_, here, rfl, terminated, rfl⟩
    cases holds
    cases liveR.symm.trans liveR'
    have count : inviteCount (history u.log s ++ [.invite s true]) =
        inviteCount (history u.log s) + 1 := inviteCount_snoc _ _
    rw [here]
    exact { resph := by rw [resph]; exact congrArg some (if_neg running).symm
            invite := iff_of_true invite running
            early := fun _ => early
            late := fun ended => absurd ended running
            canceled := fun waiting => by cases terminated.symm.trans waiting
            failc := failc
            invites := fun _ => by rw [count]; exact Nat.succ_le_succ few
            byes := fun ended => absurd ended running }

theorem sipsessConnect_ok (ok : u.Ok x y none) (apart : Apart y u) (env : UaEnv) :
    ∃ u' s, u.sipsessConnect env = .ok (u', s) ∧ u'.Ok x y none ∧ Frame x y u u' := by
  obtain ⟨-, -, blank⟩ := ok.gone u.sessions.next u.sessions.get_next
  have blank := blank (Nat.le_refl _)
  let w : Ua := { u with sessions := u.sessions.alloc {} }
  have okW : w.Ok x y (some u.sessions.next) := ok.allocSession
  have liveW : w.sessions.get u.sessions.next = some {} := Heap.get_alloc_next _ _
  have frame₁ : Frame x y u w := .of_eq rfl rfl
  have blankW : history w.log u.sessions.next = [] := blank
  simp only [sipsessConnect]
  generalize u.sessions.next = s at okW liveW blankW
  obtain ⟨v, made, sess, ran, okV, frame, liveV, pending, invited⟩ :=
    invite_ok okW env liveW rfl rfl rfl (Nat.zero_le _) (by rw [blankW]; exact Nat.zero_le _)
      (.inl blankW)
  have here : history v.log s = [.invite s made] := by rw [invited.history, blankW]; rfl
  have hungUp : HungUp (history v.log s) sess := fun ended => by
    cases invited.terminated.symm.trans ended
  show ∃ u' s', (w.invite env s >>= _ : UaExec _) = .ok (u', s') ∧ _
  rw [ran, ok_bind]
  cases made with
  | true =>
    have here' : history (v.logged (.connected s)).log s = [.invite s true, .connected s] := by
      rw [history_logged (s := s) rfl, here]
      rfl
    have view : sessOf [.invite s true, .connected s] s = .live := if_pos rfl
    have plain : Entry.Plain s (.connected s) := by constructor <;> simp
    have record : HistoryOk (history v.log s ++ [.connected s]) s sess :=
      (okV.recorded s sess liveV).plain plain here fun bye => absurd bye Bool.false_ne_true
    have same : SameCounts (history v.log s) (history (v.logged (.connected s)).log s) :=
      sameCounts_logged rfl rfl rfl
    have referenced : Referenced (history (v.logged (.connected s)).log s) s sess := by
      rw [here']
      refine ⟨?_, ?_, iff_of_true invited.terminated view, ?_⟩
      · exact invited.nrefs.trans (refs_live invited.terminated view _).symm
      · rw [invited.nrefs]
        exact Nat.one_pos
      · exact here' ▸ hungUp.keep same
    refine ⟨_, some s, rfl, (okV.logged liveV rfl record).settle liveV referenced
      (fun r req holds liveR => (pending r req holds liveR).keep same),
      frame₁.trans (frame.trans (.of_eq rfl rfl))⟩
  | false =>
    have free : sess.req = none := Option.not_isSome_iff_eq_none.mp (Bool.eq_false_iff.mp invited.req)
    have owed : Owed (history v.log s) s sess := by
      rw [here]
      refine ⟨?_, fun live => (by cases live), fun _ => rfl, here ▸ hungUp⟩
      rw [invited.nrefs, refs, invited.terminated]
      rfl
    obtain ⟨v', ranV, okEnd, frame'⟩ :=
      memDerefSipsess_ok okV (apart.frame (frame₁.trans frame)) env liveV owed pending
    refine ⟨v', none, ?_, okEnd, frame₁.trans (frame.trans frame')⟩
    dsimp only
    rw [if_neg Bool.false_ne_true, ranV]
    rfl

/-- The user makes a call. -/
theorem userCall_ok (ok : u.Ok x y none) (apart : Apart y u) (call : UserCall × UaEnv) :
    Ends x y u (u.userCall call) := by
  obtain ⟨call, env⟩ := call
  cases call with
  | connect =>
    obtain ⟨w, _, ran, okW, frame⟩ := sipsessConnect_ok ok apart env
    refine ⟨w, ?_, okW, frame⟩
    rw [userCall, ran]
    rfl
  | deref s =>
    rw [userCall]
    split
    next => exact ⟨u, rfl, ok, .refl x y u⟩
    next held =>
      have held : sessOf (history u.log s) s ≠ .null := by rwa [sessOf_history]
      cases live : u.sessions.get s with
      | none => exact absurd (ok.gone s live).2.1 held
      | some sess =>
        exact release_ok (ok.weaken s) apart env live (ok.referenced s sess nofun live)
          (fun r req => ok.pends s sess r req nofun live) held

theorem userCalls_ok (calls : List (UserCall × UaEnv)) :
    ∀ {u : Ua}, u.Ok x y none → Apart y u → Ends x y u (calls.foldlM userCall u) := by
  induction calls with
  | nil => exact fun {u} ok _ => ⟨u, rfl, ok, .refl x y u⟩
  | cons call calls ih =>
    intro u ok apart
    obtain ⟨v, ran, okV, frame⟩ := userCall_ok ok apart call
    obtain ⟨w, ranW, okW, frame'⟩ := ih okV (apart.frame frame)
    exact ⟨w, by rw [List.foldlM_cons, ran, ok_bind, ranW], okW, frame.trans frame'⟩

/-- A handler of the user is called, and makes calls. -/
theorem called_ok (ok : u.Ok x y (some s)) (apart : Apart y u) (env : UaEnv)
    (live : u.sessions.get s = some sess) (mine : e.session = s)
    (record : HistoryOk (history u.log s ++ [e]) s sess)
    (same : SameCounts (history u.log s) (history u.log s ++ [e]))
    (referenced : Referenced (history u.log s ++ [e]) s sess) (pending : u.Pending s sess) :
    Ends x y u (u.called env e) := by
  have here : history (u.logged e).log s = history u.log s ++ [e] := history_logged mine
  have frame₁ : Frame x y u (u.logged e) := .of_eq rfl rfl
  have settled : (u.logged e).Ok x y none :=
    (ok.logged live mine record).settle live (here ▸ referenced) fun r req holds liveR => by
      rw [here]
      exact (pending r req holds liveR).keep same
  obtain ⟨w, ran, okEnd, frame⟩ := userCalls_ok env.user settled (apart.frame frame₁)
  exact ⟨w, ran, okEnd, frame₁.trans frame⟩

end Ua

end Autodialer
