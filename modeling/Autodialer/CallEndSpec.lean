import Autodialer.CallEnd
import Autodialer.TickSpec

/-!
# What `on_call_end` does

`EndResult` is the list of everything `onCallEnd` can do with a destination and
its call. An ended call is recorded, and its destination is destroyed or goes
back to the end of `destinations`; which of the two depends on `Lasted`, the
duration that is left in the variable of the handler.
-/

namespace Autodialer

variable {s s' t : Sys} {d : DestId} {c : CallId} {dest : Destination} {call : Call} {now : Time}
  {env : AllocEnv}

/-! ## The rules -/

/-- What the rules do with the call `c`; the flag says that it is ended after
them. -/
inductive RulesResult (s : Sys) (now : Time) (env : AllocEnv) (d : DestId) (c : CallId)
    (call : Call) : Sys → Bool → Prop
  | kept : call.ended = false → RulesResult s now env d c call s false
  /-- The call has ended before, or it is ended here. -/
  | ended : RulesResult s now env d c call (s.setCall c Call.forceEnd) true
  /-- There was no call for the PBX leg. -/
  | refused {gateway : Gateway} {tel : Option String} {r : Alloc} : call.ended = false →
      call.callStatus = .established → call.forwarded = false →
      callAlloc s.media env now call.pbxCall tel gateway.sipUri true call.pt d = .ok r →
      r.err = true →
      RulesResult s now env d c call
        ({ s with media := r.media }.setCall c fun call => { call with pbxCall := r.callp }) false
  | forwarded {gateway : Gateway} {tel : Option String} {r : Alloc} {leg : CallId} :
      call.ended = false → call.callStatus = .established → call.forwarded = false →
      callAlloc s.media env now call.pbxCall tel gateway.sipUri true call.pt d = .ok r →
      r.err = false → r.callp = some leg →
      RulesResult s now env d c call
        ((({ s with media := r.media }.setCall c fun call => { call with pbxCall := r.callp }).setCall
          leg fun call => { call with ispbxcall := true, dest := some d }).setCall c fun call =>
            { call with forwarded := true }) false

theorem setCall_forceEnd (live : s.media.calls.get c = some call) (ended : call.ended = true) :
    (s.setCall c fun call => { call with sess := .null, respCode := 1 }) =
      s.setCall c Call.forceEnd := by
  rw [Sys.setCall, Sys.setCall, Media.setCall, Media.setCall, Heap.modify_congr fun call' live' => ?_]
  obtain rfl : call = call' := Option.some.inj (live.symm.trans live')
  rw [Call.forceEnd, ended]

/-- A forwarding, placed or not, ends no call. -/
theorem forwardCall_cases (notEnded : call.ended = false) (up : call.callStatus = .established)
    (notForwarded : call.forwarded = false) (run : forwardCall s now env d c dest call = .ok s') :
    RulesResult s now env d c call s' false := by
  obtain ⟨⟨gateway, tel⟩, -, run⟩ := Fallible.bind_eq_ok.mp run
  obtain ⟨r, placing, run⟩ := Fallible.bind_eq_ok.mp run
  dsimp only at run
  split at run
  next err =>
    cases run
    exact .refused notEnded up notForwarded placing err
  next ok =>
    obtain ⟨leg, isLeg, run⟩ := Fallible.bind_eq_ok.mp run
    cases run
    exact .forwarded notEnded up notForwarded placing (by simpa using ok) (nonNull_eq_ok.mp isLeg)

theorem forwardedRules_cases (notEnded : call.ended = false)
    (run : forwardedRules s now c call = .ok s') :
    ∃ halted, RulesResult s now env d c call s' halted := by
  unfold forwardedRules at run
  split at run
  · cases run
    exact ⟨_, .ended⟩
  · split at run
    · cases run
      exact ⟨_, .kept notEnded⟩
    · obtain ⟨legCall, -, run⟩ := Fallible.bind_eq_ok.mp run
      cases run
      split
      · exact ⟨_, .ended⟩
      · exact ⟨_, .kept notEnded⟩

theorem endRules_cases (live : s.book.dests.get d = some dest) (has : dest.call = some c)
    (liveCall : s.media.calls.get c = some call) (run : endRules s d now env = .ok s') :
    ∃ halted, RulesResult s now env d c call s' halted := by
  simp only [endRules, Sys.loadDest, Sys.loadCall, load, live, has, liveCall, Fallible.get?_some,
    nonNull_some, Fallible.ok_bind] at run
  split at run
  next ended =>
    cases run
    rw [setCall_forceEnd liveCall ended]
    exact ⟨_, .ended⟩
  next notEnded =>
    rw [Bool.not_eq_true] at notEnded
    obtain ⟨camp, -, run⟩ := Fallible.bind_eq_ok.mp run
    split at run
    · cases run
      exact ⟨_, .ended⟩
    · split at run
      next up =>
        split at run
        · exact forwardedRules_cases notEnded run
        next notForwarded =>
          simp only [Bool.and_eq_true, decide_eq_true_eq] at up
          exact ⟨_, forwardCall_cases notEnded up.1 (by simpa using notForwarded) run⟩
      · split at run
        · cases run
          exact ⟨_, .ended⟩
        · split at run
          · cases run
            exact ⟨_, .ended⟩
          · cases run
            exact ⟨_, .kept notEnded⟩

/-- The calls after the leg has been placed: the main call names it, and it is new. -/
theorem Placed.legCalls_get {tel : Option String} {r : Alloc} {rs : SessionId} {new : Call}
    (done : Placed s.media env now tel true d r rs new)
    (live : s.media.calls.get c = some call) (p : CallId) :
    ((({ s with media := r.media }.setCall c fun call => { call with pbxCall := r.callp }).setCall
        s.media.calls.next fun call => { call with ispbxcall := true, dest := some d }).setCall c
          fun call => { call with forwarded := true }).media.calls.get p =
      if p = c then
        some { call with pbxCall := some s.media.calls.next, forwarded := true }
      else if p = s.media.calls.next then some { new with ispbxcall := true, dest := some d }
      else s.media.calls.get p := by
  have apart : c ≠ s.media.calls.next := Heap.ne_next live
  split
  next here =>
    subst here
    simp [Sys.setCall, done.calls, done.callp, Heap.get_modify_ne apart, Heap.get_alloc_of_live live]
  next notMain =>
    split
    next here =>
      subst here
      simp [Sys.setCall, done.calls, Heap.get_modify_ne notMain]
    next ne => simp [Sys.setCall, done.calls, Heap.get_modify, notMain, Heap.get_alloc, ne]

/-- After the rules the call is still there. -/
theorem RulesResult.call_after {halted : Bool} (rules : RulesResult s now env d c call t halted)
    (live : s.media.calls.get c = some call) :
    ∃ call', t.media.calls.get c = some call' ∧ call'.ended = halted ∧
      (halted = true → call' = call.forceEnd) := by
  cases rules with
  | kept notEnded => exact ⟨call, live, notEnded, by simp⟩
  | ended => exact ⟨call.forceEnd, by simp [Sys.setCall, live], rfl, fun _ => rfl⟩
  | @refused gateway tel r notEnded _ _ placing err =>
    have failed := callAlloc_notPlaced placing err
    refine ⟨{ call with pbxCall := r.callp }, ?_, notEnded, by simp⟩
    simp [Sys.setCall, failed.calls, live]
  | @forwarded gateway tel r leg notEnded _ _ placing ok isLeg =>
    obtain ⟨rfl, rs, new, done⟩ := callAlloc_placed placing ok isLeg
    exact ⟨_, (done.legCalls_get live c).trans (if_pos rfl), notEnded, by simp⟩

/-- The rules leave the contacts and the statements alone. -/
theorem RulesResult.frame {halted : Bool} (rules : RulesResult s now env d c call t halted) :
    t = { s with media := t.media } := by
  cases rules <;> rfl

/-! ## The record -/

/-- The duration that decides about the contact: that of the PBX leg if there is
one. -/
def Lasted (m : Media) (now : Time) (call : Call) (duration : Int) : Prop :=
  match call.pbxCall with
  | none => duration = call.duration now
  | some leg => ∃ legCall, m.calls.get leg = some legCall ∧ duration = legCall.duration now

/-- Ending the main call changes no duration that decides: that of the leg is its own, and
without a leg the handler goes by the call as it was. -/
theorem Lasted.of_forceEnd {duration : Int} (apart : call.pbxCall ≠ some c)
    (lasted : Lasted (s.setCall c Call.forceEnd).media now call.forceEnd duration) :
    Lasted s.media now call duration := by
  unfold Lasted at lasted ⊢
  change match call.pbxCall with | none => _ | some leg => _ at lasted
  cases hasLeg : call.pbxCall with
  | none =>
    rw [hasLeg] at lasted
    exact lasted
  | some leg =>
    rw [hasLeg] at lasted
    have other : leg ≠ c := by
      rintro rfl
      exact apart hasLeg
    simpa [Sys.setCall, Heap.get_modify_ne other] using lasted

/-- `db'` is `db` with the final record `u`, and perhaps a forwarding record. -/
def Recorded (db : Db Sql) (u : FinalUpdate) (db' : Db Sql) : Prop :=
  db' = dbExec db (.final u) ∨ ∃ f, db' = dbExec (dbExec db (.final u)) (.forwarding f)

theorem endRecord_ended {duration : Int} (live : s.book.dests.get d = some dest)
    (has : dest.call = some c) (liveCall : s.media.calls.get c = some call)
    (apart : call.pbxCall ≠ some c) (ended : call.ended = true)
    (run : endRecord s d now = .ok (s', duration)) :
    Lasted s.media now call duration ∧ ∃ db, Recorded s.db (finalUpdate dest call now) db ∧
      s' = { s.setCall c fun call => { call with callStatus := .disconnected } with db := db } := by
  simp only [endRecord, Sys.loadDest, Sys.loadCall, load, live, has, liveCall, Fallible.get?_some,
    nonNull_some, Fallible.ok_bind, ended, if_true] at run
  unfold Lasted
  cases hasLeg : call.pbxCall with
  | none =>
    rw [hasLeg] at run
    cases run
    exact ⟨rfl, _, .inl rfl, rfl⟩
  | some leg =>
    rw [hasLeg] at run
    obtain ⟨legCall, liveLeg, run⟩ := Fallible.bind_eq_ok.mp run
    obtain ⟨camp, -, run⟩ := Fallible.bind_eq_ok.mp run
    obtain ⟨⟨gateway, callTo⟩, -, run⟩ := Fallible.bind_eq_ok.mp run
    cases run
    have other : leg ≠ c := by
      rintro rfl
      exact apart hasLeg
    refine ⟨⟨legCall, ?_, rfl⟩, _, .inr ⟨_, rfl⟩, rfl⟩
    simpa [Sys.loadCall, Sys.setCall, Sys.exec, Heap.get_modify_ne other] using liveLeg

/-! ## The fate of the destination -/

/-- The call as the final record sees it. -/
def Call.disconnect (call : Call) : Call := { call.forceEnd with callStatus := .disconnected }

/-- What `on_call_end` does with the destination `d` and its call `c`. -/
inductive EndResult (s : Sys) (now : Time) (env : AllocEnv) (d : DestId) (dest : Destination)
    (c : CallId) (call : Call) : Sys → Prop
  | rearmed {t : Sys} : endRules s d now env = .ok t → RulesResult s now env d c call t false →
      EndResult s now env d dest c call (t.setDest d fun dest => { dest with tmr := true })
  | destroyed {camp : Campaign} {duration : Int} {db : Db Sql} {media : Media} :
      endRules s d now env = .ok (s.setCall c Call.forceEnd) →
      s.book.camps.get dest.cp = some camp → Lasted s.media now call duration →
      Recorded s.db (finalUpdate dest call.forceEnd now) db →
      (0 < camp.maxTry ∧ camp.maxTry ≤ dest.tryCount) ∨ 0 < duration →
      memDerefCall callDepth (s.media.setCall c Call.disconnect) c = .ok media →
      EndResult s now env d dest c call
        { s with media := media, book := s.book.remove d, db := db }
  | requeued {camp : Campaign} {duration : Int} {db : Db Sql} {media : Media} :
      endRules s d now env = .ok (s.setCall c Call.forceEnd) →
      s.book.camps.get dest.cp = some camp → Lasted s.media now call duration →
      Recorded s.db (finalUpdate dest call.forceEnd now) db →
      ¬ ((0 < camp.maxTry ∧ camp.maxTry ≤ dest.tryCount) ∨ 0 < duration) →
      memDerefCall callDepth (s.media.setCall c Call.disconnect) c = .ok media →
      EndResult s now env d dest c call
        { s with
          media := media
          book := (s.book.setDest d fun dest => { dest with call := none }).moveTo d
            (.destinations dest.cp)
          db := db }

theorem onCallEnd_cases (live : s.book.dests.get d = some dest) (has : dest.call = some c)
    (liveCall : s.media.calls.get c = some call) (apart : call.pbxCall ≠ some c)
    (run : onCallEnd s d now env = .ok s') : EndResult s now env d dest c call s' := by
  obtain ⟨t, ruled, run⟩ := Fallible.bind_eq_ok.mp run
  obtain ⟨⟨t', duration⟩, recorded, disposed⟩ := Fallible.bind_eq_ok.mp run
  dsimp only at disposed
  obtain ⟨halted, rules⟩ := endRules_cases live has liveCall ruled
  obtain ⟨call', liveCall', isOver, same⟩ := rules.call_after liveCall
  have liveDest : t.book.dests.get d = some dest := by rw [rules.frame]; exact live
  cases halted with
  | false =>
    have unchanged : t' = t := by
      simp only [endRecord, Sys.loadDest, Sys.loadCall, load, liveDest, has, liveCall',
        Fallible.get?_some, nonNull_some, Fallible.ok_bind, isOver] at recorded
      cases recorded
      rfl
    subst unchanged
    simp only [endDispose, Sys.loadDest, Sys.loadCall, load, liveDest, has, liveCall',
      Fallible.get?_some, nonNull_some, Fallible.ok_bind, isOver] at disposed
    cases disposed
    exact .rearmed ruled rules
  | true =>
    obtain rfl := same rfl
    cases rules with
    | ended =>
      obtain ⟨lasted, db, rec, rfl⟩ := endRecord_ended liveDest has liveCall' apart isOver recorded
      generalize final : ({ (s.setCall c Call.forceEnd).setCall c fun call =>
        { call with callStatus := .disconnected } with db := db } : Sys) = u at disposed
      have state : u = { s with media := s.media.setCall c Call.disconnect, db := db } := by
        rw [← final]
        simp only [Sys.setCall, Media.setCall, Heap.modify_modify]
        rfl
      have liveDest' : u.book.dests.get d = some dest := by rw [state]; exact live
      have liveCall'' : u.media.calls.get c = some call.disconnect := by simp [state, liveCall]
      simp only [endDispose, Sys.loadDest, Sys.loadCall, load, liveDest', has, liveCall'',
        Fallible.get?_some, nonNull_some, Fallible.ok_bind, Call.disconnect, Call.forceEnd,
        if_true] at disposed
      obtain ⟨camp, liveCamp, fate⟩ := Fallible.bind_eq_ok.mp disposed
      have liveCamp : s.book.camps.get dest.cp = some camp := by
        simpa [state, Sys.loadCamp] using liveCamp
      have lasted := lasted.of_forceEnd apart
      have destroy : memDerefDest u d = .ok s' →
          (0 < camp.maxTry ∧ camp.maxTry ≤ dest.tryCount) ∨ 0 < duration →
          EndResult s now env d dest c call s' := by
        intro run why
        obtain ⟨media, gone, rfl⟩ := memDerefDest_cases liveDest' run
        rw [has, state] at gone
        have result := EndResult.destroyed ruled liveCamp lasted rec why gone
        simpa [state] using result
      split at fate
      next spent =>
        exact destroy fate (.inl (by simpa using spent))
      next notSpent =>
        split at fate
        next answered => exact destroy fate (.inr answered)
        next notAnswered =>
          obtain ⟨u', dropped, fate⟩ := Fallible.bind_eq_ok.mp fate
          obtain ⟨media, gone, rfl⟩ := dropCall_cases dropped
          cases fate
          rw [state] at gone
          have result := EndResult.requeued ruled liveCamp lasted rec
            (not_or.mpr ⟨by simpa using notSpent, notAnswered⟩) gone
          rw [state]
          exact result

end Autodialer
