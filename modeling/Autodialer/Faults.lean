import Autodialer.HardLimit

/-!
# Which faults `on_call_end` makes

The handler follows the pointers to the action and to the gateway of a forwarded call
in two places: where it places the PBX leg and where it writes the forwarding record.
Everything else that it follows is the call, its leg, its destination and its
campaign, so a fault of another kind is made in one of these two places or not at all.

* `onCallEnd_avoids`: the handler avoids the faults that these two places avoid.
-/

namespace Autodialer

open Fallible

variable {s t : Sys} {m : Media} {d : DestId} {c leg : CallId} {dest : Destination}
  {camp : Campaign} {call : Call} {now : Time} {env : AllocEnv} {bad : Fault → Prop}

/-- The faults `bad` are not about calls, destinations and campaigns that are gone. -/
structure Spares (bad : Fault → Prop) : Prop where
  call : ¬ bad (.dangling .call)
  destination : ¬ bad (.dangling .destination)
  campaign : ¬ bad (.dangling .campaign)
  wild : ¬ bad .wild
  nested : ¬ bad .nested

/-! ## Calls -/

theorem memDerefCall_avoids (spares : Spares bad) {depth : Nat} :
    Avoids bad (memDerefCall depth m c) := by
  induction depth generalizing m c with
  | zero => exact .error spares.nested
  | succ depth ih =>
    refine .bind (.get? spares.call _) fun call _ => ?_
    cases call.pbxCall with
    | none => exact .bind (.pure _) fun _ _ => .pure _
    | some leg => exact .bind ih fun _ _ => .pure _

theorem sdpSessAlloc_avoids (spares : Spares bad) : Avoids bad (sdpSessAlloc m env) := by
  unfold sdpSessAlloc
  cases findRtpSession m with
  | none => exact .ok _
  | some found =>
    dsimp only
    split
    · split
      · exact .ok _
      · exact .ok _
    · split
      · exact .error spares.wild
      · exact .ok _

theorem callAlloc_avoids (spares : Spares bad) {callp : Option CallId} {tel : Option String}
    {gateway : SipUri} {isPbx : Bool} {mainPt : Nat} {arg : DestId} :
    Avoids bad (callAlloc m env now callp tel gateway isPbx mainPt arg) := by
  have fails : ∀ {m : Media} {c : CallId}, Avoids bad (callAllocFail m c) :=
    .bind (memDerefCall_avoids spares) fun _ _ => .pure _
  unfold callAlloc
  split
  · refine .bind (sdpSessAlloc_avoids spares) fun r _ => ?_
    obtain ⟨m', rs⟩ := r
    cases rs with
    | none => exact fails
    | some rs =>
      dsimp only
      split
      · split
        · split
          · exact .pure _
          · exact fails
        · exact .error spares.wild
      · exact fails
  · exact .pure _

/-! ## The rules -/

theorem forwardCall_avoids (spares : Spares bad) (target : Avoids bad (forwardTarget s dest call)) :
    Avoids bad (forwardCall s now env d c dest call) := by
  refine .bind target fun r _ => .bind (callAlloc_avoids spares) fun a placing => ?_
  rcases callAlloc_cases placing with failed | ⟨rs, new, done⟩
  · dsimp only
    rw [failed.err, if_pos rfl]
    exact .pure _
  · dsimp only
    rw [done.err, done.callp, if_neg Bool.false_ne_true]
    exact .pure _

theorem forwardedRules_avoids (spares : Spares bad) : Avoids bad (forwardedRules s now c call) := by
  unfold forwardedRules
  split
  · exact .pure _
  · cases call.pbxCall with
    | none => exact .pure _
    | some leg => exact .bind (.get? spares.call _) fun _ _ => .pure _

theorem endRules_avoids (spares : Spares bad) (live : s.book.dests.get d = some dest)
    (has : dest.call = some c) (liveCall : s.media.calls.get c = some call)
    (target : ∀ camp, s.book.camps.get dest.cp = some camp → call.callStatus = .established →
      AwaitsForwarding camp call → Avoids bad (forwardTarget s dest call)) :
    Avoids bad (endRules s d now env) := by
  simp only [endRules, Sys.loadDest, Sys.loadCall, load, live, has, liveCall, Fallible.get?_some,
    nonNull_some, Fallible.ok_bind]
  split
  · exact .pure _
  next going =>
    refine .bind (.get? spares.campaign _) fun camp liveCamp => ?_
    split
    · exact .pure _
    next plays =>
      split
      next called =>
        split
        · exact forwardedRules_avoids spares
        next fresh =>
          simp only [Bool.and_eq_true, Bool.or_eq_true, decide_eq_true_eq] at called
          refine forwardCall_avoids spares (target camp (get?_eq_ok.mp liveCamp) called.1
            ⟨by simpa using going, ?_, called.2, by simpa using fresh⟩)
          simpa [called.1] using plays
      · split
        · exact .pure _
        · split
          · exact .pure _
          · exact .pure _

/-! ## The record and the fate of the destination -/

theorem recordForwarding_avoids (spares : Spares bad)
    (target : ∀ camp, s.book.camps.get dest.cp = some camp → Avoids bad (recordTarget s camp call)) :
    Avoids bad (recordForwarding s now dest call leg) :=
  .bind (.get? spares.call _) fun _ _ => .bind (.get? spares.campaign _) fun camp live =>
    .bind (target camp (get?_eq_ok.mp live)) fun _ _ => .pure _

theorem memDerefDest_avoids (spares : Spares bad) : Avoids bad (memDerefDest s d) := by
  refine .bind (.get? spares.destination _) fun dest _ => ?_
  cases dest.call with
  | none => exact .bind (.pure _) fun _ _ => .pure _
  | some c => exact .bind (memDerefCall_avoids spares) fun _ _ => .pure _

theorem endDispose_avoids (spares : Spares bad) (live : s.book.dests.get d = some dest)
    (has : dest.call = some c) (duration : Int) : Avoids bad (endDispose s d duration) := by
  simp only [endDispose, Sys.loadDest, load, live, has, Fallible.get?_some, nonNull_some,
    Fallible.ok_bind]
  refine .bind (.get? spares.call _) fun call _ => ?_
  split
  · refine .bind (.get? spares.campaign _) fun camp _ => ?_
    split
    · exact memDerefDest_avoids spares
    · split
      · exact memDerefDest_avoids spares
      · exact .bind (.bind (memDerefCall_avoids spares) fun _ _ => .pure _) fun _ _ => .pure _
  · exact .pure _

theorem endRecord_book {r : Sys × Int} (run : endRecord s d now = .ok r) : r.1.book = s.book := by
  obtain ⟨dest, -, run⟩ := bind_eq_ok.mp run
  obtain ⟨c, -, run⟩ := bind_eq_ok.mp run
  obtain ⟨call, -, run⟩ := bind_eq_ok.mp run
  split at run
  · cases hasLeg : call.pbxCall with
    | none =>
      rw [hasLeg] at run
      cases run
      rfl
    | some leg =>
      rw [hasLeg] at run
      obtain ⟨_, -, run⟩ := bind_eq_ok.mp run
      obtain ⟨_, -, run⟩ := bind_eq_ok.mp run
      obtain ⟨_, -, run⟩ := bind_eq_ok.mp run
      cases run
      rfl
  · cases run
    rfl

/-- The handler avoids what the two places avoid that look for the gateway. -/
theorem onCallEnd_avoids (spares : Spares bad) (live : s.book.dests.get d = some dest)
    (has : dest.call = some c) (liveCall : s.media.calls.get c = some call)
    (forwards : ∀ camp, s.book.camps.get dest.cp = some camp → call.callStatus = .established →
      AwaitsForwarding camp call → Avoids bad (forwardTarget s dest call))
    (records : ∀ camp, s.book.camps.get dest.cp = some camp → call.pbxCall.isSome = true →
      endRules s d now env = .ok (s.setCall c Call.forceEnd) → Avoids bad (recordTarget s camp call)) :
    Avoids bad (onCallEnd s d now env) := by
  refine .bind (endRules_avoids spares live has liveCall forwards) fun t ruled => ?_
  obtain ⟨halted, rules⟩ := endRules_cases live has liveCall ruled
  have liveNow : t.book.dests.get d = some dest := by
    rw [rules.frame]
    exact live
  obtain ⟨call', liveCall', ended, forced⟩ := rules.call_after liveCall
  have record : Avoids bad (endRecord t d now) := by
    simp only [endRecord, Sys.loadDest, Sys.loadCall, load, liveNow, has, liveCall',
      Fallible.get?_some, nonNull_some, Fallible.ok_bind]
    split
    next halted =>
      rw [halted] at ended
      subst ended
      obtain rfl := forced rfl
      cases rules
      cases hasLeg : call.pbxCall with
      | none =>
        rw [show call.forceEnd.pbxCall = none from hasLeg]
        exact .pure _
      | some leg =>
        rw [show call.forceEnd.pbxCall = some leg from hasLeg]
        exact recordForwarding_avoids spares fun camp liveCamp =>
          records camp liveCamp (by rw [hasLeg]; rfl) ruled
    · exact .pure _
  refine .bind record fun r recorded => endDispose_avoids spares ?_ has r.2
  rw [endRecord_book recorded]
  exact liveNow

end Autodialer
