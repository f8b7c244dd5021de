import Autodialer.CallLimit
import Autodialer.CallSteps

/-!
# The limit of half an hour

An established call should be ended at the latest when it is half an hour old.
`on_call_end` looks at the age of a call that has been forwarded and, where a
campaign limits the duration, of a call that is not waiting to be forwarded.

* `overdue_released_iff`: in a run every overdue call is released exactly when
  none of them is waiting to be forwarded.
* `overdue_kept`: while forwarding fails, the call goes on.
-/

namespace Autodialer

variable {s s' t : Sys} {d : DestId} {c : CallId} {dest : Destination} {camp : Campaign}
  {call : Call} {now : Time} {env : AllocEnv} {ans : CallId → Addr → Prop}

/-! ## The property -/

/-- `on_call_end` runs for the established call `c` of `d` more than half an hour after
its answer, in a campaign that limits the duration of its calls. -/
structure Overdue (s : Sys) (d : DestId) (now : Time) (dest : Destination) (camp : Campaign)
    (c : CallId) (call : Call) : Prop where
  live : s.book.dests.get d = some dest
  liveCamp : s.book.camps.get dest.cp = some camp
  has : dest.call = some c
  liveCall : s.media.calls.get c = some call
  established : call.callStatus = .established
  limited : 0 < camp.maxCallDuration
  late : 30 * 60 < now - call.establishTm

/-- The rules of `on_call_end` leave the call `c` ended and without a SIP session, and
it is gone in `s'`, when the handler has finished. -/
def Released (s : Sys) (d : DestId) (now : Time) (env : AllocEnv) (c : CallId) (s' : Sys) : Prop :=
  (∃ t call, endRules (s.disarmDest d) d now env = .ok t ∧ t.media.calls.get c = some call ∧
    call.ended = true ∧ call.sess = .null) ∧ s'.media.calls.get c = none

/-- The call goes to the PBX as soon as that can be reached: it is neither ended nor
does the number of plays end it, a key was pressed or it joins the PBX, and it has
not been forwarded. -/
structure AwaitsForwarding (camp : Campaign) (call : Call) : Prop where
  notEnded : call.ended = false
  plays : ¬ (camp.actions = [] ∧ camp.maxPlay ≤ call.numPlay)
  called : call.eventReceived = true ∨ call.joinPbx = true
  notForwarded : call.forwarded = false

/-! ## The invariants -/

theorem maxCallDuration_persistent : Persistent fun camp => camp.maxCallDuration ≤ 600 where
  new := by decide
  row camp row gateway pbxGateway _ := by
    show (if 600 ≤ row.maxCallDuration % 2 ^ 16 then 600 else row.maxCallDuration % 2 ^ 16) ≤ 600
    split
    · exact Nat.le_refl _
    next less => exact Nat.le_of_not_le less
  settings camp camp' same short := by
    obtain ⟨_, _, _, _, rfl⟩ := same
    exact short
  actions _ _ short := short

/-- Only a call with a key press or one that joins the PBX is forwarded. -/
def Call.Called (call : Call) : Prop :=
  call.forwarded = true → call.eventReceived = true ∨ call.joinPbx = true

/-- The settings and the calls that the rules rely on. -/
structure Timely (s : Sys) : Prop where
  short : EveryCamp (fun camp => camp.maxCallDuration ≤ 600) s.book
  called : EveryCall Call.Called s.media

theorem step_timely {e : Event} (inv : Inv ans s) (limited : Timely s)
    (step : dialer.step s e s') : Timely s' where
  short := step_everyCamp maxCallDuration_persistent inv limited.short step
  called := by
    refine step_everyCall inv limited.called step (fun call isNew => ?_)
      fun c call call' live called wrote => ?_
    · cases isNew with
      | main => exact nofun
      | leg => exact nofun
    · cases wrote with
      | pressed => exact fun _ => .inl rfl
      | forwarded _ _ _ _ event => exact fun _ => event
      | _ => exact called

theorem SysInit.timely (init : SysInit s) : Timely s := by
  obtain ⟨n, audioPath, -, rfl⟩ := init
  exact ⟨EveryCamp.empty, fun _ _ live => by cases live⟩

/-! ## The rules -/

theorem endRules_awaits (live : s.book.dests.get d = some dest)
    (liveCamp : s.book.camps.get dest.cp = some camp) (has : dest.call = some c)
    (liveCall : s.media.calls.get c = some call) (up : call.callStatus = .established)
    (awaits : AwaitsForwarding camp call) :
    endRules s d now env = forwardCall s now env d c dest call := by
  have called : (call.eventReceived || call.joinPbx) = true := by simpa using awaits.called
  have plays : ¬ (camp.actions.isEmpty && true && decide (camp.maxPlay ≤ call.numPlay)) = true := by
    simpa using awaits.plays
  simp only [endRules, Sys.loadDest, Sys.loadCall, Sys.loadCamp, load, live, has, liveCall, liveCamp,
    Fallible.get?_some, nonNull_some, Fallible.ok_bind, awaits.notEnded, Bool.false_eq_true,
    if_false, plays, up, decide_true, called, Bool.true_and, if_true, awaits.notForwarded]

/-- All other calls that are overdue are ended. -/
theorem endRules_overdue (live : s.book.dests.get d = some dest)
    (liveCamp : s.book.camps.get dest.cp = some camp) (has : dest.call = some c)
    (liveCall : s.media.calls.get c = some call) (up : call.callStatus = .established)
    (limited : 0 < camp.maxCallDuration) (late : 30 * 60 < now - call.establishTm)
    (short : camp.maxCallDuration ≤ 600) (called : call.Called)
    (rests : ¬ AwaitsForwarding camp call) :
    endRules s d now env = .ok (s.setCall c Call.forceEnd) := by
  simp only [endRules, Sys.loadDest, Sys.loadCall, Sys.loadCamp, load, live, has, liveCall, liveCamp,
    Fallible.get?_some, nonNull_some, Fallible.ok_bind, up, decide_true, Bool.true_and,
    Bool.and_true]
  split
  next ended => exact congrArg Except.ok (setCall_forceEnd liveCall ended)
  next notEnded =>
    split
    · rfl
    next plays =>
      split
      next waits =>
        split
        · rw [forwardedRules, if_pos late]
          rfl
        next notForwarded =>
          exact absurd ⟨by simpa using notEnded, by simpa using plays, by simpa using waits,
            by simpa using notForwarded⟩ rests
      next quiet =>
        have notForwarded : call.forwarded = false := by
          cases forwarded : call.forwarded with
          | false => rfl
          | true => exact absurd (called forwarded) (by simpa using quiet)
        have age : (30 * 60 : Int) < now - call.establishTm := late
        have old : (camp.maxCallDuration : Int) < now - call.establishTm := by omega
        rw [if_pos (by simp [notForwarded, limited, old])]
        rfl

/-! ## The step and the run -/

theorem Overdue.released_iff (overdue : Overdue s d now dest camp c call) (inv : Inv ans s)
    (limited : Timely s) (step : dialer.step s (.destTimer d now env) s') :
    Released s d now env c s' ↔ ¬ AwaitsForwarding camp call := by
  have liveNow := dests_disarmDest overdue.live
  have liveCamp : (s.disarmDest d).book.camps.get dest.cp = some camp := overdue.liveCamp
  constructor
  · rintro ⟨⟨t, call', ruled, live, ended, -⟩, -⟩ awaits
    rw [endRules_awaits liveNow liveCamp overdue.has overdue.liveCall overdue.established
      awaits] at ruled
    have rules := forwardCall_cases awaits.notEnded overdue.established awaits.notForwarded ruled
    obtain ⟨call'', live', notEnded, -⟩ := rules.call_after overdue.liveCall
    obtain rfl := Option.some.inj (live.symm.trans live')
    rw [ended] at notEnded
    cases notEnded
  · intro rests
    have ruled : endRules (s.disarmDest d) d now env = .ok ((s.disarmDest d).setCall c Call.forceEnd) :=
      endRules_overdue liveNow liveCamp overdue.has overdue.liveCall overdue.established
        overdue.limited overdue.late (limited.short _ camp overdue.liveCamp)
        (limited.called c call overdue.liveCall) rests
    have after : ((s.disarmDest d).setCall c Call.forceEnd).media.calls.get c =
        some call.forceEnd :=
      (Heap.get_modify_self _ _ _).trans (by rw [media_disarmDest, overdue.liveCall]; rfl)
    refine ⟨⟨_, call.forceEnd, ruled, after, rfl, rfl⟩, ?_⟩
    cases inv.timer_cases overdue.live overdue.has overdue.liveCall step with
    | destroyed _ _ _ _ _ gone => exact (memDerefCall_calls gone).1
    | requeued _ _ _ _ _ gone => exact (memDerefCall_calls gone).1
    | rearmed ruled' rules =>
      rw [ruled] at ruled'
      cases ruled'
      obtain ⟨call'', live', notEnded, -⟩ := rules.call_after overdue.liveCall
      obtain rfl := Option.some.inj (after.symm.trans live')
      cases notEnded

/-- In a run every overdue call is released by the handler that looks at it exactly when
none of them is waiting to be forwarded. -/
theorem overdue_released_iff {h : List (Sys × Event)} (run : dialer.Execution h s) :
    (∀ t d now env dest camp c call u, (t, .destTimer d now env) ∈ h →
      dialer.step t (.destTimer d now env) u → Overdue t d now dest camp c call →
      Released t d now env c u) ↔
    ∀ t d now env dest camp c call, (t, .destTimer d now env) ∈ h →
      Overdue t d now dest camp c call → ¬ AwaitsForwarding camp call := by
  have holds : ∀ t e, (t, e) ∈ h → Timely t ∧ ∃ ans, Inv ans t := by
    intro t e mem
    obtain ⟨h₁, h₂, u, -, before, -, -⟩ := run.step_of_mem mem
    have limited := before.induct (C := fun _ _ => True)
      (I := fun h s => Inv (Answered h) s ∧ Timely s) (fun _ _ => trivial)
      (fun _ init => ⟨execution_inv ⟨_, init, .nil⟩, init.timely⟩)
      fun _ _ _ _ _ ⟨inv, limited⟩ step _ => ⟨step_inv inv step, step_timely inv limited step⟩
    exact ⟨limited.2, _, limited.1⟩
  constructor
  · intro released t d now env dest camp c call mem overdue
    obtain ⟨limited, ans, inv⟩ := holds t _ mem
    obtain ⟨u, step, -⟩ := run.visits_next mem
    exact (overdue.released_iff inv limited step).mp
      (released t d now env dest camp c call u mem step overdue)
  · intro rests t d now env dest camp c call u mem step overdue
    obtain ⟨limited, ans, inv⟩ := holds t _ mem
    exact (overdue.released_iff inv limited step).mpr
      (rests t d now env dest camp c call mem overdue)

/-- A campaign without an audio file; its calls may last a minute. -/
def shortCalls : Snapshot :=
  { oneCampaign with
    campaigns := some [{
      id := 1, frequency := 2, maxCallDuration := 60, gatewayId := 1, pbxGatewayId := 1,
      pbxNumber := some "600" }] }

/-- The contact answers at 105. -/
def answeredShort : List Event :=
  [.pull shortCalls, .message 100 fun _ => {},
    .establish 0 { answer := { raddr := 55 }, now := 105 }]

theorem overdue_released_iff_forwarded : ∃ h s, dialer.Execution h s ∧ h.length = 5 ∧
    ((∀ t d now env dest camp c call u, (t, .destTimer d now env) ∈ h →
      dialer.step t (.destTimer d now env) u → Overdue t d now dest camp c call →
      Released t d now env c u) ↔
    ∀ t d now env dest camp c call, (t, .destTimer d now env) ∈ h →
      Overdue t d now dest camp c call → ¬ AwaitsForwarding camp call) := by
  obtain ⟨h, s, run, test⟩ := Lts.replay_exists SysInit Sys.next (s := Sys.boot 4 "/audio")
    (answeredShort ++ [.destTimer 0 106 {}, .destTimer 0 2000 {}]) (fun h _ => h.length == 5)
    ⟨4, "/audio", by decide, rfl⟩ (by decide)
  exact ⟨h, s, run, beq_iff_eq.mp test, overdue_released_iff run⟩

/-- There is no socket for the PBX leg, and after more than half an hour the call goes
on. -/
theorem overdue_kept : ∃ h s s' dest camp c call call', dialer.Execution h s ∧
    Overdue s 0 2000 dest camp c call ∧
    dialer.step s (.destTimer 0 2000 { rtpAlloc := false }) s' ∧
    s'.media.calls.get c = some call' ∧ call'.ended = false ∧ call'.sess = .live := by
  obtain ⟨h, s, run, test⟩ := Lts.replay_exists SysInit Sys.next (s := Sys.boot 4 "/audio")
    (answeredShort ++ [.destTimer 0 106 { rtpAlloc := false }])
    (fun _ s => (s.book.dests.get 0).any fun dest => (s.book.camps.get dest.cp).any fun camp =>
      dest.call.any fun c => (s.media.calls.get c).any fun call =>
        (call.callStatus = .established && 0 < camp.maxCallDuration &&
          30 * 60 < 2000 - call.establishTm) &&
        (s.next (.destTimer 0 2000 { rtpAlloc := false })).any fun s' =>
          (s'.media.calls.get c).any fun call' => !call'.ended && call'.sess = .live)
    ⟨4, "/audio", by decide, rfl⟩ (by decide)
  simp only [Option.any_eq_true, Bool.and_eq_true, decide_eq_true_eq, Bool.not_eq_true'] at test
  obtain ⟨dest, live, camp, liveCamp, c, has, call, liveCall, ⟨⟨up, limited⟩, late⟩, s', step, call',
    liveCall', notEnded, connected⟩ := test
  exact ⟨h, s, s', dest, camp, c, call, call', run, ⟨live, liveCamp, has, liveCall, up, limited,
    late⟩, step, liveCall', notEnded, connected⟩

end Autodialer
