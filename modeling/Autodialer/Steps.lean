import Autodialer.Callbacks
import Autodialer.CallEndSpec
import Autodialer.PullSpec
import Autodialer.System

/-!
# What a step of the process does

`step_cases` is the inversion of a step: a pass, a tick of a campaign, a
supervision, a callback or the loss of a timer. Callbacks touch calls, sessions and
statements only.
-/

namespace Autodialer

variable {s s' : Sys} {e : Event}

/-- libre calls back, or an audio thread reports. -/
def Event.isCallback : Event → Bool
  | .progress .. | .establish .. | .close .. | .rtp .. | .played .. => true
  | _ => false

/-- The state in which a start message finds its campaign `cp` when it is ticked. -/
def Sys.startCamp (s : Sys) (cp : CampId) (rest : List (Nat × CampId)) : Sys :=
  (Sys.setCamp { s with msgq := rest } cp fun camp => { camp with isRunning := true }).tmrInit cp

/-- The state in which the timer of a campaign calls its handler. -/
def Sys.disarmCamp (s : Sys) (cp : CampId) : Sys :=
  s.setCamp cp fun camp => { camp with tmr := false }

/-- The state in which the timer of a destination calls its handler. -/
def Sys.disarmDest (s : Sys) (d : DestId) : Sys :=
  s.setDest d fun dest => { dest with tmr := false }

@[simp] theorem media_disarmDest (s : Sys) (d : DestId) : (s.disarmDest d).media = s.media := rfl
@[simp] theorem db_disarmDest (s : Sys) (d : DestId) : (s.disarmDest d).db = s.db := rfl

theorem dests_disarmDest {d : DestId} {dest : Destination} (live : s.book.dests.get d = some dest) :
    (s.disarmDest d).book.dests.get d = some { dest with tmr := false } :=
  (Heap.get_modify_self _ _ _).trans (by rw [live]; rfl)

theorem pending_camp {cp : CampId} (pending : s.pending (.camp cp) = true) :
    ∃ camp, s.book.camps.get cp = some camp ∧ camp.tmr = true :=
  (Option.any_eq_true ..).mp ((Bool.and_eq_true ..).mp pending).1

theorem pending_dest {d : DestId} (pending : s.pending (.dest d) = true) :
    ∃ dest, s.book.dests.get d = some dest ∧ dest.tmr = true :=
  (Option.any_eq_true ..).mp ((Bool.and_eq_true ..).mp pending).1

theorem startCamp_eq (s : Sys) (cp : CampId) (rest : List (Nat × CampId)) :
    s.startCamp cp rest = Sys.setCamp
      { s with
        msgq := rest
        torn := s.torn || s.armed (.camp cp)
        lost := s.lost.erase (.camp cp) } cp
      fun camp => { camp with isRunning := true, tmr := false } := by
  have armed : ((s.book.camps.modify cp fun camp => { camp with isRunning := true }).get cp).any
      Campaign.tmr = (s.book.camps.get cp).any Campaign.tmr := by
    rw [Heap.get_modify_self, Option.any_map]
  simp only [Sys.startCamp, Sys.tmrInit, Sys.setCamp, Book.setCamp, Heap.modify_modify, armed]
  rfl

/-- With the event the campaign `cp` is ticked, from the given state on. -/
inductive Ticks (s : Sys) (cp : CampId) (now : Time) (env : DestId → DialEnv) : Event → Sys → Prop
  /-- The oldest start message reaches its campaign. -/
  | message {id : Nat} {rest : List (Nat × CampId)} : s.msgq = (id, cp) :: rest →
      Ticks s cp now env (.message now env) (s.startCamp cp rest)
  | timer {camp : Campaign} : s.book.camps.get cp = some camp → camp.tmr = true →
      Ticks s cp now env (.campTimer cp now env) (s.disarmCamp cp)

theorem Ticks.state {cp : CampId} {now : Time} {env : DestId → DialEnv} {t : Sys}
    (ticks : Ticks s cp now env e t) : ∃ f msgq torn lost, Flags f ∧
      t = Sys.setCamp { s with msgq := msgq, torn := torn, lost := lost } cp f := by
  cases ticks with
  | @message _ rest _ =>
    exact ⟨_, rest, _, _, fun _ => ⟨true, false, rfl⟩, startCamp_eq s cp rest⟩
  | timer => exact ⟨_, s.msgq, s.torn, s.lost, fun camp => ⟨camp.isRunning, false, rfl⟩, rfl⟩

/-- What the event `e` can do to `s`. -/
inductive StepResult (s : Sys) : Event → Sys → Prop
  | pulled {snap : Snapshot} {s' : Sys} : pullGroups s snap = .ok s' → StepResult s (.pull snap) s'
  | ticked {e : Event} {cp : CampId} {now : Time} {env : DestId → DialEnv} {t s' : Sys} :
      Ticks s cp now env e t → startFakeCalling t cp now env = .ok s' → StepResult s e s'
  | supervised {d : DestId} {now : Time} {env : AllocEnv} {dest : Destination} {s' : Sys} :
      s.book.dests.get d = some dest → dest.tmr = true →
      onCallEnd (s.disarmDest d) d now env = .ok s' →
      StepResult s (.destTimer d now env) s'
  | calledBack {e : Event} {m : Media} {db : Db Sql} : e.isCallback = true →
      Reported s.book s.db db → s.run e = .ok { s with media := m, db := db } →
      StepResult s e { s with media := m, db := db }
  | lost {tmr : TimerId} : s.torn = true → s.pending tmr = true →
      StepResult s (.lose tmr) { s with lost := tmr :: s.lost }

/-- A callback leaves contacts, campaigns and messages alone, and enqueues at most
a status record. -/
theorem callback_frame (callback : e.isCallback = true) (run : s.run e = .ok s') :
    s' = { s with media := s'.media, db := s'.db } ∧ Reported s.book s.db s'.db := by
  cases e with
  | progress c scode =>
    obtain ⟨db, reported, rfl⟩ := progressHandler_cases run
    exact ⟨rfl, reported⟩
  | establish c env =>
    obtain ⟨_, _, _, _, reported, _, rfl⟩ := establishHandler_cases run
    exact ⟨rfl, reported⟩
  | close c err scode =>
    obtain ⟨_, rfl⟩ := closeHandler_cases run
    exact ⟨rfl, .inl rfl⟩
  | rtp rs mb =>
    have forward : ∀ t : Sys, rtpForward t rs mb = { t with media := (rtpForward t rs mb).media } := by
      intro t
      unfold rtpForward
      split <;> rfl
    rcases rtpRecvHandler_cases run with rfl | rfl | ⟨_, _, _, _, _, _, rfl | ⟨_, _, rfl⟩⟩
    · exact ⟨rfl, .inl rfl⟩
    · rw [forward]
      exact ⟨rfl, .inl rfl⟩
    · rw [forward]
      exact ⟨rfl, .inl rfl⟩
    · exact ⟨rfl, .inl rfl⟩
  | played c =>
    cases run
    exact ⟨rfl, .inl rfl⟩
  | _ => cases callback

theorem step_cases (step : dialer.step s e s') : StepResult s e s' := by
  obtain ⟨enabled, run⟩ := step_iff.mp step
  have calledBack : e.isCallback = true → StepResult s e s' := by
    intro callback
    obtain ⟨frame, reported⟩ := callback_frame callback run
    rw [frame] at run ⊢
    exact .calledBack callback reported run
  cases e with
  | pull snap => exact .pulled run
  | message now env =>
    cases queue : s.msgq with
    | nil => simp [Sys.enabled, queue] at enabled
    | cons msg rest =>
      simp only [Sys.run, queue] at run
      obtain ⟨_, -, run⟩ := Fallible.bind_eq_ok.mp run
      exact .ticked (.message queue) run
  | campTimer cp now env =>
    obtain ⟨camp, live, armed⟩ := pending_camp enabled
    exact .ticked (.timer live armed) run
  | destTimer d now env =>
    obtain ⟨dest, live, armed⟩ := pending_dest enabled
    exact .supervised live armed run
  | progress | establish | close | rtp | played => exact calledBack rfl
  | lose tmr =>
    obtain ⟨torn, pending⟩ := (Bool.and_eq_true ..).mp enabled
    cases run
    exact .lost torn pending
  | astray => cases run

/-- The timer of a destination calls `on_call_end`. -/
theorem supervised_of_step {d : DestId} {now : Time} {env : AllocEnv}
    (step : dialer.step s (.destTimer d now env) s') :
    ∃ dest, s.book.dests.get d = some dest ∧ dest.tmr = true ∧
      onCallEnd (s.disarmDest d) d now env = .ok s' := by
  cases step_cases step with
  | ticked ticks => cases ticks
  | supervised live armed run => exact ⟨_, live, armed, run⟩
  | calledBack callback => cases callback

/-- A step that is none of the main loop is a pass. -/
theorem pass_of_step (step : dialer.step s e s') (notMain : e.isMain = false) :
    ∃ snap, e = .pull snap ∧ pullGroups s snap = .ok s' := by
  cases e with
  | pull snap => exact ⟨snap, rfl, (step_iff.mp step).2⟩
  | message | campTimer | destTimer | progress | establish | close | rtp | played | lose | astray =>
    cases notMain

end Autodialer
