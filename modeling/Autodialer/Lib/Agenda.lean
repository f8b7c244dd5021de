import Autodialer.Lib.Trace
import Mathlib.Logic.Function.Basic

/-!
# A timer service

Timers are armed for a time and disarmed, at any moment. A poll takes the time once and then fires
armed timers that are due, one after the other: always the one that is due first, and of several due
at the same time the one that was armed first. Between two firings timers may be armed and disarmed
again. A poll ends when no armed timer is due.

* `armed_iff`: a timer is armed exactly if it was armed and nothing has happened to it since.
* `poll_once`: a poll fires a timer at most once, if no timer is armed for its time or before.
* `alarm_rule`: what comes of one start, as long as the timer is not started again or disarmed.
-/

universe u v

namespace Agenda

variable {κ : Type u} {α : Type v}

/-- When an armed timer is due, how many timers were armed before it, and what it is to do. -/
structure Alarm (α : Type v) where
  due : Nat
  stamp : Nat
  task : α

def Alarm.Before (a b : Alarm α) : Prop := a.due < b.due ∨ a.due = b.due ∧ a.stamp < b.stamp

/-- `polling` is the time of the poll in progress. -/
structure State (κ : Type u) (α : Type v) where
  alarm : κ → Option (Alarm α) := fun _ => none
  stamp : Nat := 0
  polling : Option Nat := none

inductive Event (κ : Type u) (α : Type v)
  | arm (t : κ) (due : Nat) (task : α)
  | disarm (t : κ)
  | poll (now : Nat)
  | fire (t : κ) (task : α)
  /-- The poll ends. -/
  | idle

variable [DecidableEq κ]

namespace State

def arm (s : State κ α) (t : κ) (due : Nat) (task : α) : State κ α :=
  { s with alarm := Function.update s.alarm t (some ⟨due, s.stamp, task⟩), stamp := s.stamp + 1 }

def disarm (s : State κ α) (t : κ) : State κ α :=
  { s with alarm := Function.update s.alarm t none }

@[simp] theorem alarm_arm (s : State κ α) (t : κ) (due : Nat) (task : α) :
    (s.arm t due task).alarm t = some ⟨due, s.stamp, task⟩ := Function.update_self ..

@[simp] theorem alarm_disarm (s : State κ α) (t : κ) : (s.disarm t).alarm t = none :=
  Function.update_self ..

/-- The timer `t` goes off first. -/
def First (s : State κ α) (t : κ) (a : Alarm α) : Prop :=
  s.alarm t = some a ∧ ∀ u b, u ≠ t → s.alarm u = some b → a.Before b

end State

inductive Step : State κ α → Event κ α → State κ α → Prop
  | arm {s : State κ α} {t : κ} {due : Nat} {task : α} : Step s (.arm t due task) (s.arm t due task)
  | disarm {s : State κ α} {t : κ} : Step s (.disarm t) (s.disarm t)
  | poll {s : State κ α} {now : Nat} : s.polling = none →
      Step s (.poll now) { s with polling := some now }
  | fire {s : State κ α} {t : κ} {a : Alarm α} {now : Nat} : s.polling = some now → s.First t a →
      a.due ≤ now → Step s (.fire t a.task) (s.disarm t)
  | idle {s : State κ α} {now : Nat} : s.polling = some now →
      (∀ t a, s.alarm t = some a → now < a.due) → Step s .idle { s with polling := none }

/-- The service, with no timer armed. -/
def agenda (κ : Type u) (α : Type v) [DecidableEq κ] : Lts (State κ α) (Event κ α) :=
  ⟨fun s => s = {}, Step⟩

variable {s s' : State κ α} {h h₁ h₂ : List (State κ α × Event κ α)} {e : Event κ α} {t : κ}
  {a : Alarm α} {due : Nat} {task : α}

/-! ## One timer -/

/-- The event arms or disarms the timer, or fires it. -/
def Event.Touches (t : κ) : Event κ α → Prop
  | .arm u _ _ | .disarm u | .fire u _ => u = t
  | .poll _ | .idle => False

theorem Step.untouched (step : Step s e s') (other : ¬ e.Touches t) : s'.alarm t = s.alarm t := by
  cases step with
  | arm => exact Function.update_of_ne (fun same => other same.symm) _ _
  | disarm => exact Function.update_of_ne (fun same => other same.symm) _ _
  | poll => rfl
  | fire => exact Function.update_of_ne (fun same => other same.symm) _ _
  | idle => rfl

/-- A timer is armed exactly if it was armed and nothing has happened to it since. -/
theorem armed_iff (run : (agenda κ α).Execution h s) :
    s.alarm t = some a ↔ ∃ h₁ u h₂, h = h₁ ++ (u, .arm t a.due a.task) :: h₂ ∧ u.stamp = a.stamp ∧
      ∀ x ∈ h₂, ¬ x.2.Touches t := by
  obtain ⟨s₀, rfl, run⟩ := run
  induction run with
  | nil => simp
  | @snoc h w v e before step ih =>
    have split : (∃ h₁ u h₂, h ++ [(w, e)] = h₁ ++ (u, Event.arm t a.due a.task) :: h₂ ∧
        u.stamp = a.stamp ∧ ∀ x ∈ h₂, ¬ x.2.Touches t) ↔
        (e = .arm t a.due a.task ∧ w.stamp = a.stamp) ∨ (w.alarm t = some a ∧ ¬ e.Touches t) := by
      rw [ih]
      constructor
      · rintro ⟨h₁, u, h₂, eq, stamp, quiet⟩
        rcases List.eq_nil_or_concat h₂ with rfl | ⟨h₂, x, rfl⟩
        · obtain ⟨-, same⟩ := List.append_inj' eq rfl
          obtain ⟨rfl, rfl⟩ : w = u ∧ e = _ := by simpa using same
          exact .inl ⟨rfl, stamp⟩
        · rw [List.concat_eq_append, ← List.cons_append, ← List.append_assoc] at eq
          obtain ⟨rfl, same⟩ := List.append_inj' eq rfl
          obtain rfl : (w, e) = x := by simpa using same
          exact .inr ⟨⟨h₁, u, h₂, rfl, stamp, fun y mem => quiet y (by simp [mem])⟩,
            quiet (w, e) (by simp)⟩
      · rintro (⟨rfl, stamp⟩ | ⟨⟨h₁, u, h₂, rfl, stamp, quiet⟩, other⟩)
        · exact ⟨h, w, [], rfl, stamp, by simp⟩
        · refine ⟨h₁, u, h₂ ++ [(w, e)], by simp, stamp, fun x mem => ?_⟩
          rcases List.mem_append.mp mem with old | new
          · exact quiet x old
          · rw [List.mem_singleton.mp new]
            exact other
    rw [split]
    by_cases touched : e.Touches t
    · cases step with
      | @arm u due task =>
        have same : u = t := touched
        subst same
        simp only [State.arm, Function.update_self, Option.some.injEq, Event.arm.injEq, true_and,
          touched, not_true, and_false, or_false]
        constructor
        · rintro rfl
          exact ⟨⟨rfl, rfl⟩, rfl⟩
        · rintro ⟨⟨rfl, rfl⟩, stamp⟩
          rw [stamp]
      | @disarm u =>
        have same : u = t := touched
        subst same
        simp [State.disarm, touched]
      | @fire u b now =>
        have same : u = t := touched
        subst same
        simp [State.disarm, touched]
      | poll => exact touched.elim
      | idle => exact touched.elim
    · rw [step.untouched touched]
      have notArm : e ≠ .arm t a.due a.task := by
        rintro rfl
        exact touched rfl
      simp [touched, notArm]

/-! ## From one start to the next -/

/-- The timer is started again, or disarmed. -/
def Event.Resets (t : κ) : Event κ α → Prop
  | .arm u _ _ | .disarm u => u = t
  | .fire _ _ | .poll _ | .idle => False

def Event.fires (t : κ) : Event κ α → Bool
  | .fire u _ => u = t
  | .arm _ _ _ | .disarm _ | .poll _ | .idle => false

/-- The firings of a timer in a history. -/
def firings (t : κ) (h : List (State κ α × Event κ α)) : List (State κ α × Event κ α) :=
  h.filter fun x => x.2.fires t

theorem firings_append : firings t (h₁ ++ h₂) = firings t h₁ ++ firings t h₂ := List.filter_append ..

theorem firings_untouched (w : State κ α) (other : ¬ e.Touches t) : firings t [(w, e)] = [] := by
  cases e with
  | fire u _ =>
    have ne : u ≠ t := other
    simp [firings, Event.fires, ne]
  | _ => rfl

theorem firings_fire (w : State κ α) : firings t [(w, .fire t task)] = [(w, .fire t task)] := by
  simp [firings, Event.fires]

/-- A timer that was armed and is not reset is armed until it fires, and fires once. -/
theorem phase (run : (agenda κ α).Run s h s') (armed : s.alarm t = some a)
    (quiet : ∀ x ∈ h, ¬ x.2.Resets t) :
    (firings t h = [] ∧ s'.alarm t = some a) ∨
      (∃ w now, firings t h = [(w, .fire t a.task)] ∧ w.polling = some now ∧ a.due ≤ now) ∧
        s'.alarm t = none := by
  induction run with
  | nil => exact .inl ⟨rfl, armed⟩
  | @snoc h w v e before step ih =>
    have last : ¬ e.Resets t := quiet (w, e) (by simp)
    have earlier := ih fun x mem => quiet x (List.mem_append_left _ mem)
    rw [firings_append]
    by_cases touched : e.Touches t
    · cases step with
      | arm => exact absurd touched last
      | disarm => exact absurd touched last
      | poll => exact touched.elim
      | idle => exact touched.elim
      | @fire u b now polling first isDue =>
        obtain rfl : u = t := touched
        have gone := w.alarm_disarm u
        rcases earlier with ⟨none, still⟩ | ⟨-, off⟩
        · obtain rfl : a = b := Option.some.inj (still.symm.trans first.1)
          refine .inr ⟨⟨w, now, ?_, polling, isDue⟩, gone⟩
          rw [none, List.nil_append, firings_fire]
        · rw [first.1] at off
          cases off
    · have other : firings t [(w, e)] = [] := firings_untouched w touched
      rw [other, List.append_nil, step.untouched touched]
      exact earlier

/-- What comes of one start, as long as the timer is not started again or disarmed: it fires at most
once, with its own task and not before it is due, and when a poll at a time at which it is due has
ended it has fired. -/
theorem alarm_rule (run : (agenda κ α).Execution (h₁ ++ (s', .arm t due task) :: h₂) s)
    (quiet : ∀ x ∈ h₂, ¬ x.2.Resets t) :
    (firings t h₂).length ≤ 1 ∧
    (∀ w e, (w, e) ∈ firings t h₂ → e = .fire t task ∧ ∃ now, w.polling = some now ∧ due ≤ now) ∧
    ∀ k w now k', h₂ = k ++ (w, .idle) :: k' → w.polling = some now → due ≤ now →
      (firings t k).length = 1 := by
  obtain ⟨v, -, step, rest⟩ := run.split
  have armed : ∃ n, v.alarm t = some ⟨due, n, task⟩ := by
    cases step
    exact ⟨_, Function.update_self ..⟩
  obtain ⟨n, armed⟩ := armed
  refine ⟨?_, ?_, ?_⟩
  · rcases phase rest armed quiet with ⟨none, -⟩ | ⟨⟨w, now, once, -⟩, -⟩
    · simp [none]
    · simp [once]
  · intro w e mem
    rcases phase rest armed quiet with ⟨none, -⟩ | ⟨⟨w', now, once, polling, isDue⟩, -⟩
    · rw [none] at mem
      cases mem
    · rw [once, List.mem_singleton] at mem
      obtain ⟨rfl, rfl⟩ := Prod.mk.inj mem
      exact ⟨rfl, now, polling, isDue⟩
  · rintro k w now k' rfl polling isDue
    obtain ⟨v', before, last, -⟩ := rest.split
    rcases phase before armed fun x mem => quiet x (List.mem_append_left _ mem) with
      ⟨-, still⟩ | ⟨⟨w', now', once, -⟩, -⟩
    · cases last with
      | @idle now' polling' none =>
        obtain rfl : now = now' := Option.some.inj (polling.symm.trans polling')
        exact absurd (none t _ still) (Nat.not_lt.mpr isDue)
    · simp [once]

/-! ## One poll -/

/-- In a poll no timer fires twice, and only timers fire that were armed when it began, as long as
timers are armed for later than the time of the poll. -/
theorem poll_once {now : Nat} (run : (agenda κ α).Run s h s') (polling : s.polling = some now)
    (going : ∀ x ∈ h, x.2 ≠ .idle)
    (later : ∀ x ∈ h, ∀ u due task, x.2 = .arm u due task → now < due) (t : κ) :
    s'.polling = some now ∧
      ((firings t h = [] ∧ ∀ a, s'.alarm t = some a → s.alarm t = some a ∨ now < a.due) ∨
        (firings t h).length = 1 ∧ (s.alarm t).isSome ∧ ∀ a, s'.alarm t = some a → now < a.due) := by
  induction run with
  | nil => exact ⟨polling, .inl ⟨rfl, fun a armed => .inl armed⟩⟩
  | @snoc h w v e before step ih =>
    obtain ⟨still, earlier⟩ := ih (fun x mem => going x (List.mem_append_left _ mem))
      fun x mem => later x (List.mem_append_left _ mem)
    have last := later (w, e) (by simp)
    rw [firings_append]
    -- an event that does not fire the timer leaves it as it is, disarms it, or arms it for later
    have quiet : firings t [(w, e)] = [] →
        (∀ a, v.alarm t = some a → w.alarm t = some a ∨ now < a.due) →
        (firings t h ++ firings t [(w, e)] = [] ∧
            ∀ a, v.alarm t = some a → s.alarm t = some a ∨ now < a.due) ∨
          (firings t h ++ firings t [(w, e)]).length = 1 ∧ (s.alarm t).isSome ∧
            ∀ a, v.alarm t = some a → now < a.due := by
      intro other change
      rw [other, List.append_nil]
      rcases earlier with ⟨none, armed⟩ | ⟨once, was, armed⟩
      · exact .inl ⟨none, fun a now' => (change a now').elim (armed a) .inr⟩
      · exact .inr ⟨once, was, fun a now' => (change a now').elim (armed a) id⟩
    by_cases touched : e.Touches t
    · cases step with
      | @arm u due task =>
        obtain rfl : u = t := touched
        refine ⟨still, quiet rfl fun a armed => .inr ?_⟩
        obtain rfl := Option.some.inj ((w.alarm_arm u due task).symm.trans armed)
        exact last u due task rfl
      | @disarm u =>
        obtain rfl : u = t := touched
        refine ⟨still, quiet rfl fun a armed => ?_⟩
        rw [w.alarm_disarm u] at armed
        cases armed
      | @fire u b now' polling' first isDue =>
        obtain rfl : u = t := touched
        obtain rfl : now = now' := Option.some.inj (still.symm.trans polling')
        refine ⟨still, .inr ?_⟩
        rcases earlier with ⟨none, armed⟩ | ⟨-, -, armed⟩
        · rcases armed b first.1 with was | late
          · refine ⟨?_, by simp [was], fun a off => ?_⟩
            · rw [none, List.nil_append, firings_fire]
              rfl
            · rw [w.alarm_disarm u] at off
              cases off
          · exact absurd late (Nat.not_lt.mpr isDue)
        · exact absurd (armed b first.1) (Nat.not_lt.mpr isDue)
      | poll => exact touched.elim
      | idle => exact touched.elim
    · have other : firings t [(w, e)] = [] := firings_untouched w touched
      have same : v.polling = some now := by
        cases step with
        | poll idle => rw [idle] at still; cases still
        | idle => exact absurd rfl (going (w, .idle) (by simp))
        | _ => exact still
      exact ⟨same, quiet other fun a armed => .inl (step.untouched touched ▸ armed)⟩

end Agenda
