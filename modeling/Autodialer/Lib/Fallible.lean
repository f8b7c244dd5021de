import Mathlib.Data.List.Basic

/-!
# Computations that may fault

A program step that may follow a bad pointer is a function into `Except ε`.
The two rules here take such a step apart: `bind_eq_ok` splits a successful
sequence at its first part, and `foldlM_rule` is the invariant rule of a loop
over a list. `Avoids` says which faults a step does not make, and has a rule
for each way of putting steps together.
-/

namespace Fallible

universe u v w

variable {ε : Type u} {α β : Type v} {γ : Type w}

/-- A sequence succeeds exactly when both of its parts do. -/
theorem bind_eq_ok {x : Except ε α} {f : α → Except ε β} {b : β} :
    (x >>= f) = .ok b ↔ ∃ a, x = .ok a ∧ f a = .ok b := by
  cases x with
  | error e => simp [bind, Except.bind]
  | ok a => simp [bind, Except.bind]

@[simp] theorem ok_bind (a : α) (f : α → Except ε β) : (.ok a >>= f) = f a := rfl

theorem pure_eq_ok {a b : α} : (pure a : Except ε α) = .ok b ↔ a = b := by
  simp [pure, Except.pure]

/-- `get? e x` reads an optional value and faults with `e` on a missing one. -/
def get? (e : ε) : Option α → Except ε α
  | none => .error e
  | some a => .ok a

@[simp] theorem get?_eq_ok {e : ε} {x : Option α} {a : α} : get? e x = .ok a ↔ x = some a := by
  cases x <;> simp [get?]

@[simp] theorem get?_some {e : ε} {a : α} : get? e (some a) = .ok a := rfl

theorem toOption_eq_some {x : Except ε α} {a : α} : x.toOption = some a ↔ x = .ok a := by
  cases x <;> simp [Except.toOption]

/-- The invariant rule of a loop over a list: `I rest s` holds of the elements
still to be visited and the state the loop is in. -/
theorem foldlM_rule {f : β → γ → Except ε β} {I : List γ → β → Prop}
    (body : ∀ x rest s s', I (x :: rest) s → f s x = .ok s' → I rest s')
    {xs : List γ} {s s' : β} (start : I xs s) (run : xs.foldlM f s = .ok s') : I [] s' := by
  induction xs generalizing s with
  | nil =>
    rw [List.foldlM_nil, pure_eq_ok] at run
    exact run ▸ start
  | cons x rest ih =>
    rw [List.foldlM_cons, bind_eq_ok] at run
    obtain ⟨t, first, others⟩ := run
    exact ih (body x rest s t start first) others

/-! ## Faults that are not made -/

/-- The fault that the computation ends in. -/
def fault? (x : Except ε α) : Option ε :=
  match x with
  | .error e => some e
  | .ok _ => none

theorem fault?_eq_some {x : Except ε α} {e : ε} : fault? x = some e ↔ x = .error e := by
  cases x <;> simp [fault?]

/-- The computation does not end in one of the faults `bad`. -/
def Avoids (bad : ε → Prop) (x : Except ε α) : Prop := ∀ e, x = .error e → ¬ bad e

namespace Avoids

variable {bad : ε → Prop} {x : Except ε α} {f : α → Except ε β}

theorem ok (a : α) : Avoids bad (.ok a : Except ε α) := fun _ failed => by cases failed

theorem pure (a : α) : Avoids bad (Pure.pure a : Except ε α) := ok a

theorem error {e : ε} (spared : ¬ bad e) : Avoids bad (.error e : Except ε α) := by
  intro e' failed
  cases failed
  exact spared

theorem get? {e : ε} (spared : ¬ bad e) (x : Option α) : Avoids bad (Fallible.get? e x) := by
  cases x with
  | none => exact error spared
  | some a => exact ok a

/-- The second part runs on a result of the first. -/
theorem bind (first : Avoids bad x) (second : ∀ a, x = .ok a → Avoids bad (f a)) :
    Avoids bad (x >>= f) := by
  cases run : x with
  | error e =>
    intro e' failed
    rw [run] at first
    cases failed
    exact first e rfl
  | ok a => exact second a run

/-- A loop over a list avoids what its body avoids in the states that it can be in. -/
theorem foldlM {f : β → γ → Except ε β} {I : β → Prop} {xs : List γ}
    (body : ∀ s, ∀ x ∈ xs, I s → Avoids bad (f s x))
    (keeps : ∀ s x s', I s → f s x = .ok s' → I s') {s : β} (start : I s) :
    Avoids bad (xs.foldlM f s) := by
  induction xs generalizing s with
  | nil => exact ok s
  | cons x rest ih =>
    rw [List.foldlM_cons]
    refine (body s x List.mem_cons_self start).bind fun t run => ?_
    exact ih (fun s y mem => body s y (List.mem_cons_of_mem _ mem)) (keeps s x t start run)

/-- A computation that makes no fault has a result. -/
theorem total (avoids : Avoids (fun _ => True) x) : ∃ a, x = .ok a := by
  cases run : x with
  | error e => exact absurd trivial (avoids e run)
  | ok a => exact ⟨a, rfl⟩

end Avoids

end Fallible
