import Mathlib.Data.List.Range

/-!
# Machines with outputs

A machine reads its inputs one after the other; with each of them it takes a step and may give
an output. A run is the state after the inputs and the outputs that were given.

* `outputs_iff`: all outputs of a run are good exactly if each step meets a condition.
* `outputs_rule`: the outputs of a run, counted from a state where some were given before.
* `measure_rule`: a measure that each step decreases.
-/

universe u v w

namespace Mealy

variable {σ : Type u} {ι : Type v} {ω : Type w} {step : σ → ι → σ × Option ω} {s : σ} {x : ι}
  {inputs : List ι}

def run (step : σ → ι → σ × Option ω) : σ → List ι → σ × List ω
  | s, [] => (s, [])
  | s, x :: rest =>
    ((run step (step s x).1 rest).1, (step s x).2.toList ++ (run step (step s x).1 rest).2)

theorem run_cons : run step s (x :: inputs) =
    ((run step (step s x).1 inputs).1, (step s x).2.toList ++ (run step (step s x).1 inputs).2) :=
  rfl

theorem run_append (inputs inputs' : List ι) : run step s (inputs ++ inputs') =
    ((run step (run step s inputs).1 inputs').1,
      (run step s inputs).2 ++ (run step (run step s inputs).1 inputs').2) := by
  induction inputs generalizing s with
  | nil => rfl
  | cons x rest ih => rw [List.cons_append, run_cons, ih, run_cons, List.append_assoc]

/-- The places in a list, each with what comes before it. -/
theorem forall_place_cons {P : List ι → ι → Prop} :
    (∀ front y, front ++ [y] <+: x :: inputs → P front y) ↔
      P [] x ∧ ∀ front y, front ++ [y] <+: inputs → P (x :: front) y := by
  constructor
  · intro all
    refine ⟨all [] x ⟨inputs, rfl⟩, fun front y place => all (x :: front) y ?_⟩
    exact List.cons_prefix_cons.mpr ⟨rfl, place⟩
  · rintro ⟨first, later⟩ front y place
    cases front with
    | nil =>
      obtain ⟨rfl, -⟩ := List.cons_prefix_cons.mp place
      exact first
    | cons x' front =>
      obtain ⟨rfl, place'⟩ := List.cons_prefix_cons.mp place
      exact later front y place'

theorem forall_place_nil {P : List ι → ι → Prop} :
    ∀ front y, front ++ [y] <+: [] → P front y := by
  intro front y place
  cases front <;> cases place.length_le

/-- All outputs of a run are good exactly if each of its steps meets a condition, which says of one
step that its output is good. -/
theorem outputs_iff {I : σ → Prop} {P : ω → Prop} {C : σ → ι → Prop}
    (keeps : ∀ s x, I s → I (step s x).1)
    (one : ∀ s x, I s → ((∀ o ∈ (step s x).2, P o) ↔ C s x)) (start : I s) :
    (∀ o ∈ (run step s inputs).2, P o) ↔
      ∀ front x, front ++ [x] <+: inputs → C (run step s front).1 x := by
  induction inputs generalizing s with
  | nil => exact iff_of_true (fun o mem => by cases mem) forall_place_nil
  | cons x rest ih =>
    have first : (∀ o ∈ (step s x).2.toList, P o) ↔ C s x := by
      rw [← one s x start]
      exact forall_congr' fun o => imp_congr_left Option.mem_toList
    rw [forall_place_cons, run_cons, List.forall_mem_append]
    exact and_congr first (ih (keeps s x start))

variable {Allowed : ι → Prop}

/-- The rule for the outputs of a run: `I m` holds of a state before the output number `m`, which
is `E m`. -/
theorem outputs_rule {I : Nat → σ → Prop} {E : Nat → ω}
    (one : ∀ m s x, I m s → Allowed x → I (m + (step s x).2.toList.length) (step s x).1 ∧
      ∀ o ∈ (step s x).2, o = E m)
    {m : Nat} (start : I m s) (allowed : ∀ x ∈ inputs, Allowed x) :
    I (m + (run step s inputs).2.length) (run step s inputs).1 ∧
      (run step s inputs).2 = (List.range' m (run step s inputs).2.length).map E := by
  induction inputs generalizing s m with
  | nil => exact ⟨start, rfl⟩
  | cons x rest ih =>
    obtain ⟨next, output⟩ := one m s x start (allowed x List.mem_cons_self)
    obtain ⟨last, outputs⟩ := ih next fun x mem => allowed x (List.mem_cons_of_mem _ mem)
    rw [run_cons, List.length_append, ← Nat.add_assoc]
    refine ⟨last, ?_⟩
    rw [← List.range'_append_1, List.map_append, ← outputs]
    cases given : (step s x).2 with
    | none => rfl
    | some o => rw [Option.toList_some, output o given]; rfl

/-- The rule for a measure: each step takes one off. -/
theorem measure_rule (I : σ → Prop) (μ : σ → Nat)
    (one : ∀ s x, I s → Allowed x → I (step s x).1 ∧ μ (step s x).1 = μ s - 1)
    (start : I s) (allowed : ∀ x ∈ inputs, Allowed x) :
    μ (run step s inputs).1 = μ s - inputs.length := by
  induction inputs generalizing s with
  | nil => rfl
  | cons x rest ih =>
    obtain ⟨next, less⟩ := one s x start (allowed x List.mem_cons_self)
    rw [run_cons, ih next fun x mem => allowed x (List.mem_cons_of_mem _ mem), less, List.length_cons]
    omega

end Mealy
