import Autodialer.Lib.Trace
import Mathlib.Data.List.Forall2

/-!
# Refinement between transition systems

A relation between the states of two systems is a forward simulation if the second system can
follow every step of the first, by an event that the first one's event stands for. Then it can
follow every run (`Simulates.execution`), and what its runs never do the first does not do either.
-/

universe u v w x

namespace Lts

variable {σ : Type u} {α : Type v} {ε : Type w} {ε' : Type x} {T : Lts σ ε} {A : Lts α ε'}
  {φ : ε → ε'} {R : σ → α → Prop}

/-- The system `A` can follow every step of `T`; the event `e` is followed by `φ e`. -/
structure Simulates (T : Lts σ ε) (A : Lts α ε') (φ : ε → ε') (R : σ → α → Prop) : Prop where
  init : ∀ s, T.init s → ∃ a, A.init a ∧ R s a
  step : ∀ s a e t, R s a → T.step s e t → ∃ b, A.step a (φ e) b ∧ R t b

/-- Two histories with corresponding events, in related states. -/
def Matched (φ : ε → ε') (R : σ → α → Prop) (h : List (σ × ε)) (k : List (α × ε')) : Prop :=
  List.Forall₂ (fun x y => R x.1 y.1 ∧ y.2 = φ x.2) h k

theorem Matched.snoc {h : List (σ × ε)} {k : List (α × ε')} {s : σ} {a : α}
    (matched : Matched φ R h k) (rel : R s a) (e : ε) :
    Matched φ R (h ++ [(s, e)]) (k ++ [(a, φ e)]) :=
  List.rel_append matched (.cons ⟨rel, rfl⟩ .nil)

/-- The second system follows every run of the first. -/
theorem Simulates.execution {h : List (σ × ε)} {s : σ} (sim : Simulates T A φ R)
    (run : T.Execution h s) : ∃ k a, A.Execution k a ∧ R s a ∧ Matched φ R h k := by
  obtain ⟨s₀, start, run⟩ := run
  induction run with
  | nil =>
    obtain ⟨a, startA, rel⟩ := sim.init s₀ start
    exact ⟨[], a, ⟨a, startA, Run.nil⟩, rel, .nil⟩
  | @snoc h t u e _ last ih =>
    obtain ⟨k, a, runA, rel, matched⟩ := ih
    obtain ⟨b, stepA, rel'⟩ := sim.step t a e u rel last
    exact ⟨k ++ [(a, φ e)], b, runA.snoc stepA, rel', matched.snoc rel e⟩

theorem Simulates.reachable {s : σ} (sim : Simulates T A φ R) (reach : T.Reachable s) :
    ∃ a, A.Reachable a ∧ R s a := by
  obtain ⟨h, run⟩ := reach
  obtain ⟨k, a, runA, rel, _⟩ := sim.execution run
  exact ⟨a, runA.reachable, rel⟩

/-! ## Parts of matched histories -/

/-- A matched history can be cut where the other one is cut. -/
theorem Matched.append_left {h₁ h₂ : List (σ × ε)} {k : List (α × ε')}
    (matched : Matched φ R (h₁ ++ h₂) k) :
    ∃ k₁ k₂, k = k₁ ++ k₂ ∧ Matched φ R h₁ k₁ ∧ Matched φ R h₂ k₂ := by
  induction h₁ generalizing k with
  | nil => exact ⟨[], k, rfl, .nil, matched⟩
  | cons x h₁ ih =>
    obtain ⟨y, l, here, rest, rfl⟩ := List.forall₂_cons_left_iff.mp matched
    obtain ⟨k₁, k₂, rfl, left, right⟩ := ih rest
    exact ⟨y :: k₁, k₂, rfl, .cons here left, right⟩

theorem Matched.append_right {h : List (σ × ε)} {k₁ k₂ : List (α × ε')}
    (matched : Matched φ R h (k₁ ++ k₂)) :
    ∃ h₁ h₂, h = h₁ ++ h₂ ∧ Matched φ R h₁ k₁ ∧ Matched φ R h₂ k₂ := by
  induction k₁ generalizing h with
  | nil => exact ⟨[], h, rfl, .nil, matched⟩
  | cons y k₁ ih =>
    obtain ⟨x, l, here, rest, rfl⟩ := List.forall₂_cons_right_iff.mp matched
    obtain ⟨h₁, h₂, rfl, left, right⟩ := ih rest
    exact ⟨x :: h₁, h₂, rfl, .cons here left, right⟩

theorem Matched.cons_left {x : σ × ε} {h : List (σ × ε)} {k : List (α × ε')}
    (matched : Matched φ R (x :: h) k) :
    ∃ a l, k = (a, φ x.2) :: l ∧ R x.1 a ∧ Matched φ R h l := by
  obtain ⟨⟨a, e⟩, l, ⟨rel, rfl⟩, rest, rfl⟩ := List.forall₂_cons_left_iff.mp matched
  exact ⟨a, l, rfl, rel, rest⟩

theorem Matched.cons_right {a : α} {e' : ε'} {h : List (σ × ε)} {k : List (α × ε')}
    (matched : Matched φ R h ((a, e') :: k)) :
    ∃ s e l, h = (s, e) :: l ∧ e' = φ e ∧ R s a ∧ Matched φ R l k := by
  obtain ⟨⟨s, e⟩, l, ⟨rel, same⟩, rest, rfl⟩ := List.forall₂_cons_right_iff.mp matched
  exact ⟨s, e, l, rfl, same, rel, rest⟩

/-- Entries of a matched history come from entries of the other one. -/
theorem Matched.of_mem {h : List (σ × ε)} {k : List (α × ε')} (matched : Matched φ R h k)
    {y : α × ε'} (mem : y ∈ k) : ∃ x ∈ h, R x.1 y.1 ∧ y.2 = φ x.2 := by
  induction matched with
  | nil => cases mem
  | @cons x y' h k here _ ih =>
    rcases List.mem_cons.mp mem with rfl | mem
    · exact ⟨x, by simp, here⟩
    · obtain ⟨x', mem', rel⟩ := ih mem
      exact ⟨x', by simp [mem'], rel⟩

theorem Matched.mem {h : List (σ × ε)} {k : List (α × ε')} (matched : Matched φ R h k)
    {x : σ × ε} (mem : x ∈ h) : ∃ a, (a, φ x.2) ∈ k ∧ R x.1 a := by
  induction matched with
  | nil => cases mem
  | @cons x' y h k here _ ih =>
    rcases List.mem_cons.mp mem with rfl | mem
    · obtain ⟨rel, same⟩ := here
      exact ⟨y.1, by simp [← same], rel⟩
    · obtain ⟨a, mem', rel⟩ := ih mem
      exact ⟨a, by simp [mem'], rel⟩

/-- Matched histories with what a test of the events accepts. -/
theorem Matched.filter {h : List (σ × ε)} {k : List (α × ε')} (matched : Matched φ R h k)
    {p : ε → Bool} {q : ε' → Bool} (same : ∀ x ∈ h, q (φ x.2) = p x.2) :
    Matched φ R (h.filter fun x => p x.2) (k.filter fun y => q y.2) := by
  induction matched with
  | nil => exact .nil
  | @cons x y h k here _ ih =>
    have rest := ih fun x' mem => same x' (by simp [mem])
    have test : q y.2 = p x.2 := by rw [here.2, same x (by simp)]
    rw [List.filter_cons, List.filter_cons, test]
    split
    · exact .cons here rest
    · exact rest

end Lts
