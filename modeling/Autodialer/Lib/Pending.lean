import Mathlib.Data.List.Basic

/-!
# Pending writes to a cell

A list of entries is still to be applied to a table, oldest first. For one cell
of the table each entry either writes a value, which then stands in the cell, or
leaves the cell alone. `after` is what the cell will hold in the end.

* `after_cases`: the last entry that writes to the cell decides, and if there is
  none, the cell keeps its value.
-/

universe u v

namespace Pending

variable {α : Type u} {V : Type v} {writes : α → Option V} {l k : List α} {x : α} {v : V}

/-- The value of the cell after the entries of the list. -/
def after (writes : α → Option V) (l : List α) (v : V) : V :=
  l.foldl (fun v x => (writes x).getD v) v

@[simp] theorem after_nil : after writes [] v = v := rfl

@[simp] theorem after_cons : after writes (x :: l) v = after writes l ((writes x).getD v) := rfl

@[simp] theorem after_append : after writes (l ++ k) v = after writes k (after writes l v) :=
  List.foldl_append ..

/-- Nothing writes to the cell. -/
theorem after_of_none (none : ∀ x ∈ l, writes x = none) : after writes l v = v := by
  induction l generalizing v with
  | nil => rfl
  | cons x l ih =>
    rw [after_cons, none x List.mem_cons_self, Option.getD_none]
    exact ih fun y mem => none y (List.mem_cons_of_mem x mem)

/-- Either nothing writes to the cell, or the last write decides, whatever the
cell holds before. -/
theorem after_cases (writes : α → Option V) (l : List α) :
    (∀ x ∈ l, writes x = none) ∨
      ∃ x ∈ l, ∃ u, writes x = some u ∧ ∀ v, after writes l v = u := by
  induction l with
  | nil => exact .inl fun x mem => absurd mem (by simp)
  | cons x l ih =>
    rcases ih with quiet | ⟨y, mem, u, wrote, last⟩
    · cases wrote : writes x with
      | none =>
        refine .inl fun y mem => ?_
        rcases List.mem_cons.mp mem with rfl | mem
        · exact wrote
        · exact quiet y mem
      | some u =>
        refine .inr ⟨x, List.mem_cons_self, u, wrote, fun v => ?_⟩
        rw [after_cons, wrote, Option.getD_some, after_of_none quiet]
    · exact .inr ⟨y, List.mem_cons_of_mem x mem, u, wrote, fun v => last _⟩

/-- What the cell holds in the end was written by an entry, or was there before. -/
theorem after_eq (writes : α → Option V) (l : List α) (v : V) :
    after writes l v = v ∨ ∃ x ∈ l, writes x = some (after writes l v) := by
  rcases after_cases writes l with quiet | ⟨x, mem, u, wrote, last⟩
  · exact .inl (after_of_none quiet)
  · exact .inr ⟨x, mem, by rw [wrote, last]⟩

/-- The first entries are lost. If the cell ends up with a value that none of them
writes, it makes no difference. -/
theorem after_drop (other : ∀ x ∈ l, writes x ≠ some (after writes (l ++ k) v)) :
    after writes k v = after writes (l ++ k) v := by
  rcases after_cases writes l with quiet | ⟨x, mem, u, wrote, last⟩
  · rw [after_append, after_of_none quiet]
  · rcases after_cases writes k with quiet' | ⟨y, _, u', _, last'⟩
    · refine absurd ?_ (other x mem)
      rw [after_append, after_of_none quiet', last, wrote]
    · rw [after_append, last', last']

end Pending
