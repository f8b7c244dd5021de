import Mathlib.Data.List.Infix

/-!
# Two texts around a separator

A record writes two texts with a separator between them and nothing around them. It can be read
back only if the separator stands nowhere else.

* `join_eq_iff`: two readings of one record differ by a piece that moves past the separator.
* `onlyReading_iff`: a record has one reading exactly if its texts are without the separator.
-/

universe u

namespace Separator

variable {α : Type u} {sep x y x' y' : List α}

/-- The record of the two texts. -/
def join (sep x y : List α) : List α := x ++ (sep ++ y)

/-- Two places of the separator in a text do not overlap: none of its ends is one of its starts. -/
def Unbordered (sep : List α) : Prop := ∀ w, w <+: sep → w <:+ sep → w = [] ∨ w = sep

/-- A separator whose first element stands nowhere else in it. -/
theorem unbordered_cons {a : α} {rest : List α} (once : a ∉ rest) : Unbordered (a :: rest) := by
  intro w isStart isEnd
  cases w with
  | nil => exact .inl rfl
  | cons b w =>
    obtain ⟨rfl, -⟩ := List.cons_prefix_cons.mp isStart
    rcases List.suffix_cons_iff.mp isEnd with whole | inRest
    · exact .inr whole
    · exact absurd (inRest.subset List.mem_cons_self) once

/-- In the second reading the piece `v` and the separator before it belong to the first text. -/
def Moved (sep x y x' y' : List α) : Prop := ∃ v, x' = join sep x v ∧ y = join sep v y'

theorem Moved.join_eq (moved : Moved sep x y x' y') : join sep x y = join sep x' y' := by
  obtain ⟨v, rfl, rfl⟩ := moved
  simp [join]

/-- What stands between two places of the separator. -/
theorem between_cases (unbordered : Unbordered sep) {u : List α}
    (same : sep ++ y = u ++ (sep ++ y')) :
    (u = [] ∧ y = y') ∨ ∃ v, u = sep ++ v ∧ y = v ++ (sep ++ y') := by
  rcases List.append_eq_append_iff.mp same with ⟨v, isU, isY⟩ | ⟨w, isSep, rest⟩
  · exact .inr ⟨v, isU, isY⟩
  · -- the second place starts within the first one
    have isEnd : w <:+ sep := ⟨u, isSep.symm⟩
    have isStart : w <+: sep :=
      List.prefix_of_prefix_length_le ⟨y, rest.symm⟩ (List.prefix_append sep y') isEnd.length_le
    rcases unbordered w isStart isEnd with rfl | rfl
    · refine .inr ⟨[], ?_, rest.symm⟩
      rw [isSep, List.append_nil, List.append_nil]
    · refine .inl ⟨List.eq_nil_of_length_eq_zero ?_, (List.append_cancel_left rest).symm⟩
      have lengths := congrArg List.length isSep
      rw [List.length_append] at lengths
      exact Nat.add_right_cancel (lengths.symm.trans (Nat.zero_add _).symm)

theorem join_eq_iff (unbordered : Unbordered sep) : join sep x y = join sep x' y' ↔
    (x = x' ∧ y = y') ∨ Moved sep x y x' y' ∨ Moved sep x' y' x y := by
  constructor
  · intro same
    rcases List.append_eq_append_iff.mp same with ⟨u, isX', between⟩ | ⟨u, isX, between⟩
    · rcases between_cases unbordered between with ⟨rfl, isY⟩ | ⟨v, rfl, isY⟩
      · exact .inl ⟨(isX'.trans (List.append_nil x)).symm, isY⟩
      · exact .inr (.inl ⟨v, isX', isY⟩)
    · rcases between_cases unbordered between with ⟨rfl, isY'⟩ | ⟨v, rfl, isY'⟩
      · exact .inl ⟨isX.trans (List.append_nil x'), isY'.symm⟩
      · exact .inr (.inr ⟨v, isX, isY'⟩)
  · rintro (⟨rfl, rfl⟩ | moved | moved)
    · rfl
    · exact moved.join_eq
    · exact moved.join_eq.symm

/-! ## One reading -/

/-- The record is that of these two texts and of no others. -/
def OnlyReading (sep x y : List α) : Prop :=
  ∀ x' y', join sep x' y' = join sep x y → x' = x ∧ y' = y

/-- A separator in the first text is another place to read the record at. -/
theorem OnlyReading.not_infix_left (only : OnlyReading sep x y) (nonempty : sep ≠ []) :
    ¬ sep <:+: x := by
  rintro ⟨front, back, rfl⟩
  obtain ⟨same, -⟩ := only front (join sep back y) (by simp [join])
  have lengths := congrArg List.length same
  rw [List.length_append, List.length_append] at lengths
  have positive := List.length_pos_iff.mpr nonempty
  omega

theorem OnlyReading.not_infix_right (only : OnlyReading sep x y) (nonempty : sep ≠ []) :
    ¬ sep <:+: y := by
  rintro ⟨front, back, rfl⟩
  obtain ⟨-, same⟩ := only (join sep x front) back (by simp [join])
  have lengths := congrArg List.length same
  rw [List.length_append, List.length_append] at lengths
  have positive := List.length_pos_iff.mpr nonempty
  omega

/-- A record has one reading exactly if neither text contains the separator. -/
theorem onlyReading_iff (nonempty : sep ≠ []) (unbordered : Unbordered sep) :
    OnlyReading sep x y ↔ ¬ sep <:+: x ∧ ¬ sep <:+: y := by
  constructor
  · exact fun only => ⟨only.not_infix_left nonempty, only.not_infix_right nonempty⟩
  · rintro ⟨notX, notY⟩ x' y' same
    rcases (join_eq_iff unbordered).mp same with equal | ⟨v, isX, -⟩ | ⟨v, -, isY⟩
    · exact equal
    · exact absurd ⟨x', v, by rw [isX, join, List.append_assoc]⟩ notX
    · exact absurd ⟨v, y', by rw [isY, join, List.append_assoc]⟩ notY

end Separator
