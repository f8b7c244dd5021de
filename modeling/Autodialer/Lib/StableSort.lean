import Mathlib.Data.List.Sort

/-!
# Stable sorting by a key

`stableSort key l` is `l` by increasing key, with elements of equal keys in the
order in which they stand in `l` (`stableSort_spec`). A sorting algorithm that exchanges neighbours
leaves the stable sort of its list alone as long as it exchanges only those
that are in the wrong order (`stableSort_exchange`), so when it ends with a
sorted list, that list is the stable sort of the one it started with.
-/

universe u v

namespace StableSort

variable {α : Type u} {κ : Type v} [LinearOrder κ] {key : α → κ} {a b : α} {l l' : List α}

/-- The list by increasing key; ties keep their order. -/
def stableSort (key : α → κ) (l : List α) : List α := l.insertionSort fun a b => key a ≤ key b

/-- Increasing keys. -/
abbrev Increasing (key : α → κ) (l : List α) : Prop := l.Pairwise fun a b => key a ≤ key b

theorem stableSort_perm (key : α → κ) (l : List α) : (stableSort key l).Perm l :=
  List.perm_insertionSort _ l

theorem stableSort_increasing (key : α → κ) (l : List α) : Increasing key (stableSort key l) :=
  have : Std.Total fun a b => key a ≤ key b := ⟨fun a b => le_total (key a) (key b)⟩
  have : IsTrans α fun a b => key a ≤ key b := ⟨fun _ _ _ => le_trans⟩
  List.pairwise_insertionSort _ l

/-- An increasing list is sorted already. -/
theorem stableSort_eq_self (increasing : Increasing key l) : stableSort key l = l :=
  increasing.insertionSort_eq

theorem stableSort_cons (key : α → κ) (a : α) (l : List α) :
    stableSort key (a :: l) = (stableSort key l).orderedInsert (fun a b => key a ≤ key b) a :=
  rfl

/-- What comes first makes no difference to how the rest is sorted. -/
theorem stableSort_cons_congr (same : stableSort key l = stableSort key l') (a : α) :
    stableSort key (a :: l) = stableSort key (a :: l') := by
  rw [stableSort_cons, stableSort_cons, same]

/-- Elements of different keys may be inserted in any order. -/
theorem orderedInsert_comm (lt : key b < key a) (l : List α) :
    (l.orderedInsert (fun a b => key a ≤ key b) b).orderedInsert (fun a b => key a ≤ key b) a =
      (l.orderedInsert (fun a b => key a ≤ key b) a).orderedInsert (fun a b => key a ≤ key b) b := by
  have notLe : ¬ key a ≤ key b := not_le.mpr lt
  induction l with
  | nil => simp [notLe, lt.le]
  | cons c l ih =>
    by_cases before : key a ≤ key c
    · have also : key b ≤ key c := lt.le.trans before
      simp [before, also, notLe, lt.le]
    · by_cases middle : key b ≤ key c
      · simp [before, middle, notLe]
      · simp [before, middle, ih]

/-- Two neighbours in the wrong order are exchanged. -/
theorem stableSort_exchange (lt : key b < key a) (l : List α) :
    stableSort key (a :: b :: l) = stableSort key (b :: a :: l) :=
  orderedInsert_comm lt (stableSort key l)

/-- For each key the elements with that key are those of `l`, in their order. -/
theorem filter_stableSort (key : α → κ) (k : κ) (l : List α) :
    (stableSort key l).filter (fun a => key a = k) = l.filter fun a => key a = k := by
  have insert : ∀ (a : α) (l : List α),
      (l.orderedInsert (fun a b => key a ≤ key b) a).filter (fun a => key a = k) =
        (a :: l).filter fun a => key a = k := by
    intro a l
    induction l with
    | nil => rfl
    | cons c l ih =>
      rw [List.orderedInsert_cons]
      split
      · rfl
      next after =>
        rw [List.filter_cons, ih]
        by_cases isA : key a = k
        · have notC : key c ≠ k := fun isC => after (by rw [isA, isC])
          simp [isA, notC]
        · simp [List.filter_cons, isA]
  induction l with
  | nil => rfl
  | cons a l ih =>
    rw [stableSort_cons, insert, List.filter_cons, List.filter_cons, ih]

/-- `l'` has the elements of `l`, by increasing key, and ties keep their order. -/
structure SortsStably (key : α → κ) (l l' : List α) : Prop where
  perm : l'.Perm l
  increasing : Increasing key l'
  ties : ∀ k, (l'.filter fun a => key a = k) = l.filter fun a => key a = k

theorem stableSort_spec (key : α → κ) (l : List α) : SortsStably key l (stableSort key l) where
  perm := stableSort_perm key l
  increasing := stableSort_increasing key l
  ties k := filter_stableSort key k l

end StableSort
