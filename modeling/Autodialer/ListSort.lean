import Autodialer.Book
import Autodialer.Lib.StableSort

/-!
# `list_sort` sorts, and ends

`sortPass` and `listSort` are looked at with a handler that compares the keys of
the elements. A walk exchanges only neighbours in the wrong order, so the stable
sort of the list stays the same; and every walk brings one more element to its
place at the end, so there are at most as many walks as elements.

* `listSort_ends`: the walks come to an end.
* `ListSorts.eq_stableSort`: what they leave is the stable sort of the list.
-/

namespace Autodialer

open StableSort

/-- `list_sort` as the C code has it, without a bound on the walks. -/
inductive ListSorts {α : Type} (sh : α → α → Bool) : List α → List α → Prop
  | empty : ListSorts sh [] []
  | done {le : α} {rest l : List α} : sortPass sh le rest = (l, false) → ListSorts sh (le :: rest) l
  /-- `goto retry` -/
  | retry {le : α} {rest l l' : List α} : sortPass sh le rest = (l, true) → ListSorts sh l l' →
      ListSorts sh (le :: rest) l'

/-- On the elements of the list the handler compares their keys. -/
def Compares {α : Type} (sh : α → α → Bool) (key : α → Nat) (l : List α) : Prop :=
  ∀ a ∈ l, ∀ b ∈ l, sh a b = true ↔ key a ≤ key b

variable {α : Type} {sh : α → α → Bool} {key : α → Nat} {le next : α} {rest l l' p q : List α}

theorem Compares.perm (compares : Compares sh key l) (perm : l'.Perm l) : Compares sh key l' :=
  fun a memA b memB => compares a (perm.mem_iff.mp memA) b (perm.mem_iff.mp memB)

theorem Compares.sublist (compares : Compares sh key l) (sublist : l'.Sublist l) :
    Compares sh key l' :=
  fun a memA b memB => compares a (sublist.mem memA) b (sublist.mem memB)

/-! ## One walk -/

/-- An element in the wrong place is moved behind its successor. -/
theorem Compares.lt_of_not (compares : Compares sh key (le :: next :: rest))
    (wrong : ¬ sh le next = true) : key next < key le := by
  rw [compares le (by simp) next (by simp)] at wrong
  exact Nat.lt_of_not_le wrong

/-- A walk leaves the stable sort of the list alone. -/
theorem sortPass_stableSort (compares : Compares sh key (le :: rest)) :
    stableSort key (sortPass sh le rest).1 = stableSort key (le :: rest) := by
  induction rest generalizing le with
  | nil => rfl
  | cons next rest ih =>
    unfold sortPass
    split
    · exact stableSort_cons_congr (ih (compares.sublist (List.sublist_cons_self _ _))) le
    next wrong =>
      have walk := ih (compares.sublist ((List.sublist_cons_self next rest).cons_cons le))
      have moved : stableSort key (next :: (sortPass sh le rest).1) =
          stableSort key (next :: le :: rest) := stableSort_cons_congr walk next
      exact moved.trans (stableSort_exchange (compares.lt_of_not wrong) rest).symm

/-- A walk that moves nothing has found the list sorted. -/
theorem sortPass_still (compares : Compares sh key (le :: rest))
    (still : (sortPass sh le rest).2 = false) :
    (sortPass sh le rest).1 = le :: rest ∧ Increasing key (le :: rest) := by
  induction rest generalizing le with
  | nil => exact ⟨rfl, List.pairwise_singleton _ _⟩
  | cons next rest ih =>
    unfold sortPass at still ⊢
    split at still
    next right =>
      rw [if_pos right]
      obtain ⟨same, increasing⟩ := ih (compares.sublist (List.sublist_cons_self _ _)) still
      have first : key le ≤ key next := (compares le (by simp) next (by simp)).mp right
      refine ⟨congrArg (le :: ·) same, List.pairwise_cons.mpr ⟨fun a mem => ?_, increasing⟩⟩
      rcases List.mem_cons.mp mem with rfl | later
      · exact first
      · exact first.trans ((List.pairwise_cons.mp increasing).1 a later)
    · cases still

/-- A walk through a sorted list moves nothing. -/
theorem sortPass_sorted (compares : Compares sh key (le :: rest))
    (increasing : Increasing key (le :: rest)) : sortPass sh le rest = (le :: rest, false) := by
  induction rest generalizing le with
  | nil => rfl
  | cons next rest ih =>
    obtain ⟨first, later⟩ := List.pairwise_cons.mp increasing
    have right : sh le next = true :=
      (compares le (by simp) next (by simp)).mpr (first next List.mem_cons_self)
    unfold sortPass
    rw [if_pos right, ih (compares.sublist (List.sublist_cons_self _ _)) later]

/-- If the end `q` of the list is in its place, a walk brings the last one of the
others to its place in front of `q`. -/
theorem sortPass_append (compares : Compares sh key (le :: p ++ q))
    (increasing : Increasing key q) (below : ∀ a ∈ le :: p, ∀ b ∈ q, key a ≤ key b) :
    ∃ init last, (sortPass sh le (p ++ q)).1 = init ++ last :: q ∧ init.length = p.length ∧
      (init ++ [last]).Perm (le :: p) ∧ ∀ a ∈ init, key a ≤ key last := by
  induction p generalizing le with
  | nil =>
    have sorted : Increasing key (le :: q) :=
      List.pairwise_cons.mpr ⟨below le List.mem_cons_self, increasing⟩
    exact ⟨[], le, congrArg Prod.fst (sortPass_sorted compares sorted), rfl, List.Perm.refl _,
      by simp⟩
  | cons next p ih =>
    rw [List.cons_append]
    unfold sortPass
    split
    next right =>
      obtain ⟨init, last, walk, length, perm, most⟩ :=
        ih (compares.sublist (List.sublist_cons_self _ _))
          fun a mem => below a (List.mem_cons_of_mem le mem)
      refine ⟨le :: init, last, congrArg (le :: ·) walk, congrArg (· + 1) length, perm.cons le,
        fun a mem => ?_⟩
      rcases List.mem_cons.mp mem with rfl | mem
      · have first : key a ≤ key next := (compares a (by simp) next (by simp)).mp right
        rcases List.mem_append.mp (perm.symm.mem_iff.mp List.mem_cons_self) with old | new
        · exact first.trans (most next old)
        · rwa [List.mem_singleton.mp new] at first
      · exact most a mem
    next wrong =>
      have lt : key next < key le := compares.lt_of_not wrong
      obtain ⟨init, last, walk, length, perm, most⟩ :=
        ih (compares.sublist ((List.sublist_cons_self next (p ++ q)).cons_cons le)) fun a mem =>
          below a (((List.sublist_cons_self next p).cons_cons le).mem mem)
      refine ⟨next :: init, last, congrArg (next :: ·) walk, congrArg (· + 1) length,
        (perm.cons next).trans (List.Perm.swap le next p), fun a mem => ?_⟩
      rcases List.mem_cons.mp mem with rfl | mem
      · rcases List.mem_append.mp (perm.symm.mem_iff.mp List.mem_cons_self) with old | new
        · exact lt.le.trans (most le old)
        · exact (List.mem_singleton.mp new) ▸ lt.le
      · exact most a mem

/-! ## All walks -/

/-- If all but the first `n` elements are in their places, `n` walks are enough. -/
theorem listSort_ends_append {n : Nat} (compares : Compares sh key (p ++ q)) (enough : p.length ≤ n)
    (increasing : Increasing key q) (below : ∀ a ∈ p, ∀ b ∈ q, key a ≤ key b) :
    ListSorts sh (p ++ q) (listSort sh n (p ++ q)) := by
  induction n generalizing p q with
  | zero =>
    obtain rfl : p = [] := List.length_eq_zero_iff.mp (Nat.le_zero.mp enough)
    cases q with
    | nil => exact .empty
    | cons le rest => exact .done (sortPass_sorted compares increasing)
  | succ n ih =>
    cases p with
    | nil =>
      cases q with
      | nil => exact .empty
      | cons le rest =>
        have still := sortPass_sorted compares increasing
        simp only [List.nil_append, listSort, still, Bool.false_eq_true, if_false]
        exact .done still
    | cons le p =>
      obtain ⟨init, last, walk, length, perm, most⟩ := sortPass_append compares increasing below
      rw [List.cons_append]
      simp only [listSort]
      split
      next moved =>
        have whole : (init ++ last :: q).Perm (le :: p ++ q) := by
          rw [List.append_cons]
          exact perm.append_right q
        have lastMem : last ∈ le :: p := perm.mem_iff.mp (by simp)
        refine .retry (l := init ++ last :: q) (Prod.ext walk moved) ?_
        rw [walk]
        refine ih (compares.perm whole) (by rw [length]; exact Nat.le_of_succ_le_succ enough)
          (List.pairwise_cons.mpr ⟨below last lastMem, increasing⟩) fun a memA b memB => ?_
        rcases List.mem_cons.mp memB with rfl | memB
        · exact most a memA
        · exact below a (perm.mem_iff.mp (List.mem_append_left _ memA)) b memB
      next still => exact .done (Prod.ext rfl (Bool.not_eq_true _ ▸ still))

/-- `list_sort` ends: it walks at most once for each element. -/
theorem listSort_ends (compares : Compares sh key l) : ListSorts sh l (listSort sh l.length l) := by
  have run := listSort_ends_append (p := l) (q := []) (n := l.length) (by simpa using compares)
    (Nat.le_refl _) List.Pairwise.nil (by simp)
  simpa using run

/-- What `list_sort` leaves is the stable sort of the list. -/
theorem ListSorts.eq_stableSort (sorts : ListSorts sh l l') (compares : Compares sh key l) :
    l' = stableSort key l := by
  induction sorts with
  | empty => rfl
  | @done le rest l walk =>
    obtain ⟨same, increasing⟩ := sortPass_still compares (congrArg Prod.snd walk)
    rw [stableSort_eq_self increasing, ← same, walk]
  | @retry le rest l l' walk _ ih =>
    have same : (sortPass sh le rest).1 = l := congrArg Prod.fst walk
    rw [ih (compares.perm (same ▸ sortPass_perm sh le rest)), ← same, sortPass_stableSort compares]

end Autodialer
