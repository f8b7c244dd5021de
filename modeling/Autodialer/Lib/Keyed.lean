import Mathlib.Data.List.Nodup

/-!
# Lists of elements with keys

A list whose elements carry different keys is a finite map. `update` walks to the
element with a key and changes or removes it; where there is none, it may append one.

* `find_eq_some`: what is found is the element with the key.
* `find_update`: an update changes the element with its key and no other.
* `find_foldl_update`: after an update for each row of a table with different keys, an
  element depends on the row with its key only.
-/

universe u

namespace Keyed

variable {α β κ : Type u} {key : α → κ} {rowKey : β → κ} {k : κ} {a : α} {l : List α}

/-- The keys are different. -/
def Distinct (key : α → κ) (l : List α) : Prop := (l.map key).Nodup

theorem distinct_cons :
    Distinct key (a :: l) ↔ (∀ b ∈ l, key b ≠ key a) ∧ Distinct key l := by
  simp [Distinct]

/-- From an element with the key `k`, or from none, `f` makes one with this key. -/
def Keeps (key : α → κ) (k : κ) (f : Option α → Option α) : Prop :=
  ∀ o b, (∀ a ∈ o, key a = k) → f o = some b → key b = k

variable {f : Option α → Option α}

theorem Keeps.of_none (keeps : Keeps key k f) (made : f none = some a) : key a = k :=
  keeps none a (fun _ mem => by cases mem) made

theorem Keeps.of_some {b : α} (keeps : Keeps key k f) (same : key a = k) (made : f (some a) = some b) :
    key b = k :=
  keeps (some a) b (fun _ mem => by cases mem; exact same) made

variable [DecidableEq κ]

/-- The first element with the key. -/
def find (key : α → κ) (k : κ) (l : List α) : Option α := l.find? fun a => decide (key a = k)

/-- `f` on the element with the key, and on `none` if there is none. -/
def update (key : α → κ) (k : κ) (f : Option α → Option α) : List α → List α
  | [] => (f none).toList
  | a :: l => if key a = k then (f (some a)).toList ++ l else a :: update key k f l

theorem find_cons : find key k (a :: l) = if key a = k then some a else find key k l := by
  rw [find, List.find?_cons]
  by_cases same : key a = k <;> simp [same, find]

theorem find_eq_none : find key k l = none ↔ ∀ b ∈ l, key b ≠ k := by
  simp [find]

/-- What is found is the element with the key. -/
theorem find_eq_some (distinct : Distinct key l) :
    find key k l = some a ↔ a ∈ l ∧ key a = k := by
  induction l with
  | nil => simp [find]
  | cons b l ih =>
    obtain ⟨other, distinct⟩ := distinct_cons.mp distinct
    rw [find_cons, List.mem_cons]
    split
    next same =>
      constructor
      · rintro ⟨⟩
        exact ⟨.inl rfl, same⟩
      · rintro ⟨rfl | mem, isKey⟩
        · rfl
        · exact absurd (isKey.trans same.symm) (other a mem)
    next ne =>
      rw [ih distinct]
      constructor
      · exact fun ⟨mem, isKey⟩ => ⟨.inr mem, isKey⟩
      · rintro ⟨rfl | mem, isKey⟩
        · exact absurd isKey ne
        · exact ⟨mem, isKey⟩

/-! ## One update -/

theorem update_append {l' : List α} (other : ∀ b ∈ l, key b ≠ k) (same : key a = k) :
    update key k f (l ++ a :: l') = l ++ ((f (some a)).toList ++ l') := by
  induction l with
  | nil => exact if_pos same
  | cons b l ih =>
    rw [List.cons_append, update, if_neg (other b List.mem_cons_self),
      ih fun b mem => other b (List.mem_cons_of_mem _ mem), List.cons_append]

theorem update_absent (other : ∀ b ∈ l, key b ≠ k) :
    update key k f l = l ++ (f none).toList := by
  induction l with
  | nil => rfl
  | cons b l ih =>
    rw [update, if_neg (other b List.mem_cons_self),
      ih fun b mem => other b (List.mem_cons_of_mem _ mem), List.cons_append]

theorem mem_update (keeps : Keeps key k f) (mem : a ∈ update key k f l) : a ∈ l ∨ key a = k := by
  induction l with
  | nil => exact .inr (keeps.of_none (Option.mem_toList.mp mem))
  | cons b l ih =>
    rw [update] at mem
    split at mem
    next same =>
      rcases List.mem_append.mp mem with new | old
      · exact .inr (keeps.of_some same (Option.mem_toList.mp new))
      · exact .inl (List.mem_cons_of_mem _ old)
    next =>
      rcases List.mem_cons.mp mem with rfl | mem
      · exact .inl List.mem_cons_self
      · exact (ih mem).imp_left (List.mem_cons_of_mem _)

/-- An update whose elements have its key keeps the keys different. -/
theorem distinct_update (keeps : Keeps key k f) (distinct : Distinct key l) :
    Distinct key (update key k f l) := by
  induction l with
  | nil =>
    rw [update]
    cases f none <;> simp [Distinct]
  | cons a l ih =>
    obtain ⟨other, distinct⟩ := distinct_cons.mp distinct
    rw [update]
    split
    next same =>
      cases new : f (some a) with
      | none => exact distinct
      | some b =>
        refine distinct_cons.mpr ⟨?_, distinct⟩
        rw [keeps.of_some same new, ← same]
        exact other
    next ne =>
      refine distinct_cons.mpr ⟨fun b mem same => ?_, ih distinct⟩
      rcases mem_update keeps mem with old | isKey
      · exact other b old same
      · exact ne (same.symm.trans isKey)

/-- An update changes the element with its key and no other. -/
theorem find_update (keeps : Keeps key k f) (distinct : Distinct key l) (k' : κ) :
    find key k' (update key k f l) = if k' = k then f (find key k l) else find key k' l := by
  induction l with
  | nil =>
    show find key k' (f none).toList = if k' = k then f none else none
    cases new : f none with
    | none => simp [find]
    | some b =>
      have isKey := keeps.of_none new
      by_cases same : k' = k
      · simp [find, isKey, same]
      · simp [find, isKey, same, Ne.symm same]
  | cons a l ih =>
    obtain ⟨other, distinct⟩ := distinct_cons.mp distinct
    rw [update]
    split
    next same =>
      have rest : find key k l = none := find_eq_none.mpr (same ▸ other)
      rw [find_cons, if_pos same, find_cons]
      cases new : f (some a) with
      | none =>
        split
        next here => exact here ▸ rest
        next ne => rw [if_neg fun here => ne (here.symm.trans same)]; rfl
      | some b =>
        have isKey := keeps.of_some same new
        show find key k' (b :: l) = _
        rw [find_cons, isKey, same]
        split
        next here => rw [if_pos here.symm]
        next ne => rw [if_neg (Ne.symm ne)]
    next ne =>
      rw [find_cons, ih distinct, find_cons, find_cons, if_neg ne]
      split
      next here => rw [if_neg fun same => ne (here.trans same)]
      next => rfl

/-! ## A table of updates -/

variable {rows : List β} {g : β → Option α → Option α}

theorem distinct_foldl_update (keeps : ∀ row, Keeps key (rowKey row) (g row))
    (distinct : Distinct key l) :
    Distinct key (rows.foldl (fun l row => update key (rowKey row) (g row) l) l) := by
  induction rows generalizing l with
  | nil => exact distinct
  | cons row rows ih => exact ih (distinct_update (keeps row) distinct)

/-- After an update for each row, an element depends on the row with its key only. -/
theorem find_foldl_update (keeps : ∀ row, Keeps key (rowKey row) (g row))
    (distinct : Distinct key l) (distinctRows : Distinct rowKey rows) (k : κ) :
    find key k (rows.foldl (fun l row => update key (rowKey row) (g row) l) l) =
      (find rowKey k rows).elim (find key k l) fun row => g row (find key k l) := by
  induction rows generalizing l with
  | nil => rfl
  | cons row rows ih =>
    obtain ⟨other, distinctRows⟩ := distinct_cons.mp distinctRows
    rw [List.foldl_cons, ih (distinct_update (keeps row) distinct) distinctRows,
      find_update (keeps row) distinct, find_cons]
    split
    next here =>
      subst here
      rw [find_eq_none.mpr other, if_pos rfl]
      rfl
    next ne => rw [if_neg (Ne.symm ne)]

end Keyed
