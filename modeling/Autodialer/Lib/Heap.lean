import Mathlib.Data.Nat.Basic

/-!
# Heaps of objects

A heap maps addresses to live objects. An address is handed out once: `next`
is the first one never used, and `fresh` says that nothing lives from there
on, so an address that has been freed never names another object.
-/

universe u

/-- Objects of type `α` by address. -/
@[ext] structure Heap (α : Type u) where
  get : Nat → Option α
  next : Nat
  fresh : ∀ p, next ≤ p → get p = none

namespace Heap

variable {α : Type u}

def empty : Heap α := ⟨fun _ => none, 0, fun _ _ => rfl⟩

/-- Allocation: the new object lives at `h.next`. -/
def alloc (h : Heap α) (a : α) : Heap α where
  get p := if p = h.next then some a else h.get p
  next := h.next + 1
  fresh p hp := by
    rw [if_neg (by omega)]
    exact h.fresh p (by omega)

/-- A write through a pointer; a write to an address with no object does nothing. -/
def modify (h : Heap α) (p : Nat) (f : α → α) : Heap α where
  get q := if q = p then (h.get q).map f else h.get q
  next := h.next
  fresh q hq := by
    split
    · rw [h.fresh q hq]
      rfl
    · exact h.fresh q hq

def free (h : Heap α) (p : Nat) : Heap α where
  get q := if q = p then none else h.get q
  next := h.next
  fresh q hq := by
    split
    · rfl
    · exact h.fresh q hq

@[simp] theorem get_empty (p : Nat) : (empty : Heap α).get p = none := rfl

theorem get_alloc (h : Heap α) (a : α) (p : Nat) :
    (h.alloc a).get p = if p = h.next then some a else h.get p := rfl

theorem get_modify (h : Heap α) (p q : Nat) (f : α → α) :
    (h.modify p f).get q = if q = p then (h.get q).map f else h.get q := rfl

theorem get_free (h : Heap α) (p q : Nat) :
    (h.free p).get q = if q = p then none else h.get q := rfl

@[simp] theorem next_alloc (h : Heap α) (a : α) : (h.alloc a).next = h.next + 1 := rfl
@[simp] theorem next_modify (h : Heap α) (p : Nat) (f : α → α) : (h.modify p f).next = h.next := rfl
@[simp] theorem next_free (h : Heap α) (p : Nat) : (h.free p).next = h.next := rfl

@[simp] theorem get_alloc_next (h : Heap α) (a : α) : (h.alloc a).get h.next = some a := by
  simp [get_alloc]

@[simp] theorem get_free_self (h : Heap α) (p : Nat) : (h.free p).get p = none := by
  simp [get_free]

@[simp] theorem get_modify_self (h : Heap α) (p : Nat) (f : α → α) :
    (h.modify p f).get p = (h.get p).map f := by
  simp [get_modify]

theorem get_modify_ne {h : Heap α} {p q : Nat} {f : α → α} (ne : q ≠ p) :
    (h.modify p f).get q = h.get q := by
  simp [get_modify, ne]

theorem get_free_ne {h : Heap α} {p q : Nat} (ne : q ≠ p) : (h.free p).get q = h.get q := by
  simp [get_free, ne]

/-- A live object lies below `next`. -/
theorem lt_next {h : Heap α} {p : Nat} {a : α} (live : h.get p = some a) : p < h.next := by
  by_contra ge
  rw [h.fresh p (by omega)] at live
  cases live

theorem ne_next {h : Heap α} {p : Nat} {a : α} (live : h.get p = some a) : p ≠ h.next :=
  Nat.ne_of_lt (lt_next live)

theorem get_alloc_of_live {h : Heap α} {a b : α} {p : Nat} (live : h.get p = some b) :
    (h.alloc a).get p = some b := by
  rw [get_alloc, if_neg (ne_next live), live]

@[simp] theorem get_next (h : Heap α) : h.get h.next = none := h.fresh _ (Nat.le_refl _)

/-! ## Composition -/

theorem modify_modify (h : Heap α) (p : Nat) (f g : α → α) :
    (h.modify p f).modify p g = h.modify p fun a => g (f a) := by
  ext q : 2
  · by_cases same : q = p <;> simp [get_modify, same, Function.comp_def]
  · rfl

/-- A write that does not change the object does nothing. -/
theorem modify_eq_self {h : Heap α} {p : Nat} {f : α → α}
    (same : ∀ a, h.get p = some a → f a = a) : h.modify p f = h := by
  ext q : 2
  · by_cases here : q = p
    · subst here
      cases live : h.get q with
      | none => simp [live]
      | some a => simp [live, same a live]
    · rw [get_modify_ne here]
  · rfl

/-- Only what a write does to the object at its address matters. -/
theorem modify_congr {h : Heap α} {p : Nat} {f g : α → α}
    (same : ∀ a, h.get p = some a → f a = g a) : h.modify p f = h.modify p g := by
  ext q : 2
  · by_cases here : q = p
    · subst here
      cases live : h.get q with
      | none => simp [live]
      | some a => simp [live, same a live]
    · rw [get_modify_ne here, get_modify_ne here]
  · rfl

theorem modify_alloc_next (h : Heap α) (a : α) (f : α → α) :
    (h.alloc a).modify h.next f = h.alloc (f a) := by
  ext q : 2
  · by_cases same : q = h.next <;> simp [get_modify, get_alloc, same]
  · rfl

theorem free_modify (h : Heap α) (p : Nat) (f : α → α) : (h.modify p f).free p = h.free p := by
  ext q : 2
  · by_cases same : q = p <;> simp [get_free, get_modify, same]
  · rfl

/-! ## Time -/

/-- `h'` is a later state of the heap `h`: addresses are only ever handed out
further up, and what was freed stays freed. -/
def Later (h h' : Heap α) : Prop :=
  h.next ≤ h'.next ∧ ∀ p, p < h.next → h.get p = none → h'.get p = none

namespace Later

@[refl] theorem refl (h : Heap α) : h.Later h := ⟨Nat.le_refl _, fun _ _ dead => dead⟩

theorem trans {h h' h'' : Heap α} (first : h.Later h') (second : h'.Later h'') : h.Later h'' :=
  ⟨Nat.le_trans first.1 second.1, fun p old dead =>
    second.2 p (Nat.lt_of_lt_of_le old first.1) (first.2 p old dead)⟩

theorem alloc (h : Heap α) (a : α) : h.Later (h.alloc a) :=
  ⟨Nat.le_succ _, fun p old dead => by rw [get_alloc, if_neg (Nat.ne_of_lt old), dead]⟩

theorem modify (h : Heap α) (p : Nat) (f : α → α) : h.Later (h.modify p f) :=
  ⟨Nat.le_refl _, fun q _ dead => by simp [get_modify, dead]⟩

theorem free (h : Heap α) (p : Nat) : h.Later (h.free p) :=
  ⟨Nat.le_refl _, fun q _ dead => by simp [get_free, dead]⟩

end Later

/-- No object of `h` has been written to in `h'`; some may have been freed and others
allocated. -/
def Unwritten (h h' : Heap α) : Prop :=
  h.next ≤ h'.next ∧ ∀ p a, p < h.next → h'.get p = some a → h.get p = some a

namespace Unwritten

@[refl] theorem refl (h : Heap α) : h.Unwritten h := ⟨Nat.le_refl _, fun _ _ _ live => live⟩

theorem trans {h h' h'' : Heap α} (first : h.Unwritten h') (second : h'.Unwritten h'') :
    h.Unwritten h'' :=
  ⟨Nat.le_trans first.1 second.1, fun p a old live =>
    first.2 p a old (second.2 p a (Nat.lt_of_lt_of_le old first.1) live)⟩

theorem of_eq {h h' : Heap α} (same : h' = h) : h.Unwritten h' := same ▸ refl h

/-- What was freed stays freed. -/
theorem dead {h h' : Heap α} {p : Nat} (unwritten : h.Unwritten h') (old : p < h.next)
    (gone : h.get p = none) : h'.get p = none := by
  cases live : h'.get p with
  | none => rfl
  | some a =>
    rw [unwritten.2 p a old live] at gone
    cases gone

end Unwritten

end Heap
