import Autodialer.Lib.Heap
import Mathlib.Logic.Function.Basic

/-!
# Pointers that point at one another

Two objects that each hold a pointer to the other are paired. `Paired P Q` says it of all objects
of two kinds at once: `P` and `Q` are the pointers, and each is the inverse of the other. Pairs are
made and taken apart by writing both pointers.
-/

universe u v

namespace Heap

variable {α : Type u} {β : Type v} {h : Heap α} {p : Nat} {a : α} {f : α → Option β}

/-- What is found after a write: the object that was written, or another one. -/
theorem get_modify_cases {b : α} {q : Nat} {k : α → α} (live : h.get p = some a)
    (found : (h.modify p k).get q = some b) : (q = p ∧ b = k a) ∨ (q ≠ p ∧ h.get q = some b) := by
  by_cases here : q = p
  · subst here
    rw [get_modify_self, live, Option.map_some] at found
    exact .inl ⟨rfl, (Option.some.inj found).symm⟩
  · exact .inr ⟨here, (get_modify_ne here).symm.trans found⟩

theorem get_alloc_cases {b : α} {q : Nat} (found : (h.alloc a).get q = some b) :
    (q = h.next ∧ b = a) ∨ (q ≠ h.next ∧ h.get q = some b) := by
  rw [get_alloc] at found
  split at found
  next here => exact .inl ⟨here, (Option.some.inj found).symm⟩
  next other => exact .inr ⟨other, found⟩

theorem get_free_cases {b : α} {q : Nat} (found : (h.free p).get q = some b) :
    q ≠ p ∧ h.get q = some b := by
  rw [get_free] at found
  split at found
  next => cases found
  next other => exact ⟨other, found⟩

/-- A write frees nothing. -/
theorem get_modify_none {q : Nat} {k : α → α} :
    (h.modify p k).get q = none ↔ h.get q = none := by
  rw [get_modify]
  split
  next => exact Option.map_eq_none_iff
  next => exact Iff.rfl

/-- A pointer of the object at an address. -/
def field (h : Heap α) (f : α → Option β) (p : Nat) : Option β := (h.get p).bind f

theorem field_live (live : h.get p = some a) : h.field f p = f a := by
  rw [field, live, Option.bind_some]

theorem field_dead (dead : h.get p = none) : h.field f p = none := by
  rw [field, dead, Option.bind_none]

/-- A pointer that is set belongs to a live object. -/
theorem live_of_field {b : β} (set : h.field f p = some b) : ∃ a, h.get p = some a ∧ f a = some b :=
  Option.bind_eq_some_iff.mp set

@[simp] theorem field_next : h.field f h.next = none := field_dead h.get_next

theorem field_modify (live : h.get p = some a) (k : α → α) :
    (h.modify p k).field f = Function.update (h.field f) p (f (k a)) := by
  funext q
  rw [field, get_modify, Function.update_apply]
  split
  next here => rw [here, live, Option.map_some, Option.bind_some]
  next => rfl

/-- A write that leaves the pointer as it was. -/
theorem field_modify_eq (live : h.get p = some a) {k : α → α} (same : f (k a) = f a) :
    (h.modify p k).field f = h.field f := by
  have here : f a = h.field f p := (field_live live).symm
  rw [field_modify live, same, here, Function.update_eq_self]

theorem field_alloc (h : Heap α) (a : α) (f : α → Option β) :
    (h.alloc a).field f = Function.update (h.field f) h.next (f a) := by
  funext q
  rw [field, get_alloc, Function.update_apply]
  split
  next => rw [Option.bind_some]
  next => rfl

theorem field_free (h : Heap α) (p : Nat) (f : α → Option β) :
    (h.free p).field f = Function.update (h.field f) p none := by
  funext q
  rw [field, get_free, Function.update_apply]
  split
  next => rfl
  next => rfl

end Heap

/-- `P` and `Q` point at one another. -/
def Paired {α : Type u} {β : Type v} (P : α → Option β) (Q : β → Option α) : Prop :=
  ∀ a b, P a = some b ↔ Q b = some a

namespace Paired

variable {α : Type u} {β : Type v} {P : α → Option β} {Q : β → Option α} {a a' : α} {b b' : β}

theorem empty : Paired (fun _ : α => (none : Option β)) fun _ => none :=
  fun _ _ => iff_of_false nofun nofun

/-- Two objects never hold the same one. -/
theorem injective (paired : Paired P Q) (one : P a = some b) (other : P a' = some b) : a = a' := by
  have back := (paired a b).mp one
  rw [(paired a' b).mp other] at back
  exact (Option.some.inj back).symm

/-- An object that holds nothing may go, or come. -/
theorem idle_left [DecidableEq α] (paired : Paired P Q) (free : P a = none) :
    Paired (Function.update P a none) Q := by
  rwa [← free, Function.update_eq_self]

theorem idle_right [DecidableEq β] (paired : Paired P Q) (free : Q b = none) :
    Paired P (Function.update Q b none) := by
  rwa [← free, Function.update_eq_self]

variable [DecidableEq α] [DecidableEq β]

theorem attach (paired : Paired P Q) (free : P a = none) (free' : Q b = none) :
    Paired (Function.update P a (some b)) (Function.update Q b (some a)) := by
  intro c d
  rw [Function.update_apply, Function.update_apply]
  split
  next here =>
    subst here
    split
    next there => exact iff_of_true (congrArg some there.symm) rfl
    next there =>
      refine iff_of_false (fun same => there (Option.some.inj same).symm) fun held => ?_
      rw [(paired c d).mpr held] at free
      cases free
  next here =>
    split
    next there =>
      subst there
      refine iff_of_false (fun held => ?_) fun same => here (Option.some.inj same).symm
      rw [(paired c d).mp held] at free'
      cases free'
    next => exact paired c d

theorem detach (paired : Paired P Q) (held : P a = some b) :
    Paired (Function.update P a none) (Function.update Q b none) := by
  intro c d
  rw [Function.update_apply, Function.update_apply]
  split
  next here =>
    subst here
    refine iff_of_false nofun fun back => ?_
    split at back
    next => cases back
    next there =>
      rw [(paired c d).mpr back] at held
      exact there (Option.some.inj held)
  next here =>
    split
    next there =>
      subst there
      exact iff_of_false (fun other => here (paired.injective other held)) nofun
    next => exact paired c d

end Paired
