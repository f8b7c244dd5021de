import Autodialer.Links

/-!
# What the functions of `list.c` do to their lists

`Represents m σ` says that the lists in the memory `m` are `σ`. Putting an element between two
neighbours (`Links.splice`) and taking one out (`Links.unsplice`) keep the memory well formed, and
each function of `list.c` is one of the two.
-/

namespace Autodialer

open Doubly StableSort

/-- The lists in memory are the lists `σ`, and every element knows which one it is on. -/
structure Represents {ι : Type} (m : Links ι) (σ : ι → List LeId) : Prop where
  linked : ∀ list, Linked (fun a => (m.le a).prev) (fun a => (m.le a).next)
    (m.list list).head (m.list list).tail (σ list)
  owner : ∀ a list, (m.le a).list = some list ↔ a ∈ σ list

variable {ι : Type} {m : Links ι} {σ : ι → List LeId} {list : ι} {le ile : LeId}
  {data : Option Nat} {xs ys : List LeId}

theorem represents_zeroed : Represents ({} : Links ι) fun _ => [] :=
  ⟨fun _ => Linked.empty, fun a list => by simp⟩

namespace Represents

theorem head_eq (rep : Represents m σ) (list : ι) : (m.list list).head = (σ list).head? :=
  (rep.linked list).head_eq

theorem tail_eq (rep : Represents m σ) (list : ι) : (m.list list).tail = (σ list).getLast? :=
  (rep.linked list).tail_eq

theorem at_split (rep : Represents m σ) (split : σ list = xs ++ le :: ys) :
    (m.le le).prev = xs.getLast? ∧ (m.le le).next = ys.head? :=
  (split ▸ rep.linked list).at

theorem fresh (rep : Represents m σ) (free : (m.le le).list = none) (list : ι) :
    le ∉ σ list := fun mem => by
  rw [(rep.owner le list).mpr mem] at free
  cases free

/-- An element is on its list once. -/
theorem once (rep : Represents m σ) (split : σ list = xs ++ le :: ys) : le ∉ xs ++ ys :=
  (List.nodup_cons.mp (List.nodup_middle.mp (split ▸ (rep.linked list).nodup))).1

/-- An element is on one list only. -/
theorem unique (rep : Represents m σ) {list' : ι} (mem : le ∈ σ list) (mem' : le ∈ σ list') :
    list = list' :=
  Option.some.inj (((rep.owner le list).mpr mem).symm.trans ((rep.owner le list').mpr mem'))

/-- A list has a first element exactly if it has a last one. -/
theorem head_none_iff (rep : Represents m σ) (list : ι) :
    (m.list list).head = none ↔ (m.list list).tail = none := by
  rw [rep.head_eq, rep.tail_eq, List.head?_eq_none_iff, List.getLast?_eq_none_iff]

/-- An element that is on no list is at neither end of one. -/
theorem ends_ne (rep : Represents m σ) (free : (m.le le).list = none) (list : ι) :
    (m.list list).head ≠ some le ∧ (m.list list).tail ≠ some le := by
  rw [rep.head_eq, rep.tail_eq]
  have fresh := rep.fresh free list
  exact ⟨fun first => fresh (List.mem_of_head? first),
    fun last => fresh (List.mem_of_getLast? last)⟩

end Represents

variable [DecidableEq ι]

namespace Links

/-! ## An element is put between two neighbours -/

/-- The memory with the element `le` between `before` and `after` on the list. -/
def splice (m : Links ι) (list : ι) (before after : Option LeId) (le : LeId)
    (data : Option Nat) : Links ι where
  le x :=
    if x = le then { prev := before, next := after, list := some list, data := data }
    else
      { m.le x with
        next := if some x = before then some le else (m.le x).next
        prev := if some x = after then some le else (m.le x).prev }
  list l :=
    if l = list then
      { head := if before = none then some le else (m.list list).head
        tail := if after = none then some le else (m.list list).tail }
    else m.list l

/-- The memory with the element `le` taken out from between `before` and `after`. -/
def unsplice (m : Links ι) (list : ι) (before after : Option LeId) (le : LeId) : Links ι where
  le x :=
    if x = le then { m.le le with prev := none, next := none, list := none }
    else
      { m.le x with
        next := if some x = before then after else (m.le x).next
        prev := if some x = after then before else (m.le x).prev }
  list l :=
    if l = list then
      { head := if before = none then after else (m.list list).head
        tail := if after = none then before else (m.list list).tail }
    else m.list l

theorem data_splice {before after : Option LeId} (x : LeId) :
    ((m.splice list before after le data).le x).data = if x = le then data else (m.le x).data := by
  simp only [splice]
  split <;> rfl

theorem data_unsplice {before after : Option LeId} (x : LeId) :
    ((m.unsplice list before after le).le x).data = (m.le x).data := by
  simp only [unsplice]
  split
  next same => rw [same]
  · rfl

end Links

theorem Represents.splice (rep : Represents m σ) (split : σ list = xs ++ ys)
    (free : (m.le le).list = none) (data : Option Nat) :
    Represents (m.splice list xs.getLast? ys.head? le data)
      (Function.update σ list (xs ++ le :: ys)) := by
  have notOn : ∀ x ∈ xs ++ ys, x ≠ le := fun x mem same =>
    rep.fresh free list (by rw [split, ← same]; exact mem)
  constructor
  · intro l
    by_cases here : l = list
    · subst here
      rw [Function.update_self]
      have linked := split ▸ rep.linked l
      refine linked.insert (fun mem => notOn le mem rfl) (by simp [Links.splice])
        (by simp [Links.splice]) ?_ ?_ ?_ ?_ (by simp [Links.splice]) (by simp [Links.splice])
      · intro y mem
        have ne := notOn y (by simp [List.mem_of_head? mem])
        simp [Links.splice, ne, Option.mem_def.mp mem]
      · intro x mem
        have ne := notOn x (by simp [List.mem_of_getLast? mem])
        simp [Links.splice, ne, Option.mem_def.mp mem]
      · intro x mem other
        simp [Links.splice, notOn x mem, other]
      · intro x mem other
        simp [Links.splice, notOn x mem, other]
    · rw [Function.update_of_ne here]
      have apart : ∀ x ∈ σ l, x ≠ le ∧ some x ≠ xs.getLast? ∧ some x ≠ ys.head? := by
        intro x mem
        have other : x ∉ xs ++ ys := fun also => here (rep.unique mem (split ▸ also))
        refine ⟨?_, fun same => other ?_, fun same => other ?_⟩
        · rintro rfl
          exact rep.fresh free l mem
        · exact List.mem_append_left _ (List.mem_of_getLast? same.symm)
        · exact List.mem_append_right _ (List.mem_of_head? same.symm)
      have frame : Linked (fun a => ((m.splice list xs.getLast? ys.head? le data).le a).prev)
          (fun a => ((m.splice list xs.getLast? ys.head? le data).le a).next) _ _ (σ l) :=
        (rep.linked l).frame (fun x mem => by simp [Links.splice, apart x mem])
        (fun x mem => by simp [Links.splice, apart x mem])
      simpa [Links.splice, here] using frame
  · intro x l
    by_cases self : x = le
    · subst self
      by_cases here : l = list
      · subst here
        simp [Links.splice]
      · have off := rep.fresh free l
        simp [Links.splice, Function.update_of_ne here, off, Ne.symm here]
    · have same : ((m.splice list xs.getLast? ys.head? le data).le x).list = (m.le x).list := by
        simp [Links.splice, self]
      rw [same, rep.owner]
      by_cases here : l = list
      · subst here
        simp [split, self]
      · rw [Function.update_of_ne here]

/-! ## An element is taken out -/

theorem Represents.unsplice (rep : Represents m σ) (split : σ list = xs ++ le :: ys) :
    Represents (m.unsplice list xs.getLast? ys.head? le) (Function.update σ list (xs ++ ys)) := by
  have linked := split ▸ rep.linked list
  have notOn : ∀ x ∈ xs ++ ys, x ≠ le := fun x mem same => rep.once split (same ▸ mem)
  have on : le ∈ σ list := by simp [split]
  constructor
  · intro l
    by_cases here : l = list
    · subst here
      rw [Function.update_self]
      refine linked.remove ?_ ?_ ?_ ?_ (by simp [Links.unsplice]) (by simp [Links.unsplice])
      · intro y mem
        have ne := notOn y (by simp [List.mem_of_head? mem])
        simp [Links.unsplice, ne, Option.mem_def.mp mem]
      · intro x mem
        have ne := notOn x (by simp [List.mem_of_getLast? mem])
        simp [Links.unsplice, ne, Option.mem_def.mp mem]
      · intro x mem other
        simp [Links.unsplice, notOn x mem, other]
      · intro x mem other
        simp [Links.unsplice, notOn x mem, other]
    · rw [Function.update_of_ne here]
      have apart : ∀ x ∈ σ l, x ≠ le ∧ some x ≠ xs.getLast? ∧ some x ≠ ys.head? := by
        intro x mem
        have other : x ∉ σ list := fun also => here (rep.unique mem also)
        rw [split] at other
        refine ⟨?_, fun same => other ?_, fun same => other ?_⟩
        · rintro rfl
          simp at other
        · simp [List.mem_of_getLast? same.symm]
        · simp [List.mem_of_head? same.symm]
      have frame : Linked (fun a => ((m.unsplice list xs.getLast? ys.head? le).le a).prev)
          (fun a => ((m.unsplice list xs.getLast? ys.head? le).le a).next) _ _ (σ l) :=
        (rep.linked l).frame (fun x mem => by simp [Links.unsplice, apart x mem])
        (fun x mem => by simp [Links.unsplice, apart x mem])
      simpa [Links.unsplice, here] using frame
  · intro x l
    by_cases self : x = le
    · subst self
      have gone : x ∉ xs ++ ys := fun mem => notOn x mem rfl
      by_cases here : l = list
      · subst here
        rw [Function.update_self]
        simpa [Links.unsplice] using gone
      · have off : x ∉ σ l := fun mem => here (rep.unique mem on)
        simp [Links.unsplice, Function.update_of_ne here, off]
    · have same : ((m.unsplice list xs.getLast? ys.head? le).le x).list = (m.le x).list := by
        simp [Links.unsplice, self]
      rw [same, rep.owner]
      by_cases here : l = list
      · subst here
        simp [split, self]
      · rw [Function.update_of_ne here]

/-! ## The functions of `list.c` -/

namespace Represents

theorem listAppend_eq (rep : Represents m σ) (free : (m.le le).list = none) :
    m.listAppend list le data = m.splice list (m.list list).tail none le data := by
  have ends := rep.head_none_iff list
  have notTail := (rep.ends_ne free list).2
  unfold Links.listAppend
  cases tail : (m.list list).tail with
  | none =>
    have head := ends.mpr tail
    ext x : 2
    · by_cases self : x = le <;> simp [free, head, tail, self, Links.splice]
    · by_cases here : x = list <;> simp [free, head, tail, here, Links.splice]
  | some last =>
    have head : (m.list list).head ≠ none := fun none => by simp [ends.mp none] at tail
    have other : last ≠ le := fun same => notTail (same ▸ tail)
    ext x : 2
    · by_cases self : x = le
      · simp [free, head, tail, self, Links.splice, other.symm]
      · by_cases isLast : x = last <;> simp [free, head, tail, self, isLast, other, Links.splice]
    · by_cases here : x = list <;> simp [free, head, tail, here, Links.splice]

theorem listPrepend_eq (rep : Represents m σ) (free : (m.le le).list = none) :
    m.listPrepend list le data = m.splice list none (m.list list).head le data := by
  have ends := rep.head_none_iff list
  have notHead := (rep.ends_ne free list).1
  unfold Links.listPrepend
  cases head : (m.list list).head with
  | none =>
    have tail := ends.mp head
    ext x : 2
    · by_cases self : x = le <;> simp [free, head, tail, self, Links.splice]
    · by_cases here : x = list <;> simp [free, head, tail, here, Links.splice]
  | some first =>
    have tail : (m.list list).tail ≠ none := fun none => by simp [ends.mpr none] at head
    have other : first ≠ le := fun same => notHead (same ▸ head)
    ext x : 2
    · by_cases self : x = le
      · simp [free, head, tail, self, Links.splice, other.symm]
      · by_cases isFirst : x = first <;>
          simp [free, head, tail, self, isFirst, other, Links.splice]
    · by_cases here : x = list <;> simp [free, head, tail, here, Links.splice]

theorem listInsertBefore_eq (rep : Represents m σ) (split : σ list = xs ++ le :: ys)
    (free : (m.le ile).list = none) :
    m.listInsertBefore list le ile data = m.splice list (m.le le).prev (some le) ile data := by
  have notOn := split ▸ rep.fresh free list
  have ne : ile ≠ le := by
    rintro rfl
    simp at notOn
  have before := (rep.at_split split).1
  have fresh := rep.once split
  unfold Links.listInsertBefore
  cases prev : (m.le le).prev with
  | none =>
    have first : xs = [] := by simpa [prev, eq_comm] using before
    have head : (m.list list).head = some le := by rw [rep.head_eq, split, first]; rfl
    ext x : 2
    · by_cases self : x = ile
      · simp [free, head, prev, self, Links.splice, ne]
      · by_cases there : x = le <;> simp [free, head, prev, self, there, ne.symm, Links.splice]
    · by_cases here : x = list <;> simp [free, head, prev, here, Links.splice]
  | some p =>
    have mem : p ∈ xs := List.mem_of_getLast? (before.symm.trans prev)
    have other : p ≠ ile := by
      rintro rfl
      simp [mem] at notOn
    have apart : p ≠ le := by
      rintro rfl
      exact fresh (List.mem_append_left _ mem)
    ext x : 2
    · by_cases self : x = ile
      · simp [free, prev, self, Links.splice, ne, apart.symm]
      · by_cases there : x = le
        · simp [free, prev, there, apart.symm, ne.symm, Links.splice]
        · by_cases same : x = p <;>
            simp [free, self, there, same, other, apart, Links.splice]
    · by_cases here : x = list <;> simp [free, here, Links.splice]

theorem listInsertAfter_eq (rep : Represents m σ) (split : σ list = xs ++ le :: ys)
    (free : (m.le ile).list = none) :
    m.listInsertAfter list le ile data = m.splice list (some le) (m.le le).next ile data := by
  have notOn := split ▸ rep.fresh free list
  have ne : ile ≠ le := by
    rintro rfl
    simp at notOn
  have after := (rep.at_split split).2
  have fresh := rep.once split
  unfold Links.listInsertAfter
  cases next : (m.le le).next with
  | none =>
    have last : ys = [] := by simpa [next, eq_comm] using after
    have tail : (m.list list).tail = some le := by rw [rep.tail_eq, split, last]; simp
    ext x : 2
    · by_cases self : x = ile
      · simp [free, tail, next, self, Links.splice, ne]
      · by_cases there : x = le <;> simp [free, tail, next, self, there, ne.symm, Links.splice]
    · by_cases here : x = list <;> simp [free, tail, next, here, Links.splice]
  | some n =>
    have mem : n ∈ ys := List.mem_of_head? (after.symm.trans next)
    have other : n ≠ ile := by
      rintro rfl
      simp [mem] at notOn
    have apart : n ≠ le := by
      rintro rfl
      exact fresh (List.mem_append_right _ mem)
    ext x : 2
    · by_cases self : x = ile
      · simp [free, next, self, Links.splice, ne, apart.symm]
      · by_cases there : x = le
        · simp [free, next, there, apart.symm, ne.symm, Links.splice]
        · by_cases same : x = n <;>
            simp [free, self, there, same, other, apart, Links.splice]
    · by_cases here : x = list <;> simp [free, here, Links.splice]

theorem listUnlink_eq (rep : Represents m σ) (split : σ list = xs ++ le :: ys) :
    m.listUnlink le = m.unsplice list (m.le le).prev (m.le le).next le := by
  have on : (m.le le).list = some list := (rep.owner le list).mpr (by simp [split])
  obtain ⟨before, after⟩ := rep.at_split split
  have fresh := rep.once split
  have notPrev : (m.le le).prev ≠ some le := fun same =>
    fresh (by simp [List.mem_of_getLast? (before.symm.trans same)])
  have notNext : (m.le le).next ≠ some le := fun same =>
    fresh (by simp [List.mem_of_head? (after.symm.trans same)])
  unfold Links.listUnlink
  rw [on]
  cases prev : (m.le le).prev with
  | none =>
    cases next : (m.le le).next with
    | none =>
      ext x : 2
      · by_cases self : x = le <;> simp [prev, next, self, Links.unsplice]
      · by_cases here : x = list <;> simp [prev, next, here, Links.unsplice]
    | some n =>
      have other : n ≠ le := fun same => notNext (same ▸ next)
      ext x : 2
      · by_cases self : x = le
        · simp [prev, next, self, other.symm, Links.unsplice]
        · by_cases same : x = n <;> simp [prev, next, self, same, other, Links.unsplice]
      · by_cases here : x = list <;> simp [prev, next, here, Links.unsplice]
  | some p =>
    have otherP : p ≠ le := fun same => notPrev (same ▸ prev)
    cases next : (m.le le).next with
    | none =>
      ext x : 2
      · by_cases self : x = le
        · simp [prev, next, self, otherP.symm, Links.unsplice]
        · by_cases same : x = p <;>
            simp [prev, next, self, same, otherP, otherP.symm, Links.unsplice]
      · by_cases here : x = list <;> simp [prev, next, here, otherP.symm, Links.unsplice]
    | some n =>
      have otherN : n ≠ le := fun same => notNext (same ▸ next)
      ext x : 2
      · by_cases self : x = le
        · simp [prev, next, self, otherP.symm, otherN.symm, Links.unsplice]
        · by_cases sameN : x = n
          · by_cases sameP : n = p <;>
              simp [prev, next, sameN, sameP, otherP, otherP.symm, otherN, Links.unsplice]
          · by_cases sameP : x = p
            · subst sameP
              simp [prev, next, self, sameN, otherP.symm, Links.unsplice]
            · simp [prev, next, self, sameN, sameP, otherP.symm, Links.unsplice]
      · by_cases here : x = list <;> simp [prev, next, here, otherP.symm, Links.unsplice]

/-! ### The lists that they leave -/

theorem listAppend (rep : Represents m σ) (list : ι) (free : (m.le le).list = none)
    (data : Option Nat) :
    Represents (m.listAppend list le data) (Function.update σ list (σ list ++ [le])) := by
  rw [rep.listAppend_eq free, rep.tail_eq]
  have split : σ list = σ list ++ [] := (List.append_nil _).symm
  exact rep.splice split free data

theorem listPrepend (rep : Represents m σ) (list : ι) (free : (m.le le).list = none)
    (data : Option Nat) :
    Represents (m.listPrepend list le data) (Function.update σ list (le :: σ list)) := by
  rw [rep.listPrepend_eq free, rep.head_eq]
  have split : σ list = [] ++ σ list := rfl
  exact rep.splice split free data

theorem listInsertBefore (rep : Represents m σ) (split : σ list = xs ++ le :: ys)
    (free : (m.le ile).list = none) (data : Option Nat) :
    Represents (m.listInsertBefore list le ile data)
      (Function.update σ list (xs ++ ile :: le :: ys)) := by
  rw [rep.listInsertBefore_eq split free, (rep.at_split split).1]
  exact rep.splice split free data

theorem listInsertAfter (rep : Represents m σ) (split : σ list = xs ++ le :: ys)
    (free : (m.le ile).list = none) (data : Option Nat) :
    Represents (m.listInsertAfter list le ile data)
      (Function.update σ list (xs ++ le :: ile :: ys)) := by
  have split' : σ list = (xs ++ [le]) ++ ys := by simpa using split
  have spliced := rep.splice split' free data
  rw [List.getLast?_concat, ← (rep.at_split split).2] at spliced
  rw [rep.listInsertAfter_eq split free]
  simpa using spliced

theorem listUnlink (rep : Represents m σ) (split : σ list = xs ++ le :: ys) :
    Represents (m.listUnlink le) (Function.update σ list (xs ++ ys)) := by
  obtain ⟨before, after⟩ := rep.at_split split
  rw [rep.listUnlink_eq split, before, after]
  exact rep.unsplice split

/-! ### The data of the elements -/

theorem data_listAppend (rep : Represents m σ) (free : (m.le le).list = none) (x : LeId) :
    ((m.listAppend list le data).le x).data = if x = le then data else (m.le x).data := by
  rw [rep.listAppend_eq free, Links.data_splice]

theorem data_listPrepend (rep : Represents m σ) (free : (m.le le).list = none) (x : LeId) :
    ((m.listPrepend list le data).le x).data = if x = le then data else (m.le x).data := by
  rw [rep.listPrepend_eq free, Links.data_splice]

theorem data_listInsertBefore (rep : Represents m σ) (split : σ list = xs ++ le :: ys)
    (free : (m.le ile).list = none) (x : LeId) :
    ((m.listInsertBefore list le ile data).le x).data = if x = ile then data else (m.le x).data := by
  rw [rep.listInsertBefore_eq split free, Links.data_splice]

theorem data_listInsertAfter (rep : Represents m σ) (split : σ list = xs ++ le :: ys)
    (free : (m.le ile).list = none) (x : LeId) :
    ((m.listInsertAfter list le ile data).le x).data = if x = ile then data else (m.le x).data := by
  rw [rep.listInsertAfter_eq split free, Links.data_splice]

theorem data_listUnlink (rep : Represents m σ) (split : σ list = xs ++ le :: ys) (x : LeId) :
    ((m.listUnlink le).le x).data = (m.le x).data := by
  rw [rep.listUnlink_eq split, Links.data_unsplice]

end Represents

/-! ### Insertion behind an element of any memory -/

namespace Links

/-- Where the pointers forward lead. -/
theorem next_listInsertAfter (free : (m.le ile).list = none) (x : LeId) :
    ((m.listInsertAfter list le ile data).le x).next =
      if x = le then some ile else if x = ile then (m.le le).next else (m.le x).next := by
  have taken : ¬ (m.le ile).list.isSome = true := by simp [free]
  rw [listInsertAfter, if_neg taken]
  cases after : (m.le le).next with
  | none =>
    by_cases tail : (m.list list).tail = some le <;>
      simp only [tail, if_true, if_false, le_setLe, le_setList] <;> grind
  | some next =>
    simp only [le_setLe]
    grind

theorem head_listInsertAfter (l : ι) :
    ((m.listInsertAfter list le ile data).list l).head = (m.list l).head := by
  unfold listInsertAfter
  split
  · rfl
  · split
    · rfl
    · split
      · simp only [list_setLe, list_setList]
        split
        next here => rw [here]
        next => rfl
      · rfl

end Links

end Autodialer
