import Mathlib.Data.List.Nodup

/-!
# Doubly linked segments

Elements in memory that point to each other with `prev` and `next`. `Seg prev next p l q` says that
the elements `l` are linked in this order in both directions, the first one back to `p` and the last
one on to `q`; `Linked` is a whole list with its two ends.

* `seg_append`: a segment can be cut at any place.
* `Seg.reverse`: a segment can be read backwards.
* `Seg.retarget`, `Seg.resource`: what redirecting the last, and the first, pointer makes of it.
* `Linked.insert`, `Linked.remove`: an element is put between two neighbours, or taken out.
-/

universe u

namespace Doubly

variable {α : Type u}

/-- The elements are linked in both directions, from `p` to `q`. -/
def Seg (prev next : α → Option α) : Option α → List α → Option α → Prop
  | _, [], _ => True
  | p, a :: l, q => prev a = p ∧ next a = l.head?.or q ∧ Seg prev next (some a) l q

/-- A list with its two ends. -/
structure Linked (prev next : α → Option α) (head tail : Option α) (l : List α) : Prop where
  head_eq : head = l.head?
  tail_eq : tail = l.getLast?
  nodup : l.Nodup
  seg : Seg prev next none l none

section
variable {prev next prev' next' : α → Option α} {p q p' q' : Option α} {a : α} {l k : List α}

@[simp] theorem seg_nil : Seg prev next p [] q := trivial

@[simp] theorem seg_cons : Seg prev next p (a :: l) q ↔
    prev a = p ∧ next a = l.head?.or q ∧ Seg prev next (some a) l q := Iff.rfl

theorem getLast?_cons_or : (a :: l).getLast?.or p = l.getLast?.or (some a) := by
  rw [List.getLast?_cons]
  cases l.getLast? <;> rfl

/-- A segment can be cut at any place. -/
theorem seg_append : Seg prev next p (l ++ k) q ↔
    Seg prev next p l (k.head?.or q) ∧ Seg prev next (l.getLast?.or p) k q := by
  induction l generalizing p with
  | nil => simp
  | cons a l ih =>
    rw [List.cons_append, seg_cons, seg_cons, ih, List.head?_append, Option.or_assoc,
      getLast?_cons_or, and_assoc, and_assoc]

/-- What the neighbours of an element are. -/
theorem Seg.at {xs ys : List α} (seg : Seg prev next p (xs ++ a :: ys) q) :
    prev a = xs.getLast?.or p ∧ next a = ys.head?.or q := by
  obtain ⟨-, before, after, -⟩ := seg_append.mp seg
  exact ⟨before, after⟩

/-- One step along the pointers of a segment. -/
theorem Seg.uncons (seg : Seg prev next p l none) (first : l.head? = some a) :
    ∃ k, l = a :: k ∧ k.head? = next a ∧ Seg prev next (some a) k none := by
  cases l with
  | nil => cases first
  | cons b l =>
    obtain rfl := Option.some.inj first
    obtain ⟨-, after, rest⟩ := seg
    exact ⟨l, rfl, by rw [after, Option.or_none], rest⟩

/-- A segment depends on its own elements only. -/
theorem Seg.frame (seg : Seg prev next p l q) (samePrev : ∀ x ∈ l, prev' x = prev x)
    (sameNext : ∀ x ∈ l, next' x = next x) : Seg prev' next' p l q := by
  induction l generalizing p with
  | nil => trivial
  | cons a l ih =>
    obtain ⟨before, after, rest⟩ := seg
    refine ⟨(samePrev a (by simp)).trans before, (sameNext a (by simp)).trans after, ?_⟩
    exact ih rest (fun x mem => samePrev x (by simp [mem])) fun x mem => sameNext x (by simp [mem])

/-- The last element of a segment is made to point elsewhere. -/
theorem Seg.retarget (seg : Seg prev next p l q) (nodup : l.Nodup)
    (samePrev : ∀ x ∈ l, prev' x = prev x)
    (last : ∀ x ∈ l, some x = l.getLast? → next' x = q')
    (sameNext : ∀ x ∈ l, some x ≠ l.getLast? → next' x = next x) : Seg prev' next' p l q' := by
  induction l generalizing p with
  | nil => trivial
  | cons a l ih =>
    obtain ⟨before, after, rest⟩ := seg
    obtain ⟨fresh, nodup⟩ := List.nodup_cons.mp nodup
    refine ⟨(samePrev a (by simp)).trans before, ?_, ?_⟩
    · cases l with
      | nil => exact last a (by simp) rfl
      | cons b l =>
        have inner : some a ≠ (a :: b :: l).getLast? := by
          rw [List.getLast?_cons_cons]
          exact fun same => fresh (List.mem_of_getLast? same.symm)
        exact (sameNext a (by simp) inner).trans after
    · have lift : ∀ x ∈ l, (a :: l).getLast? = l.getLast? := fun x mem => by
        cases l with
        | nil => cases mem
        | cons b l => exact List.getLast?_cons_cons
      refine ih rest nodup (fun x mem => samePrev x (by simp [mem])) (fun x mem isLast => ?_)
        fun x mem notLast => ?_
      · exact last x (by simp [mem]) (isLast.trans (lift x mem).symm)
      · exact sameNext x (by simp [mem]) fun isLast => notLast (isLast.trans (lift x mem))

/-- The first element of a segment is made to point back elsewhere. -/
theorem Seg.resource (seg : Seg prev next p l q) (nodup : l.Nodup)
    (sameNext : ∀ x ∈ l, next' x = next x)
    (first : ∀ x ∈ l, some x = l.head? → prev' x = p')
    (samePrev : ∀ x ∈ l, some x ≠ l.head? → prev' x = prev x) : Seg prev' next' p' l q := by
  cases l with
  | nil => trivial
  | cons a l =>
    obtain ⟨-, after, rest⟩ := seg
    obtain ⟨fresh, -⟩ := List.nodup_cons.mp nodup
    refine ⟨first a (by simp) rfl, (sameNext a (by simp)).trans after, ?_⟩
    refine rest.frame (fun x mem => samePrev x (by simp [mem]) ?_) fun x mem =>
      sameNext x (by simp [mem])
    rintro same
    obtain rfl : x = a := by simpa using same
    exact fresh mem

/-- When an element is made to point past those behind it, the pointers forward lead past them. -/
theorem Seg.bypass [DecidableEq α] {xs ys zs : List α} (seg : Seg prev next p (xs ++ a :: (ys ++ zs)) q)
    (nodup : (xs ++ a :: (ys ++ zs)).Nodup) (skips : next' a = zs.head?.or q)
    (sameNext : ∀ x ∈ xs ++ zs, next' x = next x) :
    ∃ prev', Seg prev' next' p (xs ++ a :: zs) q := by
  have front : ∀ x ∈ xs, x ≠ a ∧ x ∉ zs := by grind
  have back : ∀ z ∈ zs, z ≠ a := by grind
  obtain ⟨before, -, -, behind⟩ := seg_append.mp seg
  obtain ⟨-, rest⟩ := seg_append.mp behind
  -- the pointers backward are made to fit
  refine ⟨fun x => if x = a then xs.getLast?.or p else if some x = zs.head? then some a else prev x,
    seg_append.mpr ⟨before.frame (fun x mem => ?_) fun x mem => ?_, if_pos rfl, skips,
      rest.resource (by grind) (fun z mem => ?_) (fun z mem first => ?_) fun z mem other => ?_⟩⟩
  · obtain ⟨ne, off⟩ := front x mem
    exact (if_neg ne).trans (if_neg fun first => off (List.mem_of_head? first.symm))
  · exact sameNext x (List.mem_append_left _ mem)
  · exact sameNext z (List.mem_append_right _ mem)
  · exact (if_neg (back z mem)).trans (if_pos first)
  · exact (if_neg (back z mem)).trans (if_neg other)

/-- Read backwards, a segment is one with its pointers exchanged. -/
theorem Seg.reverse (seg : Seg prev next p l q) : Seg next prev q l.reverse p := by
  induction l generalizing p with
  | nil => trivial
  | cons a l ih =>
    obtain ⟨before, after, rest⟩ := seg
    rw [List.reverse_cons, seg_append]
    refine ⟨ih rest, ?_, before, trivial⟩
    rw [after, List.getLast?_reverse]

end

/-! ## A whole list -/

namespace Linked

variable {prev next prev' next' : α → Option α} {head tail head' tail' : Option α} {a : α}
  {l xs ys : List α}

theorem empty : Linked prev next none none [] := ⟨rfl, rfl, List.nodup_nil, trivial⟩

theorem frame (linked : Linked prev next head tail l) (samePrev : ∀ x ∈ l, prev' x = prev x)
    (sameNext : ∀ x ∈ l, next' x = next x) : Linked prev' next' head tail l :=
  ⟨linked.head_eq, linked.tail_eq, linked.nodup, linked.seg.frame samePrev sameNext⟩

theorem «at» (linked : Linked prev next head tail (xs ++ a :: ys)) :
    prev a = xs.getLast? ∧ next a = ys.head? := by
  simpa using linked.seg.at

/-- The element `a` is put between `xs` and `ys`. -/
theorem insert (linked : Linked prev next head tail (xs ++ ys)) (fresh : a ∉ xs ++ ys)
    (back : prev' a = xs.getLast?) (on : next' a = ys.head?)
    (prevAfter : ∀ y ∈ ys.head?, prev' y = some a)
    (nextBefore : ∀ x ∈ xs.getLast?, next' x = some a)
    (samePrev : ∀ x ∈ xs ++ ys, some x ≠ ys.head? → prev' x = prev x)
    (sameNext : ∀ x ∈ xs ++ ys, some x ≠ xs.getLast? → next' x = next x)
    (headEq : head' = if xs = [] then some a else head)
    (tailEq : tail' = if ys = [] then some a else tail) :
    Linked prev' next' head' tail' (xs ++ a :: ys) := by
  obtain ⟨nodupX, nodupY, apart⟩ := List.nodup_append.mp linked.nodup
  obtain ⟨left, right⟩ := seg_append.mp linked.seg
  have notHead : ∀ x ∈ xs, some x ≠ ys.head? := fun x mem same =>
    apart x mem x (List.mem_of_head? same.symm) rfl
  have notLast : ∀ y ∈ ys, some y ≠ xs.getLast? := fun y mem same =>
    apart y (List.mem_of_getLast? same.symm) y mem rfl
  refine ⟨?_, ?_, ?_, seg_append.mpr ⟨?_, ?_, ?_, ?_⟩⟩
  · rw [headEq]
    cases xs with
    | nil => rfl
    | cons x xs => simpa using linked.head_eq
  · rw [tailEq]
    rcases List.eq_nil_or_concat ys with rfl | ⟨ys, y, rfl⟩
    · simp
    · rw [if_neg (by simp), linked.tail_eq, List.concat_eq_append, ← List.append_assoc,
        ← List.cons_append, ← List.append_assoc, List.getLast?_concat, List.getLast?_concat]
  · rw [List.nodup_middle, List.nodup_cons]
    exact ⟨fresh, linked.nodup⟩
  · exact left.retarget nodupX (fun x mem => samePrev x (by simp [mem]) (notHead x mem))
      (fun x _ isLast => nextBefore x isLast.symm) fun x mem => sameNext x (by simp [mem])
  · simpa using back
  · simpa using on
  · exact right.resource nodupY (fun y mem => sameNext y (by simp [mem]) (notLast y mem))
      (fun y _ isFirst => prevAfter y isFirst.symm) fun y mem => samePrev y (by simp [mem])

/-- The element between `xs` and `ys` is taken out. -/
theorem remove (linked : Linked prev next head tail (xs ++ a :: ys))
    (prevAfter : ∀ y ∈ ys.head?, prev' y = xs.getLast?)
    (nextBefore : ∀ x ∈ xs.getLast?, next' x = ys.head?)
    (samePrev : ∀ x ∈ xs ++ ys, some x ≠ ys.head? → prev' x = prev x)
    (sameNext : ∀ x ∈ xs ++ ys, some x ≠ xs.getLast? → next' x = next x)
    (headEq : head' = if xs = [] then ys.head? else head)
    (tailEq : tail' = if ys = [] then xs.getLast? else tail) :
    Linked prev' next' head' tail' (xs ++ ys) := by
  have nodup : (xs ++ ys).Nodup := (List.nodup_cons.mp (List.nodup_middle.mp linked.nodup)).2
  obtain ⟨nodupX, nodupY, apart⟩ := List.nodup_append.mp nodup
  obtain ⟨left, -, -, right⟩ := seg_append.mp linked.seg
  have notHead : ∀ x ∈ xs, some x ≠ ys.head? := fun x mem same =>
    apart x mem x (List.mem_of_head? same.symm) rfl
  have notLast : ∀ y ∈ ys, some y ≠ xs.getLast? := fun y mem same =>
    apart y (List.mem_of_getLast? same.symm) y mem rfl
  refine ⟨?_, ?_, nodup, seg_append.mpr ⟨?_, ?_⟩⟩
  · rw [headEq]
    cases xs with
    | nil => rfl
    | cons x xs => simpa using linked.head_eq
  · rw [tailEq]
    rcases List.eq_nil_or_concat ys with rfl | ⟨ys, y, rfl⟩
    · simp
    · rw [if_neg (by simp), linked.tail_eq, List.concat_eq_append, ← List.append_assoc,
        ← List.cons_append, ← List.append_assoc, List.getLast?_concat, List.getLast?_concat]
  · refine left.retarget nodupX (fun x mem => samePrev x (by simp [mem]) (notHead x mem))
      (fun x _ isLast => ?_) fun x mem => sameNext x (by simp [mem])
    simpa using nextBefore x isLast.symm
  · refine right.resource nodupY (fun y mem => sameNext y (by simp [mem]) (notLast y mem))
      (fun y _ isFirst => ?_) fun y mem => samePrev y (by simp [mem])
    simpa using prevAfter y isFirst.symm

end Linked

end Doubly
