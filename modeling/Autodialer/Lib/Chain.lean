import Autodialer.Lib.Heap
import Mathlib.Data.List.Nodup

/-!
# Linked chains in a heap

A chain is what a loop over `next` pointers visits: cells of a heap, each
naming the next, down to a null pointer. `link` is the pointer of a cell and
`val` what the cell carries; a chain is recorded as the addresses it visits
with the values found there.

* `Linked.unique`: a pointer starts at most one chain.
* `Linked.frame`: a chain survives every change elsewhere.
* `Linked.append_cell`: redirecting the last pointer appends a cell.
-/

namespace Chain

universe u v

variable {ν : Type u} {β : Type v} {link : ν → Option Nat} {val : ν → β}

/-- Following `link` from the pointer `p` visits exactly `cells` and ends. -/
inductive Linked (link : ν → Option Nat) (val : ν → β) (h : Heap ν) :
    Option Nat → List (Nat × β) → Prop
  | nil : Linked link val h none []
  | cons {a : Nat} {n : ν} {cells : List (Nat × β)} :
      h.get a = some n → Linked link val h (link n) cells →
      Linked link val h (some a) ((a, val n) :: cells)

/-- The addresses of a chain. -/
def addrs (cells : List (Nat × β)) : List Nat := cells.map Prod.fst

/-- The values of a chain. -/
def vals (cells : List (Nat × β)) : List β := cells.map Prod.snd

@[simp] theorem addrs_nil : addrs ([] : List (Nat × β)) = [] := rfl

@[simp] theorem vals_nil : vals ([] : List (Nat × β)) = [] := rfl

@[simp] theorem addrs_cons (c : Nat × β) (cells : List (Nat × β)) :
    addrs (c :: cells) = c.1 :: addrs cells := rfl

@[simp] theorem vals_cons (c : Nat × β) (cells : List (Nat × β)) :
    vals (c :: cells) = c.2 :: vals cells := rfl

@[simp] theorem addrs_append (cells cells' : List (Nat × β)) :
    addrs (cells ++ cells') = addrs cells ++ addrs cells' := List.map_append

@[simp] theorem vals_append (cells cells' : List (Nat × β)) :
    vals (cells ++ cells') = vals cells ++ vals cells' := List.map_append

theorem Linked.of_none {h : Heap ν} {cells : List (Nat × β)} (chain : Linked link val h none cells) :
    cells = [] := by
  cases chain
  rfl

theorem Linked.of_some {h : Heap ν} {a : Nat} {cells : List (Nat × β)}
    (chain : Linked link val h (some a) cells) :
    ∃ n rest, h.get a = some n ∧ cells = (a, val n) :: rest ∧ Linked link val h (link n) rest := by
  cases chain with
  | cons live rest => exact ⟨_, _, live, rfl, rest⟩

theorem Linked.unique {h : Heap ν} {p : Option Nat} {cells cells' : List (Nat × β)}
    (left : Linked link val h p cells) (right : Linked link val h p cells') : cells = cells' := by
  induction left generalizing cells' with
  | nil => exact right.of_none.symm
  | cons live _ ih =>
    obtain ⟨n, rest, live', rfl, tail⟩ := right.of_some
    obtain rfl : _ = n := Option.some.inj (live.symm.trans live')
    rw [ih tail]

theorem Linked.live {h : Heap ν} {p : Option Nat} {cells : List (Nat × β)}
    (chain : Linked link val h p cells) : ∀ a ∈ addrs cells, ∃ n, h.get a = some n := by
  induction chain with
  | nil => intro a mem; cases mem
  | cons live _ ih =>
    intro a mem
    rcases List.mem_cons.mp mem with rfl | mem
    · exact ⟨_, live⟩
    · exact ih a mem

/-- The last cell of a chain. -/
theorem Linked.last {h : Heap ν} {p : Option Nat} {cells : List (Nat × β)} {a : Nat} {x : β}
    (chain : Linked link val h p (cells ++ [(a, x)])) :
    ∃ n, h.get a = some n ∧ val n = x ∧ link n = none := by
  induction cells generalizing p with
  | nil =>
    generalize eq : [] ++ [(a, x)] = one at chain
    cases chain with
    | nil => cases eq
    | @cons b n rest live tail =>
      cases eq
      refine ⟨n, live, rfl, ?_⟩
      generalize link n = q at tail
      cases tail
      rfl
  | cons c cells ih =>
    cases chain with
    | cons _ rest => exact ih rest

/-- A chain depends on its own cells only. -/
theorem Linked.frame {h h' : Heap ν} {p : Option Nat} {cells : List (Nat × β)}
    (chain : Linked link val h p cells) (same : ∀ a ∈ addrs cells, h'.get a = h.get a) :
    Linked link val h' p cells := by
  induction chain with
  | nil => exact Linked.nil
  | @cons a n cells live _ ih =>
    refine Linked.cons ?_ (ih fun b mem => same b (by simp [mem]))
    rw [same a (by simp), live]

/-- A chain that ends in the cell `a`, whose pointer is redirected to a new last
cell `q`. -/
theorem Linked.append_cell {h h' : Heap ν} {p : Option Nat} {cells : List (Nat × β)}
    {a q : Nat} {x : β} {n n' : ν} (chain : Linked link val h p (cells ++ [(a, x)]))
    (same : ∀ b ∈ addrs cells, h'.get b = h.get b)
    (lastCell : h'.get a = some n) (lastVal : val n = x) (lastLink : link n = some q)
    (newCell : h'.get q = some n') (newLink : link n' = none) :
    Linked link val h' p (cells ++ [(a, x), (q, val n')]) := by
  induction cells generalizing p with
  | nil =>
    cases chain with
    | cons _ _ =>
      rw [List.nil_append, ← lastVal]
      refine Linked.cons lastCell ?_
      rw [lastLink]
      refine Linked.cons newCell ?_
      rw [newLink]
      exact Linked.nil
  | cons c cells ih =>
    cases chain with
    | cons live rest =>
      rw [List.cons_append]
      refine Linked.cons ?_ (ih rest fun b mem => same b (by simp [mem]))
      rw [same _ (by simp), live]

end Chain
