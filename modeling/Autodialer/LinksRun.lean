import Autodialer.LinksSpec
import Autodialer.Lib.Refinement

/-!
# Lists in memory are lists

The loops of `list.c` end and visit the elements in their order, and every run of its functions is
a run of an abstract system of lists, in which an element is on one list at most.

* `Represents.listApply`, `Represents.listCount`: what the loops find.
* `Represents.listSort`: `list_sort` ends with the stable sort of the list, its links in order.
* `links_refine`: every run of the functions is a run on abstract lists.
-/

namespace Autodialer

open Doubly StableSort

variable {ι : Type} {m : Links ι} {σ : ι → List LeId} {list : ι} {le : LeId}

/-! ## Walking a list -/

namespace Links

/-- A loop along the pointers of a segment finds the first element that the handler accepts. -/
theorem applyLoop_seg {prev next : LeId → Option LeId} {ah : LeId → Bool} {p : Option LeId}
    {l : List LeId} {fuel : Nat} (seg : Seg prev next p l none) (enough : l.length ≤ fuel) :
    applyLoop ah next fuel l.head? = some (l.find? ah) := by
  induction l generalizing p fuel with
  | nil => cases fuel <;> rfl
  | cons a l ih =>
    obtain ⟨-, after, rest⟩ := seg
    cases fuel with
    | zero => simp at enough
    | succ fuel =>
      rw [List.head?_cons, applyLoop, after, Option.or_none,
        ih rest (Nat.le_of_succ_le_succ enough)]
      cases found : ah a <;> simp [found]

/-- More steps than a loop needs make no difference. -/
theorem applyLoop_mono {ah : LeId → Bool} {step : LeId → Option LeId} {fuel fuel' : Nat}
    {p r : Option LeId} (done : applyLoop ah step fuel p = some r) (more : fuel ≤ fuel') :
    applyLoop ah step fuel' p = some r := by
  induction fuel generalizing fuel' p with
  | zero =>
    cases p with
    | none => cases fuel' <;> simpa [applyLoop] using done
    | some a => cases done
  | succ fuel ih =>
    obtain ⟨fuel', rfl⟩ := Nat.exists_eq_succ_of_ne_zero (Nat.ne_zero_of_lt more)
    cases p with
    | none => simpa [applyLoop] using done
    | some a =>
      unfold applyLoop at done ⊢
      split
      next found => simpa [found] using done
      next other => exact ih (by simpa [other] using done) (Nat.le_of_succ_le_succ more)

theorem listApply_mono {fwd : Bool} {ah : LeId → Bool} {fuel fuel' : Nat} {r : Option LeId}
    (done : m.listApply list fwd ah fuel = some r) (more : fuel ≤ fuel') :
    m.listApply list fwd ah fuel' = some r := by
  unfold listApply at done ⊢
  split
  next fwd => exact applyLoop_mono (by simpa [fwd] using done) more
  next back => exact applyLoop_mono (by simpa [back] using done) more

theorem countLoop_seg {p : Option LeId} {l : List LeId} {fuel n : Nat}
    (seg : Seg (fun a => (m.le a).prev) (fun a => (m.le a).next) p l none)
    (enough : l.length ≤ fuel) (small : n < 2 ^ 32) :
    countLoop m fuel l.head? n = some ((n + l.length) % 2 ^ 32) := by
  induction l generalizing p fuel n with
  | nil =>
    rw [List.length_nil, Nat.add_zero, Nat.mod_eq_of_lt small]
    cases fuel <;> rfl
  | cons a l ih =>
    obtain ⟨-, (after : (m.le a).next = l.head?.or none), rest⟩ := seg
    cases fuel with
    | zero => simp at enough
    | succ fuel =>
      rw [List.head?_cons, countLoop, after, Option.or_none,
        ih rest (Nat.le_of_succ_le_succ enough) (Nat.mod_lt _ (by decide)), Nat.mod_add_mod,
        List.length_cons]
      congr 2
      omega

end Links

namespace Represents

/-- `list_apply` finds the first element, or the last one, that the handler accepts. -/
theorem listApply (rep : Represents m σ) {fwd : Bool} {ah : LeId → Bool} {fuel : Nat}
    (enough : (σ list).length ≤ fuel) :
    m.listApply list fwd ah fuel =
      some ((if fwd then σ list else (σ list).reverse).find? ah) := by
  have linked := rep.linked list
  unfold Links.listApply
  cases fwd with
  | true =>
    rw [if_pos rfl, if_pos rfl, linked.head_eq]
    exact Links.applyLoop_seg linked.seg enough
  | false =>
    rw [if_neg Bool.false_ne_true, if_neg Bool.false_ne_true, linked.tail_eq,
      ← List.head?_reverse]
    exact Links.applyLoop_seg linked.seg.reverse (by simpa using enough)

theorem listCount (rep : Represents m σ) {fuel : Nat} (enough : (σ list).length ≤ fuel) :
    m.listCount list fuel = some ((σ list).length % 2 ^ 32) := by
  have count := Links.countLoop_seg (rep.linked list).seg enough (by decide : 0 < 2 ^ 32)
  rw [Nat.zero_add] at count
  rw [Links.listCount, rep.head_eq, count]

theorem list_none_iff (rep : Represents m σ) :
    (m.le le).list = none ↔ ∀ list, le ∉ σ list := by
  constructor
  · exact rep.fresh
  · intro off
    cases on : (m.le le).list with
    | none => rfl
    | some list => exact absurd ((rep.owner le list).mp on) (off list)

/-- An element that is not free stands somewhere on its list. -/
theorem split (rep : Represents m σ) (linked : (m.le le).list = some list) :
    ∃ xs ys, σ list = xs ++ le :: ys :=
  List.append_of_mem ((rep.owner le list).mp linked)

/-- The memory of an element that is on no list may be zeroed. -/
theorem clear (rep : Represents m σ) (free : (m.le le).list = none) :
    Represents (m.setLe le fun _ => {}) σ := by
  have off : ∀ list, ∀ x ∈ σ list, x ≠ le := fun list x mem same =>
    rep.fresh free list (same ▸ mem)
  constructor
  · intro list
    exact (rep.linked list).frame (fun x mem => by simp [off list x mem])
      fun x mem => by simp [off list x mem]
  · intro x list
    by_cases self : x = le
    · subst self
      simpa using rep.fresh free list
    · simpa [self] using rep.owner x list

end Represents

/-! ## `list_sort` -/

variable [DecidableEq ι]

namespace Links

/-- More steps than a walk needs make no difference. -/
theorem sortWalk_mono {sh : LeId → LeId → Bool} {fuel fuel' : Nat} {m : Links ι} {le : LeId}
    {sort : Bool} {r : Links ι × Bool} (done : sortWalk sh list fuel m le sort = some r)
    (more : fuel ≤ fuel') : sortWalk sh list fuel' m le sort = some r := by
  induction fuel generalizing fuel' m le sort with
  | zero => cases done
  | succ fuel ih =>
    obtain ⟨fuel', rfl⟩ := Nat.exists_eq_succ_of_ne_zero (Nat.ne_zero_of_lt more)
    have more' := Nat.le_of_succ_le_succ more
    unfold sortWalk at done ⊢
    split
    next last => simpa [last] using done
    next tle after =>
      simp only [after] at done
      split
      next right => exact ih (by simpa [right] using done) more'
      next wrong => exact ih (by simpa [wrong] using done) more'

theorem listSort_mono {sh : LeId → LeId → Bool} {fuel fuel' walks walks' : Nat} {m m' : Links ι}
    (done : listSort sh list fuel walks m = some m') (more : fuel ≤ fuel')
    (moreWalks : walks ≤ walks') : listSort sh list fuel' walks' m = some m' := by
  induction walks generalizing walks' m with
  | zero => cases done
  | succ walks ih =>
    obtain ⟨walks', rfl⟩ := Nat.exists_eq_succ_of_ne_zero (Nat.ne_zero_of_lt moreWalks)
    unfold listSort at done ⊢
    cases head : (m.list list).head with
    | none => simpa [head] using done
    | some le =>
      simp only [head] at done ⊢
      cases walk : sortWalk sh list fuel m le false with
      | none => simp [walk] at done
      | some r =>
        obtain ⟨m₁, sort⟩ := r
        rw [sortWalk_mono walk more]
        cases sort with
        | false => simpa [walk] using done
        | true =>
          simp only [walk] at done ⊢
          exact ih done (Nat.le_of_succ_le_succ moreWalks)

end Links

namespace Represents

/-- An element that was taken off its list is on no list. -/
theorem free_unlinked (rep : Represents m σ) {xs ys : List LeId} (split : σ list = xs ++ le :: ys) :
    ((m.listUnlink le).le le).list = none := by
  rw [(rep.listUnlink split).list_none_iff]
  intro list'
  by_cases here : list' = list
  · subst here
    rw [Function.update_self]
    exact rep.once split
  · rw [Function.update_of_ne here]
    exact fun mem => here (rep.unique mem (by simp [split]))

/-- One exchange of `list_sort`. -/
theorem exchange (rep : Represents m σ) {tle : LeId} {front rest : List LeId}
    (split : σ list = front ++ le :: tle :: rest) :
    Represents ((m.listUnlink le).listInsertAfter list tle le (m.le le).data)
        (Function.update σ list (front ++ tle :: le :: rest)) ∧
      ∀ x, (((m.listUnlink le).listInsertAfter list tle le (m.le le).data).le x).data =
        (m.le x).data := by
  have unlinked := rep.listUnlink split
  have free := rep.free_unlinked split
  have here := Function.update_self list (front ++ tle :: rest) σ
  constructor
  · have inserted := unlinked.listInsertAfter here free (m.le le).data
    rwa [Function.update_idem] at inserted
  · intro x
    rw [unlinked.data_listInsertAfter here free, rep.data_listUnlink split]
    split
    next same => rw [same]
    · rfl

/-- A walk of `list_sort` is a walk of `sortPass`. -/
theorem sortWalk (sh : LeId → LeId → Bool) {front rest : List LeId} (rep : Represents m σ)
    (split : σ list = front ++ le :: rest) (sort : Bool) :
    ∃ m', (∀ fuel, rest.length < fuel →
        Links.sortWalk sh list fuel m le sort = some (m', sort || (sortPass sh le rest).2)) ∧
      Represents m' (Function.update σ list (front ++ (sortPass sh le rest).1)) ∧
      ∀ x, (m'.le x).data = (m.le x).data := by
  induction rest generalizing front m σ le sort with
  | nil =>
    refine ⟨m, fun fuel enough => ?_, ?_, fun _ => rfl⟩
    · obtain ⟨fuel, rfl⟩ := Nat.exists_eq_succ_of_ne_zero (Nat.ne_of_gt enough)
      have last : (m.le le).next = none := (rep.at_split split).2
      simp [Links.sortWalk, last, sortPass]
    · rw [sortPass, ← split, Function.update_eq_self]
      exact rep
  | cons next rest ih =>
    have after : (m.le le).next = some next := (rep.at_split split).2
    by_cases right : sh le next = true
    · have split' : σ list = front ++ [le] ++ next :: rest := by simpa using split
      obtain ⟨m', walk, rep', kept⟩ := ih rep split' sort
      refine ⟨m', fun fuel enough => ?_, ?_, kept⟩
      · obtain ⟨fuel, rfl⟩ := Nat.exists_eq_succ_of_ne_zero (Nat.ne_zero_of_lt enough)
        simpa [Links.sortWalk, after, sortPass, right] using walk fuel (Nat.lt_of_succ_lt_succ enough)
      · simpa [sortPass, right] using rep'
    · obtain ⟨moved, same⟩ := rep.exchange split
      have split' : Function.update σ list (front ++ next :: le :: rest) list =
          front ++ [next] ++ le :: rest := by simp
      obtain ⟨m', walk, rep', kept⟩ := ih moved split' true
      refine ⟨m', fun fuel enough => ?_, ?_, fun x => (kept x).trans (same x)⟩
      · obtain ⟨fuel, rfl⟩ := Nat.exists_eq_succ_of_ne_zero (Nat.ne_zero_of_lt enough)
        simpa [Links.sortWalk, after, sortPass, right] using walk fuel (Nat.lt_of_succ_lt_succ enough)
      · simpa [sortPass, right, Function.update_idem] using rep'

/-- `list_sort` ends with the list that `ListSorts` leaves. -/
theorem listSort_of_sorts {sh : LeId → LeId → Bool} {l l' : List LeId} (sorts : ListSorts sh l l')
    (rep : Represents m σ) (here : σ list = l) :
    ∃ n m', (∀ fuel walks, l.length ≤ fuel → n ≤ walks →
        Links.listSort sh list fuel walks m = some m') ∧
      Represents m' (Function.update σ list l') ∧ ∀ x, (m'.le x).data = (m.le x).data := by
  induction sorts generalizing m σ with
  | empty =>
    refine ⟨1, m, fun fuel walks _ enough => ?_, ?_, fun _ => rfl⟩
    · obtain ⟨walks, rfl⟩ := Nat.exists_eq_succ_of_ne_zero (Nat.ne_of_gt enough)
      have none : (m.list list).head = none := by rw [rep.head_eq, here]; rfl
      rw [Links.listSort, none]
    · rw [← here, Function.update_eq_self]
      exact rep
  | @done le rest l walk =>
    have head : (m.list list).head = some le := by rw [rep.head_eq, here]; rfl
    have here' : σ list = [] ++ le :: rest := here
    obtain ⟨m', walked, rep', kept⟩ := rep.sortWalk sh here' false
    rw [walk] at walked rep'
    refine ⟨1, m', fun fuel walks long enough => ?_, rep', kept⟩
    obtain ⟨walks, rfl⟩ := Nat.exists_eq_succ_of_ne_zero (Nat.ne_of_gt enough)
    simp [Links.listSort, head, walked fuel long]
  | @retry le rest l l' walk _ ih =>
    have head : (m.list list).head = some le := by rw [rep.head_eq, here]; rfl
    have here' : σ list = [] ++ le :: rest := here
    obtain ⟨m₁, walked, rep₁, kept₁⟩ := rep.sortWalk sh here' false
    rw [walk] at walked rep₁
    obtain ⟨n, m', sorted, rep', kept⟩ := ih rep₁ (Function.update_self ..)
    have length : l.length = (le :: rest).length := by
      have perm := sortPass_perm sh le rest
      rw [walk] at perm
      exact perm.length_eq
    refine ⟨n + 1, m', fun fuel walks long enough => ?_, by rwa [Function.update_idem] at rep',
      fun x => (kept x).trans (kept₁ x)⟩
    obtain ⟨walks, rfl⟩ := Nat.exists_eq_succ_of_ne_zero (Nat.ne_zero_of_lt enough)
    simp only [Links.listSort, head, walked fuel long, Bool.false_or]
    exact sorted fuel walks (length ▸ long) (Nat.le_of_succ_le_succ enough)

/-- `list_sort` ends; it leaves the stable sort of the list and its links in order. -/
theorem listSort {sh : LeId → LeId → Bool} {key : LeId → Nat} (rep : Represents m σ)
    (compares : Compares sh key (σ list)) :
    ∃ n m', (∀ fuel walks, (σ list).length ≤ fuel → n ≤ walks →
        Links.listSort sh list fuel walks m = some m') ∧
      Represents m' (Function.update σ list (stableSort key (σ list))) ∧
      ∀ x, (m'.le x).data = (m.le x).data := by
  have sorts := listSort_ends compares
  rw [sorts.eq_stableSort compares] at sorts
  exact rep.listSort_of_sorts sorts rfl

end Represents

/-! ## Runs -/

/-- The functions of `list.c` as the program may call them, with a sort handler that compares keys.
`clear` is an element whose memory is zeroed. -/
inductive LinkOp (ι : Type)
  | clear (le : LeId)
  | append (list : ι) (le : LeId) (data : Option Nat)
  | prepend (list : ι) (le : LeId) (data : Option Nat)
  | insertBefore (list : ι) (le ile : LeId) (data : Option Nat)
  | insertAfter (list : ι) (le ile : LeId) (data : Option Nat)
  | unlink (le : LeId)
  | sort (list : ι) (key : LeId → Nat)

/-- The comparison that a handler makes of two keys. -/
def byKey (key : LeId → Nat) (a b : LeId) : Bool := key a ≤ key b

/-- An element is zeroed only while it is on no list, and an element is put next to one that is on
the list. `list.c` leaves both to its callers, and `campaign_service_handler` zeroes the timer of a
campaign that may be linked. -/
inductive LinkStep : Links ι → LinkOp ι → Links ι → Prop
  | clear {m : Links ι} {le : LeId} : (m.le le).list = none →
      LinkStep m (.clear le) (m.setLe le fun _ => {})
  | append {m : Links ι} {list : ι} {le : LeId} {data : Option Nat} :
      LinkStep m (.append list le data) (m.listAppend list le data)
  | prepend {m : Links ι} {list : ι} {le : LeId} {data : Option Nat} :
      LinkStep m (.prepend list le data) (m.listPrepend list le data)
  | insertBefore {m : Links ι} {list : ι} {le ile : LeId} {data : Option Nat} :
      (m.le le).list = some list →
      LinkStep m (.insertBefore list le ile data) (m.listInsertBefore list le ile data)
  | insertAfter {m : Links ι} {list : ι} {le ile : LeId} {data : Option Nat} :
      (m.le le).list = some list →
      LinkStep m (.insertAfter list le ile data) (m.listInsertAfter list le ile data)
  | unlink {m : Links ι} {le : LeId} : LinkStep m (.unlink le) (m.listUnlink le)
  | sort {m m' : Links ι} {list : ι} {key : LeId → Nat} {fuel walks : Nat} :
      m.listSort (byKey key) list fuel walks = some m' → LinkStep m (.sort list key) m'

/-- The memory, zeroed when the program starts. -/
def links (ι : Type) [DecidableEq ι] : Lts (Links ι) (LinkOp ι) := ⟨fun m => m = {}, LinkStep⟩

/-- The abstract state: what is on each list, and the data of the elements. -/
structure Lists (ι : Type) where
  elems : ι → List LeId := fun _ => []
  data : LeId → Option Nat := fun _ => none

namespace Lists

/-- The element is on no list. -/
def Free (σ : Lists ι) (le : LeId) : Prop := ∀ list, le ∉ σ.elems list

/-- The list becomes `l`, with the new element `le` on it. -/
def put (σ : Lists ι) (list : ι) (l : List LeId) (le : LeId) (data : Option Nat) : Lists ι where
  elems := Function.update σ.elems list l
  data := Function.update σ.data le data

def edit (σ : Lists ι) (list : ι) (l : List LeId) : Lists ι :=
  { σ with elems := Function.update σ.elems list l }

end Lists

/-- The element that a function is to put on a list. -/
def LinkOp.inserted : LinkOp ι → Option LeId
  | .append _ le _ | .prepend _ le _ => some le
  | .insertBefore _ _ ile _ | .insertAfter _ _ ile _ => some ile
  | .clear _ | .unlink _ | .sort _ _ => none

/-- What the functions do to the abstract lists. -/
inductive ListsStep : Lists ι → LinkOp ι → Lists ι → Prop
  | clear {σ : Lists ι} {le : LeId} : σ.Free le →
      ListsStep σ (.clear le) { σ with data := Function.update σ.data le none }
  | append {σ : Lists ι} {list : ι} {le : LeId} {data : Option Nat} : σ.Free le →
      ListsStep σ (.append list le data) (σ.put list (σ.elems list ++ [le]) le data)
  | prepend {σ : Lists ι} {list : ι} {le : LeId} {data : Option Nat} : σ.Free le →
      ListsStep σ (.prepend list le data) (σ.put list (le :: σ.elems list) le data)
  | insertBefore {σ : Lists ι} {list : ι} {le ile : LeId} {data : Option Nat} {xs ys : List LeId} :
      σ.Free ile → σ.elems list = xs ++ le :: ys →
      ListsStep σ (.insertBefore list le ile data) (σ.put list (xs ++ ile :: le :: ys) ile data)
  | insertAfter {σ : Lists ι} {list : ι} {le ile : LeId} {data : Option Nat} {xs ys : List LeId} :
      σ.Free ile → σ.elems list = xs ++ le :: ys →
      ListsStep σ (.insertAfter list le ile data) (σ.put list (xs ++ le :: ile :: ys) ile data)
  /-- A function refuses an element that is on a list already. -/
  | refused {σ : Lists ι} {op : LinkOp ι} {le : LeId} :
      op.inserted = some le → ¬ σ.Free le → ListsStep σ op σ
  | unlink {σ : Lists ι} {list : ι} {le : LeId} {xs ys : List LeId} :
      σ.elems list = xs ++ le :: ys → ListsStep σ (.unlink le) (σ.edit list (xs ++ ys))
  | unlinked {σ : Lists ι} {le : LeId} : σ.Free le → ListsStep σ (.unlink le) σ
  | sort {σ : Lists ι} {list : ι} {key : LeId → Nat} :
      ListsStep σ (.sort list key) (σ.edit list (stableSort key (σ.elems list)))

/-- Abstract lists, empty to begin with. -/
def lists (ι : Type) [DecidableEq ι] : Lts (Lists ι) (LinkOp ι) := ⟨fun σ => σ = {}, ListsStep⟩

/-- The memory stores the abstract lists and the data of their elements. -/
structure Stores (m : Links ι) (A : Lists ι) : Prop where
  rep : Represents m A.elems
  data_eq : ∀ x, (m.le x).data = A.data x

namespace Stores

variable {A : Lists ι} {data : Option Nat} {l : List LeId}

omit [DecidableEq ι] in
theorem free_iff (stores : Stores m A) : (m.le le).list = none ↔ A.Free le :=
  stores.rep.list_none_iff

theorem put {m' : Links ι} (stores : Stores m A)
    (rep : Represents m' (Function.update A.elems list l))
    (written : ∀ x, (m'.le x).data = if x = le then data else (m.le x).data) :
    Stores m' (A.put list l le data) :=
  ⟨rep, fun x => by simp [written, stores.data_eq, Lists.put, Function.update_apply]⟩

theorem edit {m' : Links ι} (stores : Stores m A)
    (rep : Represents m' (Function.update A.elems list l))
    (kept : ∀ x, (m'.le x).data = (m.le x).data) : Stores m' (A.edit list l) :=
  ⟨rep, fun x => (kept x).trans (stores.data_eq x)⟩

/-- The abstract lists follow every step. -/
theorem step {m m' : Links ι} {op : LinkOp ι} (stores : Stores m A) (step : LinkStep m op m') :
    ∃ B, ListsStep A op B ∧ Stores m' B := by
  -- a function that finds its element on a list changes nothing
  have refused : ∀ {op : LinkOp ι} {le : LeId}, op.inserted = some le → (m.le le).list ≠ none →
      ListsStep A op A := fun inserted busy =>
    .refused inserted fun free => busy (stores.free_iff.mpr free)
  cases step with
  | @clear le free =>
    refine ⟨_, .clear (stores.free_iff.mp free), stores.rep.clear free, fun x => ?_⟩
    by_cases self : x = le
    · simp [self]
    · simp [self, stores.data_eq]
  | @append list le data =>
    by_cases free : (m.le le).list = none
    · exact ⟨_, .append (stores.free_iff.mp free),
        stores.put (stores.rep.listAppend list free data) (stores.rep.data_listAppend free)⟩
    · refine ⟨A, refused rfl free, ?_⟩
      rwa [Links.listAppend, if_pos (Option.isSome_iff_ne_none.mpr free)]
  | @prepend list le data =>
    by_cases free : (m.le le).list = none
    · exact ⟨_, .prepend (stores.free_iff.mp free),
        stores.put (stores.rep.listPrepend list free data) (stores.rep.data_listPrepend free)⟩
    · refine ⟨A, refused rfl free, ?_⟩
      rwa [Links.listPrepend, if_pos (Option.isSome_iff_ne_none.mpr free)]
  | @insertBefore list le ile data here =>
    by_cases free : (m.le ile).list = none
    · obtain ⟨xs, ys, split⟩ := stores.rep.split here
      exact ⟨_, .insertBefore (stores.free_iff.mp free) split, stores.put
        (stores.rep.listInsertBefore split free data) (stores.rep.data_listInsertBefore split free)⟩
    · refine ⟨A, refused rfl free, ?_⟩
      rwa [Links.listInsertBefore, if_pos (Option.isSome_iff_ne_none.mpr free)]
  | @insertAfter list le ile data here =>
    by_cases free : (m.le ile).list = none
    · obtain ⟨xs, ys, split⟩ := stores.rep.split here
      exact ⟨_, .insertAfter (stores.free_iff.mp free) split, stores.put
        (stores.rep.listInsertAfter split free data) (stores.rep.data_listInsertAfter split free)⟩
    · refine ⟨A, refused rfl free, ?_⟩
      rwa [Links.listInsertAfter, if_pos (Option.isSome_iff_ne_none.mpr free)]
  | @unlink le =>
    cases here : (m.le le).list with
    | none =>
      refine ⟨A, .unlinked (stores.free_iff.mp here), ?_⟩
      rwa [Links.listUnlink, here]
    | some list =>
      obtain ⟨xs, ys, split⟩ := stores.rep.split here
      exact ⟨_, .unlink split,
        stores.edit (stores.rep.listUnlink split) (stores.rep.data_listUnlink split)⟩
  | @sort _ list key fuel walks done =>
    have compares : Compares (byKey key) key (A.elems list) := fun a _ b _ => by simp [byKey]
    obtain ⟨n, m'', sorted, rep, kept⟩ := stores.rep.listSort compares
    -- with more steps the same result, and with enough of them the sorted list
    have same := sorted (max fuel (A.elems list).length) (max walks n) (Nat.le_max_right ..)
      (Nat.le_max_right ..)
    rw [Links.listSort_mono done (Nat.le_max_left ..) (Nat.le_max_left ..)] at same
    obtain rfl := Option.some.inj same
    exact ⟨_, .sort, stores.edit rep kept⟩

end Stores

theorem links_simulates : Lts.Simulates (links ι) (lists ι) id Stores where
  init := by
    rintro m rfl
    exact ⟨{}, rfl, represents_zeroed, fun _ => rfl⟩
  step := fun _ _ _ _ stores step => stores.step step

/-- Every run of the functions of `list.c` is a run on abstract lists, which the memory stores at
every moment: the two chains of pointers of a list visit its elements in their order and in the
reverse order, and an element names the list it is on. -/
theorem links_refine {h : List (Links ι × LinkOp ι)} (run : (links ι).Execution h m) :
    ∃ k A, (lists ι).Execution k A ∧ Stores m A ∧ Lts.Matched id Stores h k :=
  links_simulates.execution run

/-- Calls on two lists. The second list refuses 3, which is on the first one. -/
def linkCalls : List (LinkOp Bool) :=
  [.append true 3 (some 30), .append true 1 (some 10), .insertBefore true 1 2 (some 20),
    .insertAfter true 3 4 none, .append false 3 none, .prepend false 5 none, .unlink 4, .clear 4,
    .sort true id]

/-- The memory before the last of the calls. -/
def linked : Links Bool :=
  Links.listAppend {} true 3 (some 30) |>.listAppend true 1 (some 10)
    |>.listInsertBefore true 1 2 (some 20) |>.listInsertAfter true 3 4 none
    |>.listAppend false 3 none |>.listPrepend false 5 none |>.listUnlink 4
    |>.setLe 4 fun _ => {}

/-- The calls can be made, and the pointers of the first list lead from 1 over 2 to 3. -/
theorem linkCalls_run : ∃ h m, (links Bool).Execution h m ∧ h.map Prod.snd = linkCalls ∧
    (m.list true).head = some 1 ∧ (m.le 1).next = some 2 ∧ (m.le 2).next = some 3 ∧
    (m.le 3).next = none := by
  have run : (links Bool).Run {} _ linked :=
    (((((((Lts.Run.nil.snoc LinkStep.append).snoc LinkStep.append).snoc
      (LinkStep.insertBefore (by decide))).snoc (LinkStep.insertAfter (by decide))).snoc
      LinkStep.append).snoc LinkStep.prepend).snoc LinkStep.unlink).snoc
      (LinkStep.clear (by decide))
  have test : (linked.listSort (byKey id) true 3 3).any (fun m =>
      (m.list true).head == some 1 && (m.le 1).next == some 2 && (m.le 2).next == some 3 &&
        (m.le 3).next == none) = true := by decide
  obtain ⟨m, sorted, test⟩ := (Option.any_eq_true ..).mp test
  simp only [Bool.and_eq_true, beq_iff_eq] at test
  obtain ⟨⟨⟨head, one⟩, two⟩, three⟩ := test
  exact ⟨_, m, ⟨{}, rfl, run.snoc (LinkStep.sort sorted)⟩, rfl, head, one, two, three⟩

omit [DecidableEq ι] in
/-- The list that such pointers store. -/
theorem Stores.elems_three {A : Lists ι} {a b c : LeId} (stores : Stores m A)
    (head : (m.list list).head = some a) (one : (m.le a).next = some b)
    (two : (m.le b).next = some c) (three : (m.le c).next = none) : A.elems list = [a, b, c] := by
  obtain ⟨l, eq, first, seg⟩ :=
    (stores.rep.linked list).seg.uncons ((stores.rep.head_eq list).symm.trans head)
  obtain ⟨k, rfl, second, seg⟩ := seg.uncons (first.trans one)
  obtain ⟨rest, rfl, third, -⟩ := seg.uncons (second.trans two)
  rw [eq, List.head?_eq_none_iff.mp (third.trans three)]

theorem links_refine_run : ∃ h m, (links Bool).Execution h m ∧ h.map Prod.snd = linkCalls ∧
    ∃ k A, (lists Bool).Execution k A ∧ Stores m A ∧ Lts.Matched id Stores h k ∧
      A.elems true = [1, 2, 3] := by
  obtain ⟨h, m, run, calls, head, one, two, three⟩ := linkCalls_run
  obtain ⟨k, A, runA, stores, matched⟩ := links_refine run
  exact ⟨h, m, run, calls, k, A, runA, stores, matched, stores.elems_three head one two three⟩

/-- In every reachable memory each loop over a list ends: `list_apply` finds the first element that
the handler accepts, seen from the head or from the tail, `list_count` counts the elements, and
`list_sort` leaves the list stably sorted, every other list and all data as they were. -/
theorem links_loops (reach : (links ι).Reachable m) :
    ∃ A : Lists ι, Stores m A ∧
      (∀ list fwd ah fuel, (A.elems list).length ≤ fuel → m.listApply list fwd ah fuel =
        some ((if fwd then A.elems list else (A.elems list).reverse).find? ah)) ∧
      (∀ list fuel, (A.elems list).length ≤ fuel →
        m.listCount list fuel = some ((A.elems list).length % 2 ^ 32)) ∧
      ∀ list sh key, Compares sh key (A.elems list) →
        ∃ n m', (∀ fuel walks, (A.elems list).length ≤ fuel → n ≤ walks →
            m.listSort sh list fuel walks = some m') ∧
          Stores m' (A.edit list (stableSort key (A.elems list))) := by
  obtain ⟨A, _, stores⟩ := links_simulates.reachable reach
  refine ⟨A, stores, fun list fwd ah fuel => stores.rep.listApply,
    fun list fuel => stores.rep.listCount, fun list sh key compares => ?_⟩
  obtain ⟨n, m', sorted, rep, kept⟩ := stores.rep.listSort compares
  exact ⟨n, m', sorted, stores.edit rep kept⟩

/-- In the list 1, 2, 3 the loops find the first odd element from either end, count three elements,
and the list is sorted the other way round. -/
theorem links_loops_run : ∃ h m, (links Bool).Execution h m ∧ h.map Prod.snd = linkCalls ∧
    m.listApply true true (· % 2 == 1) 3 = some (some 1) ∧
    m.listApply true false (· % 2 == 1) 3 = some (some 3) ∧ m.listCount true 3 = some 3 ∧
    ∃ A walks m', Stores m A ∧ m.listSort (byKey (10 - ·)) true 3 walks = some m' ∧
      Stores m' (A.edit true [3, 2, 1]) := by
  obtain ⟨h, m, run, calls, head, one, two, three⟩ := linkCalls_run
  obtain ⟨A, stores, applies, counts, sorts⟩ := links_loops run.reachable
  have elems := stores.elems_three head one two three
  have long : (A.elems true).length ≤ 3 := by rw [elems]; decide
  have compares : Compares (byKey (10 - ·)) (10 - ·) (A.elems true) :=
    fun a _ b _ => by simp [byKey]
  obtain ⟨n, m', sorted, stores'⟩ := sorts true _ _ compares
  have forward := applies true true (· % 2 == 1) 3 long
  have backward := applies true false (· % 2 == 1) 3 long
  have count := counts true 3 long
  rw [elems] at forward backward count stores'
  exact ⟨h, m, run, calls, forward, backward, count, A, n, m', stores, sorted 3 n long (Nat.le_refl n),
    stores'⟩

end Autodialer
