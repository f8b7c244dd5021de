import Autodialer.Types

/-!
# Destinations on the lists of their campaigns

The part of the state that `main.c` keeps about contacts: the destinations, the
campaigns, and the two lists `destinations` and `processl` of each campaign.
A `struct list` is the list of the elements linked on it; `le.list` of an
element, the list it is linked on, is the field `le` of its destination.
-/

namespace Autodialer

structure Book where
  dests : Heap Destination := Heap.empty
  camps : Heap Campaign := Heap.empty

def Book.setDest (b : Book) (d : DestId) (f : Destination → Destination) : Book :=
  { b with dests := b.dests.modify d f }

def Book.setCamp (b : Book) (cp : CampId) (f : Campaign → Campaign) : Book :=
  { b with camps := b.camps.modify cp f }

/-- The campaign whose list it is. -/
def Ring.cp : Ring → CampId
  | .destinations cp | .processl cp => cp

/-- The elements of a list of the campaign. -/
def Campaign.elems (camp : Campaign) : Ring → List DestId
  | .destinations _ => camp.destinations
  | .processl _ => camp.processl

def Campaign.edit (camp : Campaign) (r : Ring) (f : List DestId → List DestId) : Campaign :=
  match r with
  | .destinations _ => { camp with destinations := f camp.destinations }
  | .processl _ => { camp with processl := f camp.processl }

/-- `dest->le.list` -/
def Book.linkedOn (b : Book) (d : DestId) : Option Ring := (b.dests.get d).bind Destination.le

/-- `list_append`, which does nothing with an element that is on a list already. -/
def listAppend (b : Book) (r : Ring) (d : DestId) : Book :=
  match b.linkedOn d with
  | some _ => b
  | none =>
    (b.setDest d fun dest => { dest with le := some r }).setCamp r.cp fun camp =>
      camp.edit r (· ++ [d])

/-- `list_unlink`, which does nothing with an element that is on no list. -/
def listUnlink (b : Book) (d : DestId) : Book :=
  match b.linkedOn d with
  | none => b
  | some r =>
    (b.setDest d fun dest => { dest with le := none }).setCamp r.cp fun camp =>
      camp.edit r (·.erase d)

/-! ## `list_sort` -/

/-- One walk of `list_sort` from `le` on: an element is moved behind its
successor as long as the handler says that the two are not sorted. -/
def sortPass {α : Type} (sh : α → α → Bool) (le : α) : List α → List α × Bool
  | [] => ([le], false)
  | next :: rest =>
    if sh le next then
      let walk := sortPass sh next rest
      (le :: walk.1, walk.2)
    else (next :: (sortPass sh le rest).1, true)

/-- `list_sort` walks again (`goto retry`) as long as a walk has moved something,
here at most `fuel` times. -/
def listSort {α : Type} (sh : α → α → Bool) : Nat → List α → List α
  | 0, l => l
  | _ + 1, [] => []
  | fuel + 1, le :: rest =>
    let walk := sortPass sh le rest
    if walk.2 then listSort sh fuel walk.1 else walk.1

theorem sortPass_perm {α : Type} (sh : α → α → Bool) (le : α) (rest : List α) :
    (sortPass sh le rest).1.Perm (le :: rest) := by
  induction rest generalizing le with
  | nil => exact List.Perm.refl _
  | cons next rest ih =>
    unfold sortPass
    split
    · exact (ih next).cons le
    · exact ((ih le).cons next).trans (List.Perm.swap le next rest)

/-- However long it runs, `list_sort` only permutes the list. -/
theorem listSort_perm {α : Type} (sh : α → α → Bool) (fuel : Nat) (l : List α) :
    (listSort sh fuel l).Perm l := by
  induction fuel generalizing l with
  | zero => exact List.Perm.refl _
  | succ fuel ih =>
    cases l with
    | nil => exact List.Perm.refl _
    | cons le rest =>
      simp only [listSort]
      split
      · exact (ih _).trans (sortPass_perm sh le rest)
      · exact sortPass_perm sh le rest

/-- `destination_sort_handler` -/
def destinationSortHandler (b : Book) (d₁ d₂ : DestId) : Bool :=
  match b.dests.get d₁, b.dests.get d₂ with
  | some dest₁, some dest₂ => !(dest₂.tryCount < dest₁.tryCount)
  | _, _ => true

/-! ## Lemmas about the operations -/

namespace Book

variable {b : Book} {d e : DestId} {cp : CampId} {r : Ring} {dest : Destination} {camp : Campaign}

@[simp] theorem dests_setDest (f : Destination → Destination) :
    (b.setDest d f).dests = b.dests.modify d f := rfl

@[simp] theorem camps_setDest (f : Destination → Destination) : (b.setDest d f).camps = b.camps := rfl

@[simp] theorem dests_setCamp (f : Campaign → Campaign) : (b.setCamp cp f).dests = b.dests := rfl

@[simp] theorem camps_setCamp (f : Campaign → Campaign) :
    (b.setCamp cp f).camps = b.camps.modify cp f := rfl

/-- The destination changes its list. -/
def moveTo (b : Book) (d : DestId) (r : Ring) : Book := listAppend (listUnlink b d) r d

/-- The destination leaves its list and is freed. -/
def remove (b : Book) (d : DestId) : Book :=
  { listUnlink b d with dests := (listUnlink b d).dests.free d }

theorem elems_edit (f : List DestId → List DestId) {r' : Ring} (same : r.cp = r'.cp) :
    (camp.edit r f).elems r' = if r' = r then f (camp.elems r) else camp.elems r' := by
  cases r <;> cases r' <;> simp_all [Campaign.edit, Campaign.elems, Ring.cp]

theorem linkedOn_eq (live : b.dests.get d = some dest) : b.linkedOn d = dest.le := by
  simp [linkedOn, live]

theorem listUnlink_eq (live : b.dests.get d = some dest) (on : dest.le = some r) :
    listUnlink b d =
      (b.setDest d fun dest => { dest with le := none }).setCamp r.cp fun camp =>
        camp.edit r (·.erase d) := by
  rw [listUnlink, linkedOn_eq live, on]

theorem moveTo_eq {r' : Ring} (live : b.dests.get d = some dest) (on : dest.le = some r) :
    b.moveTo d r' =
      ((listUnlink b d).setDest d fun dest => { dest with le := some r' }).setCamp r'.cp fun camp =>
        camp.edit r' (· ++ [d]) := by
  have free : (listUnlink b d).linkedOn d = none := by
    simp [listUnlink_eq live on, linkedOn, live]
  rw [moveTo, listAppend, free]

/-- A move touches the `le` of one destination. -/
theorem moveTo_dests {r' : Ring} (live : b.dests.get d = some dest) (on : dest.le = some r)
    (e : DestId) :
    (b.moveTo d r').dests.get e =
      if e = d then some { dest with le := some r' } else b.dests.get e := by
  rw [moveTo_eq live on, listUnlink_eq live on]
  by_cases same : e = d
  · simp [same, live]
  · simp [Heap.get_modify, same]

theorem moveTo_dests_ne (ne : e ≠ d) : (b.moveTo d r).dests.get e = b.dests.get e := by
  have unlinked : (listUnlink b d).dests.get e = b.dests.get e := by
    unfold listUnlink
    cases b.linkedOn d with
    | none => rfl
    | some r => exact Heap.get_modify_ne ne
  rw [← unlinked]
  unfold moveTo listAppend
  cases (listUnlink b d).linkedOn d with
  | none => exact Heap.get_modify_ne ne
  | some r => rfl

/-- A destination is written to and moved. -/
theorem setDest_moveTo_dests {f : Destination → Destination}
    (live : b.dests.get d = some dest) (on : (f dest).le = some r) (r' : Ring) (e : DestId) :
    ((b.setDest d f).moveTo d r').dests.get e =
      if e = d then some { f dest with le := some r' } else b.dests.get e := by
  have written : (b.setDest d f).dests.get d = some (f dest) := by simp [live]
  rw [moveTo_dests written on]
  split
  · rfl
  next ne => exact Heap.get_modify_ne ne

/-- A move within a campaign touches the two lists of that campaign. -/
theorem moveTo_camps {r' : Ring} (live : b.dests.get d = some dest) (on : dest.le = some r)
    (within : r'.cp = r.cp) (cp : CampId) :
    (b.moveTo d r').camps.get cp =
      if cp = r.cp then
        (b.camps.get cp).map fun camp => (camp.edit r (·.erase d)).edit r' (· ++ [d])
      else b.camps.get cp := by
  rw [moveTo_eq live on, listUnlink_eq live on]
  by_cases same : cp = r.cp
  · simp [same, within, Function.comp_def]
  · simp [Heap.get_modify, same, within]

theorem remove_dests (e : DestId) :
    (b.remove d).dests.get e = if e = d then none else b.dests.get e := by
  have others : e ≠ d → (listUnlink b d).dests.get e = b.dests.get e := by
    intro ne
    unfold listUnlink
    split
    · rfl
    · simp [Heap.get_modify, ne]
  by_cases same : e = d
  · simp [remove, same]
  · simp [remove, Heap.get_free, same, others]

/-- A write that keeps the link makes no difference to a removal. -/
theorem remove_setDest {f : Destination → Destination} (same : ∀ dest, (f dest).le = dest.le) :
    (b.setDest d f).remove d = b.remove d := by
  have linked : (b.setDest d f).linkedOn d = b.linkedOn d := by
    rw [linkedOn, linkedOn, dests_setDest, Heap.get_modify_self]
    cases b.dests.get d with
    | none => rfl
    | some dest => exact same dest
  unfold remove listUnlink
  rw [linked]
  cases b.linkedOn d with
  | none => simp only [setDest, Heap.free_modify]
  | some r => simp only [setDest, setCamp, Heap.modify_modify, Heap.free_modify]

theorem remove_camps (live : b.dests.get d = some dest) (on : dest.le = some r) (cp : CampId) :
    (b.remove d).camps.get cp =
      if cp = r.cp then (b.camps.get cp).map fun camp => camp.edit r (·.erase d)
      else b.camps.get cp := by
  simp [remove, listUnlink_eq live on, Heap.get_modify]

end Book

/-! ## Rearranging the lists -/

/-- `b'` differs from `b` in what is on which list, and in nothing else. -/
structure Rearranged (b b' : Book) : Prop where
  dests : ∀ d, ∃ le, b'.dests.get d = (b.dests.get d).map fun dest => { dest with le := le }
  camps : ∀ cp, ∃ ds ps, b'.camps.get cp =
    (b.camps.get cp).map fun camp => { camp with destinations := ds, processl := ps }
  nextDest : b'.dests.next = b.dests.next
  nextCamp : b'.camps.next = b.camps.next

namespace Rearranged

variable {b b' b'' : Book} {d : DestId} {cp : CampId} {dest : Destination} {camp : Campaign}

@[refl] theorem refl (b : Book) : Rearranged b b where
  dests d := by
    cases live : b.dests.get d with
    | none => exact ⟨none, rfl⟩
    | some dest => exact ⟨dest.le, rfl⟩
  camps cp := by
    cases live : b.camps.get cp with
    | none => exact ⟨[], [], rfl⟩
    | some camp => exact ⟨camp.destinations, camp.processl, rfl⟩
  nextDest := rfl
  nextCamp := rfl

theorem trans (first : Rearranged b b') (second : Rearranged b' b'') : Rearranged b b'' where
  dests d := by
    obtain ⟨le, eq⟩ := first.dests d
    obtain ⟨le', eq'⟩ := second.dests d
    exact ⟨le', by rw [eq', eq, Option.map_map]; rfl⟩
  camps cp := by
    obtain ⟨ds, ps, eq⟩ := first.camps cp
    obtain ⟨ds', ps', eq'⟩ := second.camps cp
    exact ⟨ds', ps', by rw [eq', eq, Option.map_map]; rfl⟩
  nextDest := second.nextDest.trans first.nextDest
  nextCamp := second.nextCamp.trans first.nextCamp

/-- A write to the link of a destination. -/
theorem setLe (b : Book) (d : DestId) (le : Option Ring) :
    Rearranged b (b.setDest d fun dest => { dest with le := le }) where
  dests e := by
    by_cases same : e = d
    · exact ⟨le, by simp [same]⟩
    · simpa [Heap.get_modify, same] using (refl b).dests e
  camps cp := (refl b).camps cp
  nextDest := rfl
  nextCamp := rfl

/-- A write to a list of a campaign. -/
theorem edit (b : Book) (r : Ring) (f : List DestId → List DestId) :
    Rearranged b (b.setCamp r.cp fun camp => camp.edit r f) where
  dests d := (refl b).dests d
  camps cp := by
    by_cases same : cp = r.cp
    · subst same
      cases live : b.camps.get r.cp with
      | none => exact ⟨[], [], by simp [live]⟩
      | some camp =>
        cases r with
        | destinations cp => exact ⟨f camp.destinations, camp.processl, by simp_all [Campaign.edit]⟩
        | processl cp => exact ⟨camp.destinations, f camp.processl, by simp_all [Campaign.edit]⟩
    · simpa [Heap.get_modify, same] using (refl b).camps cp
  nextDest := rfl
  nextCamp := rfl

theorem append (b : Book) (r : Ring) (d : DestId) : Rearranged b (listAppend b r d) := by
  unfold listAppend
  split
  · exact refl b
  · exact (setLe b d (some r)).trans (edit _ r _)

theorem unlink (b : Book) (d : DestId) : Rearranged b (listUnlink b d) := by
  unfold listUnlink
  split
  · exact refl b
  next r _ => exact (setLe b d none).trans (edit _ r _)

theorem moveTo (b : Book) (d : DestId) (r : Ring) : Rearranged b (b.moveTo d r) :=
  (unlink b d).trans (append _ r d)

theorem order (b : Book) (cp : CampId) (ds : List DestId) :
    Rearranged b (b.setCamp cp fun camp => { camp with destinations := ds }) :=
  edit b (.destinations cp) fun _ => ds

/-- A destination keeps everything but its link. -/
theorem dest_of (change : Rearranged b b') (live : b.dests.get d = some dest) :
    ∃ le, b'.dests.get d = some { dest with le := le } := by
  obtain ⟨le, eq⟩ := change.dests d
  exact ⟨le, by rw [eq, live]; rfl⟩

theorem of_dest (change : Rearranged b b') (live : b'.dests.get d = some dest) :
    ∃ old le, b.dests.get d = some old ∧ dest = { old with le := le } := by
  obtain ⟨le, eq⟩ := change.dests d
  rw [live] at eq
  obtain ⟨old, liveOld, same⟩ := Option.map_eq_some_iff.mp eq.symm
  exact ⟨old, le, liveOld, same.symm⟩

theorem camp_of (change : Rearranged b b') (live : b.camps.get cp = some camp) :
    ∃ ds ps, b'.camps.get cp = some { camp with destinations := ds, processl := ps } := by
  obtain ⟨ds, ps, eq⟩ := change.camps cp
  exact ⟨ds, ps, by rw [eq, live]; rfl⟩

theorem of_camp (change : Rearranged b b') (live : b'.camps.get cp = some camp) :
    ∃ old ds ps, b.camps.get cp = some old ∧
      camp = { old with destinations := ds, processl := ps } := by
  obtain ⟨ds, ps, eq⟩ := change.camps cp
  rw [live] at eq
  obtain ⟨old, liveOld, same⟩ := Option.map_eq_some_iff.mp eq.symm
  exact ⟨old, ds, ps, liveOld, same.symm⟩

end Rearranged

end Autodialer
