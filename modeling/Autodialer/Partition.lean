import Autodialer.Book

/-!
# Every destination is on one list of its campaign

`Partition` is the invariant of the two lists of the campaigns, `Supervised` the
one of the call pointer and the timer of a destination. Each operation of the
book has one lemma here that says that it keeps them; the handlers of the main
loop and the passes of the database thread are made of these operations.
-/

namespace Autodialer

/-- The lists of the campaigns divide the destinations. -/
structure Partition (b : Book) : Prop where
  /-- A live destination is linked on a list of its campaign. -/
  linked : ∀ d dest, b.dests.get d = some dest → ∃ r camp, dest.le = some r ∧ r.cp = dest.cp ∧
    b.camps.get dest.cp = some camp ∧ d ∈ camp.elems r
  /-- An element of a list is a live destination that is linked there. -/
  member : ∀ cp camp r d, b.camps.get cp = some camp → r.cp = cp → d ∈ camp.elems r →
    ∃ dest, b.dests.get d = some dest ∧ dest.cp = cp ∧ dest.le = some r
  nodup : ∀ cp camp r, b.camps.get cp = some camp → r.cp = cp → (camp.elems r).Nodup

/-- A destination has a call exactly while its timer is armed, and it has none on
the list of destinations. -/
structure Supervised (dest : Destination) : Prop where
  armed : dest.call.isSome = dest.tmr
  waiting : dest.le = some (.destinations dest.cp) → dest.call = none

/-- Every live destination is supervised. -/
def AllSupervised (b : Book) : Prop := ∀ d dest, b.dests.get d = some dest → Supervised dest

variable {b : Book} {d : DestId} {cp : CampId} {r : Ring} {dest : Destination} {camp : Campaign}

namespace Partition

theorem empty : Partition {} where
  linked _ _ live := by cases live
  member _ _ _ _ live := by cases live
  nodup _ _ _ live := by cases live

/-- The list of a destination that is on the process list of its campaign. -/
theorem on_processl (inv : Partition b) (live : b.camps.get cp = some camp)
    (mem : d ∈ camp.processl) :
    ∃ dest, b.dests.get d = some dest ∧ dest.cp = cp ∧ dest.le = some (.processl cp) :=
  inv.member cp camp (.processl cp) d live rfl mem

theorem on_destinations (inv : Partition b) (live : b.camps.get cp = some camp)
    (mem : d ∈ camp.destinations) :
    ∃ dest, b.dests.get d = some dest ∧ dest.cp = cp ∧ dest.le = some (.destinations cp) :=
  inv.member cp camp (.destinations cp) d live rfl mem

/-- A write that keeps the campaign and the link of a destination. -/
theorem setDest (inv : Partition b) {f : Destination → Destination}
    (same : ∀ dest, b.dests.get d = some dest → (f dest).cp = dest.cp ∧ (f dest).le = dest.le) :
    Partition (b.setDest d f) where
  linked e new live := by
    rw [Book.dests_setDest, Heap.get_modify] at live
    split at live
    next here =>
      subst here
      obtain ⟨dest, old, rfl⟩ := Option.map_eq_some_iff.mp live
      rw [(same dest old).1, (same dest old).2]
      exact inv.linked e dest old
    next => exact inv.linked e new live
  member cp camp r e live isCp mem := by
    obtain ⟨dest, old, onCp, onRing⟩ := inv.member cp camp r e live isCp mem
    by_cases here : e = d
    · subst here
      exact ⟨f dest, by simp [old], (same dest old).1.trans onCp, (same dest old).2.trans onRing⟩
    · exact ⟨dest, by simp [Heap.get_modify, here, old], onCp, onRing⟩
  nodup cp camp r live isCp := inv.nodup cp camp r live isCp

/-- A write that permutes the lists of a campaign. -/
theorem setCamp (inv : Partition b) {f : Campaign → Campaign}
    (same : ∀ camp r, b.camps.get cp = some camp → ((f camp).elems r).Perm (camp.elems r)) :
    Partition (b.setCamp cp f) where
  linked e dest live := by
    obtain ⟨r, camp, onRing, isCp, liveCamp, mem⟩ := inv.linked e dest live
    by_cases here : dest.cp = cp
    · subst here
      exact ⟨r, f camp, onRing, isCp, by simp [liveCamp],
        (same camp r liveCamp).mem_iff.mpr mem⟩
    · exact ⟨r, camp, onRing, isCp, by simp [Heap.get_modify, here, liveCamp], mem⟩
  member cp' camp' r e live isCp mem := by
    rw [Book.camps_setCamp, Heap.get_modify] at live
    split at live
    next here =>
      subst here
      obtain ⟨camp, old, rfl⟩ := Option.map_eq_some_iff.mp live
      exact inv.member cp' camp r e old isCp ((same camp r old).mem_iff.mp mem)
    next => exact inv.member cp' camp' r e live isCp mem
  nodup cp' camp' r live isCp := by
    rw [Book.camps_setCamp, Heap.get_modify] at live
    split at live
    next here =>
      subst here
      obtain ⟨camp, old, rfl⟩ := Option.map_eq_some_iff.mp live
      exact (same camp r old).nodup_iff.mpr (inv.nodup cp' camp r old isCp)
    next => exact inv.nodup cp' camp' r live isCp

/-- A move of a live destination to a list of its campaign. -/
theorem moveTo (inv : Partition b) (live : b.dests.get d = some dest) (within : r.cp = dest.cp) :
    Partition (b.moveTo d r) := by
  obtain ⟨r₀, camp₀, on, isCp, liveCamp, mem₀⟩ := inv.linked d dest live
  have dests : ∀ e, (b.moveTo d r).dests.get e = _ := Book.moveTo_dests live on
  have camps := Book.moveTo_camps live on (within.trans isCp.symm)
  -- the elements of a list of the campaign after the move
  have elems : ∀ r', r'.cp = dest.cp → ∀ camp : Campaign,
      ((camp.edit r₀ (·.erase d)).edit r (· ++ [d])).elems r' =
        (if r' = r₀ then (camp.elems r').erase d else camp.elems r') ++
          if r' = r then [d] else [] := by
    intro r' isCp' camp
    rw [Book.elems_edit _ (within.trans isCp'.symm), Book.elems_edit _ (isCp.trans within.symm),
      Book.elems_edit _ (isCp.trans isCp'.symm)]
    by_cases h : r' = r <;> by_cases h' : r' = r₀
    · subst h
      subst h'
      simp
    · subst h
      simp [h']
    · subst h'
      simp [h]
    · simp [h, h']
  have member : ∀ r' e, r'.cp = dest.cp → e ≠ d → ∀ camp : Campaign,
      (e ∈ ((camp.edit r₀ (·.erase d)).edit r (· ++ [d])).elems r' ↔ e ∈ camp.elems r') := by
    intro r' e isCp' ne camp
    rw [elems r' isCp' camp]
    split <;> split <;> simp [ne, List.mem_erase_of_ne ne]
  have here : b.camps.get dest.cp = some camp₀ → (b.moveTo d r).camps.get dest.cp =
      some ((camp₀.edit r₀ (·.erase d)).edit r (· ++ [d])) := by
    intro liveCamp
    rw [camps, if_pos isCp.symm, liveCamp]
    rfl
  refine ⟨?_, ?_, ?_⟩
  · intro e new liveNew
    rw [dests] at liveNew
    split at liveNew
    next same =>
      subst same
      cases liveNew
      refine ⟨r, _, rfl, within, here liveCamp, ?_⟩
      rw [elems r within]
      simp
    next ne =>
      obtain ⟨r', camp', onRing, isCp', liveCamp', mem⟩ := inv.linked e new liveNew
      by_cases same : new.cp = dest.cp
      · rw [same] at liveCamp' isCp'
        obtain rfl : camp₀ = camp' := Option.some.inj (liveCamp.symm.trans liveCamp')
        exact ⟨r', _, onRing, isCp'.trans same.symm, same ▸ here liveCamp,
          (member r' e isCp' ne camp₀).mpr mem⟩
      · refine ⟨r', camp', onRing, isCp', ?_, mem⟩
        rw [camps, if_neg (by rwa [isCp]), liveCamp']
  · intro cp camp r' e liveNew isCp' mem
    rw [camps] at liveNew
    split at liveNew
    next same =>
      obtain rfl : cp = dest.cp := same.trans isCp
      rw [liveCamp] at liveNew
      cases liveNew
      by_cases ne : e = d
      · subst ne
        refine ⟨{ dest with le := some r }, by rw [dests, if_pos rfl], rfl, ?_⟩
        -- the moved destination is left on no other list
        rw [elems r' isCp'] at mem
        by_cases last : r' = r
        · rw [last]
        · exfalso
          by_cases first : r' = r₀
          · subst first
            have := inv.nodup _ camp₀ r' liveCamp isCp
            simp [last, this.mem_erase_iff] at mem
          · obtain ⟨old, liveOld, -, onOld⟩ := inv.member _ camp₀ r' e liveCamp isCp'
              (by simpa [last, first] using mem)
            obtain rfl : dest = old := Option.some.inj (live.symm.trans liveOld)
            rw [on] at onOld
            exact first (Option.some.inj onOld).symm
      · obtain ⟨old, liveOld, onCp, onRing⟩ := inv.member _ camp₀ r' e liveCamp isCp'
          ((member r' e isCp' ne camp₀).mp mem)
        exact ⟨old, by rw [dests, if_neg ne, liveOld], onCp, onRing⟩
    next other =>
      obtain ⟨old, liveOld, onCp, onRing⟩ := inv.member cp camp r' e liveNew isCp' mem
      refine ⟨old, ?_, onCp, onRing⟩
      rw [dests, if_neg ?_, liveOld]
      rintro rfl
      obtain rfl : dest = old := Option.some.inj (live.symm.trans liveOld)
      exact other (onCp.symm.trans isCp.symm)
  · intro cp camp r' liveNew isCp'
    rw [camps] at liveNew
    split at liveNew
    next same =>
      obtain rfl : cp = dest.cp := same.trans isCp
      rw [liveCamp] at liveNew
      cases liveNew
      have distinct := inv.nodup _ camp₀ r' liveCamp isCp'
      rw [elems r' isCp']
      have absent : r' = r → d ∉ if r' = r₀ then (camp₀.elems r').erase d else camp₀.elems r' := by
        intro _ mem
        by_cases first : r' = r₀
        · simp [first, (first ▸ distinct : (camp₀.elems r₀).Nodup).mem_erase_iff] at mem
        · obtain ⟨old, liveOld, -, onOld⟩ := inv.member _ camp₀ r' d liveCamp isCp'
            (by simpa [first] using mem)
          obtain rfl : dest = old := Option.some.inj (live.symm.trans liveOld)
          rw [on] at onOld
          exact first (Option.some.inj onOld).symm
      have base : (if r' = r₀ then (camp₀.elems r').erase d else camp₀.elems r').Nodup := by
        split
        · exact distinct.erase d
        · exact distinct
      by_cases last : r' = r
      · rw [if_pos last]
        exact List.nodup_append.mpr ⟨base, by simp, fun a mem c isD eq => absent last <| by
          obtain rfl : c = d := by simpa using isD
          exact eq ▸ mem⟩
      · simpa [last] using base
    next => exact inv.nodup cp camp r' liveNew isCp'

/-- A live destination is taken off its list and freed. -/
theorem remove (inv : Partition b) (live : b.dests.get d = some dest) : Partition (b.remove d) := by
  obtain ⟨r₀, camp₀, on, isCp, liveCamp, mem₀⟩ := inv.linked d dest live
  have camps := Book.remove_camps live on
  -- in the lists of its campaign `d` is missing, and nothing else
  have elems : ∀ r', r'.cp = dest.cp → ∀ camp : Campaign,
      (camp.edit r₀ (·.erase d)).elems r' =
        if r' = r₀ then (camp.elems r').erase d else camp.elems r' := by
    intro r' isCp' camp
    rw [Book.elems_edit _ (isCp.trans isCp'.symm)]
    by_cases h : r' = r₀ <;> simp [h]
  have member : ∀ r' e, r'.cp = dest.cp → e ≠ d → ∀ camp : Campaign,
      (e ∈ (camp.edit r₀ (·.erase d)).elems r' ↔ e ∈ camp.elems r') := by
    intro r' e isCp' ne camp
    rw [elems r' isCp' camp]
    by_cases h : r' = r₀ <;> simp [h, ne, List.mem_erase_of_ne]
  refine ⟨?_, ?_, ?_⟩
  · intro e new liveNew
    rw [Book.remove_dests] at liveNew
    split at liveNew
    · cases liveNew
    next ne =>
      obtain ⟨r', camp', onRing, isCp', liveCamp', mem⟩ := inv.linked e new liveNew
      by_cases same : new.cp = dest.cp
      · rw [same] at liveCamp' isCp'
        obtain rfl : camp₀ = camp' := Option.some.inj (liveCamp.symm.trans liveCamp')
        refine ⟨r', _, onRing, isCp'.trans same.symm, ?_, (member r' e isCp' ne camp₀).mpr mem⟩
        rw [camps, if_pos (same.trans isCp.symm), same, liveCamp]
        rfl
      · refine ⟨r', camp', onRing, isCp', ?_, mem⟩
        rw [camps, if_neg (by rwa [isCp]), liveCamp']
  · intro cp camp r' e liveNew isCp' mem
    rw [camps] at liveNew
    split at liveNew
    next same =>
      obtain rfl : cp = dest.cp := same.trans isCp
      rw [liveCamp] at liveNew
      cases liveNew
      by_cases ne : e = d
      · subst ne
        exfalso
        rw [elems r' isCp'] at mem
        -- `d` was on one list only, and there only once
        by_cases first : r' = r₀
        · have := inv.nodup _ camp₀ r' liveCamp isCp'
          simp [first, (first ▸ this : (camp₀.elems r₀).Nodup).mem_erase_iff] at mem
        · obtain ⟨old, liveOld, -, onOld⟩ := inv.member _ camp₀ r' e liveCamp isCp'
            (by simpa [first] using mem)
          obtain rfl : dest = old := Option.some.inj (live.symm.trans liveOld)
          rw [on] at onOld
          exact first (Option.some.inj onOld).symm
      · obtain ⟨old, liveOld, onCp, onRing⟩ := inv.member _ camp₀ r' e liveCamp isCp'
          ((member r' e isCp' ne camp₀).mp mem)
        exact ⟨old, by rw [Book.remove_dests, if_neg ne, liveOld], onCp, onRing⟩
    next other =>
      obtain ⟨old, liveOld, onCp, onRing⟩ := inv.member cp camp r' e liveNew isCp' mem
      refine ⟨old, ?_, onCp, onRing⟩
      rw [Book.remove_dests, if_neg ?_, liveOld]
      rintro rfl
      obtain rfl : dest = old := Option.some.inj (live.symm.trans liveOld)
      exact other (onCp.symm.trans isCp.symm)
  · intro cp camp r' liveNew isCp'
    rw [camps] at liveNew
    split at liveNew
    next same =>
      obtain rfl : cp = dest.cp := same.trans isCp
      rw [liveCamp] at liveNew
      cases liveNew
      rw [elems r' isCp']
      split
      · exact (inv.nodup _ camp₀ r' liveCamp isCp').erase d
      · exact inv.nodup _ camp₀ r' liveCamp isCp'
    next => exact inv.nodup cp camp r' liveNew isCp'

/-- A new campaign with empty lists. -/
theorem create (inv : Partition b) (empty : ∀ r, camp.elems r = []) :
    Partition { b with camps := b.camps.alloc camp } where
  linked e dest live := by
    obtain ⟨r, old, onRing, isCp, liveCamp, mem⟩ := inv.linked e dest live
    exact ⟨r, old, onRing, isCp, Heap.get_alloc_of_live liveCamp, mem⟩
  member cp new r e live isCp mem := by
    rw [Heap.get_alloc] at live
    split at live
    · cases live
      simp [empty] at mem
    · exact inv.member cp new r e live isCp mem
  nodup cp new r live isCp := by
    rw [Heap.get_alloc] at live
    split at live
    · cases live
      simp [empty]
    · exact inv.nodup cp new r live isCp

/-- A campaign is destroyed together with its destinations. -/
theorem destroy (inv : Partition b) {b' : Book}
    (dests : ∀ e, b'.dests.get e = (b.dests.get e).filter fun dest => dest.cp ≠ cp)
    (camps : ∀ cp', b'.camps.get cp' = if cp' = cp then none else b.camps.get cp') :
    Partition b' where
  linked e dest live := by
    rw [dests, Option.filter_eq_some_iff] at live
    obtain ⟨live, other⟩ := live
    obtain ⟨r, camp, onRing, isCp, liveCamp, mem⟩ := inv.linked e dest live
    exact ⟨r, camp, onRing, isCp, by simpa [camps, of_decide_eq_true other] using liveCamp, mem⟩
  member cp' camp r e live isCp mem := by
    rw [camps] at live
    split at live
    · cases live
    next other =>
      obtain ⟨dest, liveDest, onCp, onRing⟩ := inv.member cp' camp r e live isCp mem
      exact ⟨dest, by simp [dests, liveDest, onCp, other], onCp, onRing⟩
  nodup cp' camp r live isCp := by
    rw [camps] at live
    split at live
    · cases live
    · exact inv.nodup cp' camp r live isCp

end Partition

/-! ## A new destination -/

theorem listAppend_alloc (b : Book) (r : Ring) (noLink : dest.le = none) :
    listAppend { b with dests := b.dests.alloc dest } r b.dests.next =
      { b with dests := b.dests.alloc { dest with le := some r } }.setCamp r.cp fun camp =>
        camp.edit r (· ++ [b.dests.next]) := by
  have free : Book.linkedOn { b with dests := b.dests.alloc dest } b.dests.next = none := by
    simp [Book.linkedOn, noLink]
  rw [listAppend, free]
  simp only [Book.setDest, Heap.modify_alloc_next]

theorem Partition.load (inv : Partition b) (liveCamp : b.camps.get dest.cp = some camp)
    (noLink : dest.le = none) (within : r.cp = dest.cp) :
    Partition (listAppend { b with dests := b.dests.alloc dest } r b.dests.next) := by
  rw [listAppend_alloc b r noLink]
  -- nothing names the new address yet
  have absent : ∀ camp' r', b.camps.get dest.cp = some camp' → r'.cp = dest.cp →
      b.dests.next ∉ camp'.elems r' := by
    intro camp' r' live isCp mem
    obtain ⟨old, liveOld, -⟩ := inv.member _ camp' r' _ live isCp mem
    simp at liveOld
  have here : ∀ r', r'.cp = dest.cp → (camp.edit r (· ++ [b.dests.next])).elems r' =
      camp.elems r' ++ if r' = r then [b.dests.next] else [] := by
    intro r' isCp
    rw [Book.elems_edit _ (within.trans isCp.symm)]
    by_cases same : r' = r <;> simp [same]
  refine ⟨?_, ?_, ?_⟩
  · intro e new live
    simp only [Book.dests_setCamp, Heap.get_alloc] at live
    split at live
    next isNew =>
      subst isNew
      cases live
      exact ⟨r, camp.edit r (· ++ [b.dests.next]), rfl, within, by simp [within, liveCamp],
        by simp [here r within]⟩
    next =>
      obtain ⟨r', camp', onRing, isCp, liveCamp', mem⟩ := inv.linked e new live
      by_cases same : new.cp = dest.cp
      · rw [same] at liveCamp' isCp
        obtain rfl : camp = camp' := Option.some.inj (liveCamp.symm.trans liveCamp')
        exact ⟨r', camp.edit r (· ++ [b.dests.next]), onRing, isCp.trans same.symm,
          by simp [within, same, liveCamp], by simp [here r' isCp, mem]⟩
      · exact ⟨r', camp', onRing, isCp, by simp [Heap.get_modify, within, same, liveCamp'], mem⟩
  · intro cp camp' r' e live isCp mem
    simp only [Book.camps_setCamp, Heap.get_modify, within] at live
    split at live
    next same =>
      subst same
      rw [liveCamp] at live
      cases live
      rw [here r' isCp, List.mem_append] at mem
      rcases mem with old | new
      · obtain ⟨old', liveOld, onCp, onRing⟩ := inv.member _ camp r' e liveCamp isCp old
        exact ⟨old', by simp [Heap.get_alloc_of_live liveOld], onCp, onRing⟩
      · split at new
        next isRing =>
          obtain rfl : e = b.dests.next := by simpa using new
          exact ⟨{ dest with le := some r }, by simp, rfl, by rw [isRing]⟩
        next => simp at new
    next =>
      obtain ⟨old, liveOld, onCp, onRing⟩ := inv.member cp camp' r' e live isCp mem
      exact ⟨old, by simp [Heap.get_alloc_of_live liveOld], onCp, onRing⟩
  · intro cp camp' r' live isCp
    simp only [Book.camps_setCamp, Heap.get_modify, within] at live
    split at live
    next same =>
      subst same
      rw [liveCamp] at live
      cases live
      rw [here r' isCp]
      have old := inv.nodup _ camp r' liveCamp isCp
      split
      · refine List.nodup_append.mpr ⟨old, by simp, ?_⟩
        intro a mem c isNew eq
        obtain rfl : c = b.dests.next := by simpa using isNew
        exact absent camp r' liveCamp isCp (eq ▸ mem)
      · simpa using old
    next => exact inv.nodup cp camp' r' live isCp

/-! ## Calls and timers -/

namespace AllSupervised

theorem empty : AllSupervised {} := fun _ _ live => by cases live

theorem setDest (inv : AllSupervised b) {f : Destination → Destination}
    (here : ∀ dest, b.dests.get d = some dest → Supervised dest → Supervised (f dest)) :
    AllSupervised (b.setDest d f) := by
  intro e new live
  rw [Book.dests_setDest, Heap.get_modify] at live
  split at live
  next same =>
    subst same
    obtain ⟨dest, old, rfl⟩ := Option.map_eq_some_iff.mp live
    exact here dest old (inv e dest old)
  next => exact inv e new live

/-- A destination without a call may go to either list. -/
theorem moveTo (inv : AllSupervised b) {r' : Ring} (live : b.dests.get d = some dest)
    (on : dest.le = some r) (idle : dest.call = none) : AllSupervised (b.moveTo d r') := by
  intro e new liveNew
  rw [Book.moveTo_dests live on] at liveNew
  split at liveNew
  · cases liveNew
    exact ⟨(inv d dest live).armed, fun _ => idle⟩
  · exact inv e new liveNew

theorem mono (inv : AllSupervised b) {b' : Book}
    (fewer : ∀ e dest, b'.dests.get e = some dest → b.dests.get e = some dest) : AllSupervised b' :=
  fun e dest live => inv e dest (fewer e dest live)

theorem remove (inv : AllSupervised b) (d : DestId) : AllSupervised (b.remove d) :=
  inv.mono fun e dest live => by
    rw [Book.remove_dests] at live
    split at live
    · cases live
    · exact live

theorem load (inv : AllSupervised b) (noLink : dest.le = none) (idle : dest.call = none)
    (unarmed : dest.tmr = false) :
    AllSupervised (listAppend { b with dests := b.dests.alloc dest } r b.dests.next) := by
  rw [listAppend_alloc b r noLink]
  intro e new live
  simp only [Book.dests_setCamp, Heap.get_alloc] at live
  split at live
  · cases live
    exact ⟨by simp [idle, unarmed], fun _ => idle⟩
  · exact inv e new live

end AllSupervised

end Autodialer
