import Autodialer.Invariant
import Autodialer.ListSort

/-!
# Which destinations a tick selects

The abstract selection takes the destinations by increasing number of tries, drops
those whose retry delay is not over, and takes as many of the others as there is
room for. `fillProcessl` sorts the list of destinations in place and moves its
elements to the process list one by one.

* `startFakeCalling_selects`: before its dial loop the tick does what the
  abstract selection says.
* `reachable_enlisted`: the lists are as that expects them.
-/

namespace Autodialer

open StableSort

variable {s : Sys} {b : Book} {d : DestId} {cp : CampId} {dest : Destination} {camp : Campaign}
  {now : Time} {order : List DestId}

/-! ## The specification -/

/-- `dest->try_count` -/
def Book.tries (b : Book) (d : DestId) : Nat := (b.dests.get d).elim 0 Destination.tryCount

/-- The destination was never tried, or its retry delay is over. -/
def Book.eligible (b : Book) (camp : Campaign) (now : Time) (d : DestId) : Bool :=
  (b.dests.get d).any fun dest => dest.tryCount = 0 || camp.retryDelay ≤ now - dest.lastTry

/-- The destinations of the campaign, those with fewer tries first. -/
def Book.byTries (b : Book) (camp : Campaign) : List DestId := stableSort b.tries camp.destinations

/-- The first eligible destinations, as many as there is room for. -/
def Book.selection (b : Book) (camp : Campaign) (now : Time) : List DestId :=
  let eligible := (b.byTries camp).filter (b.eligible camp now)
  eligible.take (min eligible.length (camp.callLimit - camp.processl.length))

/-- The campaign after the destinations `chosen` have moved to the process list. -/
def Campaign.select (camp : Campaign) (order chosen : List DestId) : Campaign :=
  { camp with
    destinations := order.filter (· ∉ chosen)
    processl := camp.processl ++ chosen }

/-- The elements of `l` are live destinations linked on `r`, each there once. -/
structure Enlisted (b : Book) (r : Ring) (l : List DestId) : Prop where
  nodup : l.Nodup
  linked : ∀ d ∈ l, ∃ dest, b.dests.get d = some dest ∧ dest.le = some r

/-! ## Sorting -/

/-- The handler compares the numbers of tries. -/
theorem destinationSortHandler_compares (enlisted : Enlisted b (.destinations cp) order) :
    Compares (destinationSortHandler b) b.tries order := by
  intro d mem e mem'
  obtain ⟨dest, live, -⟩ := enlisted.linked d mem
  obtain ⟨dest', live', -⟩ := enlisted.linked e mem'
  simp [destinationSortHandler, Book.tries, live, live']

/-! ## The loop -/

/-- The loop passes by those that are not eligible. -/
theorem waitsForRetry_eq (live : b.dests.get d = some dest) :
    waitsForRetry camp dest now = !b.eligible camp now d := by
  have positive : decide (0 < dest.tryCount) = !decide (dest.tryCount = 0) := by
    rw [← decide_not]
    exact decide_eq_decide.mpr Nat.pos_iff_ne_zero
  have early : decide (now - dest.lastTry < camp.retryDelay) =
      !decide ((camp.retryDelay : Int) ≤ now - dest.lastTry) := by
    rw [← decide_not]
    exact decide_eq_decide.mpr Int.not_le.symm
  simp only [waitsForRetry, Book.eligible, live, Option.any_some, Bool.not_or, positive, early]

theorem moveTo_processl (live : b.camps.get cp = some camp) (liveDest : b.dests.get d = some dest)
    (on : dest.le = some (.destinations cp)) :
    (b.moveTo d (.processl cp)).camps.get cp = some { camp with
      destinations := camp.destinations.erase d, processl := camp.processl ++ [d] } := by
  have within : (Ring.processl cp).cp = (Ring.destinations cp).cp := rfl
  rw [Book.moveTo_camps liveDest on within]
  exact (if_pos rfl).trans (by rw [live]; rfl)

/-- What is left on the list when one element after the other has gone. -/
theorem filter_erase {l chosen : List DestId} (nodup : l.Nodup) :
    (l.erase d).filter (· ∉ chosen) = l.filter (· ∉ d :: chosen) := by
  rw [nodup.erase_eq_filter, List.filter_filter]
  refine List.filter_congr fun e _ => ?_
  rw [Bool.eq_iff_iff]
  simp [and_comm]

/-- The loop moves the first eligible elements of `order`, as many as there is room
for. -/
theorem selectLoop_eq (now : Time) (live : b.camps.get cp = some camp)
    (nodup : camp.destinations.Nodup)
    (enlisted : Enlisted b (.destinations cp) order)
    (room : camp.processl.length < camp.callLimit) :
    ∃ b', selectLoop cp now order b = .ok b' ∧ b'.camps.get cp =
      some (camp.select camp.destinations
        ((order.filter (b.eligible camp now)).take (camp.callLimit - camp.processl.length))) := by
  induction order generalizing b camp with
  | nil =>
    refine ⟨b, rfl, ?_⟩
    simp [live, Campaign.select]
  | cons d rest ih =>
    obtain ⟨dest, liveDest, on⟩ := enlisted.linked d List.mem_cons_self
    obtain ⟨notMem, nodupRest⟩ := List.nodup_cons.mp enlisted.nodup
    have others : Enlisted b (.destinations cp) rest :=
      ⟨nodupRest, fun e mem => enlisted.linked e (List.mem_cons_of_mem d mem)⟩
    simp only [selectLoop, load, liveDest, live, Fallible.get?_some, Fallible.ok_bind,
      waitsForRetry_eq liveDest]
    cases chosen : b.eligible camp now d with
    | false =>
      rw [List.filter_cons_of_neg (by simp [chosen])]
      exact ih live nodup others room
    | true =>
      rw [List.filter_cons_of_pos chosen]
      obtain ⟨k, isRoom⟩ : ∃ k, camp.callLimit - camp.processl.length = k + 1 :=
        ⟨camp.callLimit - camp.processl.length - 1, by omega⟩
      rw [isRoom, List.take_succ_cons]
      have moved := moveTo_processl live liveDest on
      -- the move writes to the link of `d` only
      have same : ∀ e ∈ rest, (b.moveTo d (.processl cp)).dests.get e = b.dests.get e := by
        intro e mem
        rw [Book.moveTo_dests liveDest on, if_neg]
        rintro rfl
        exact notMem mem
      have left : b.moveTo d (.processl cp) = listAppend (listUnlink b d) (.processl cp) d := rfl
      rw [left] at moved same
      simp only [Bool.not_true, Bool.false_eq_true, if_false, moved, Fallible.get?_some,
        Fallible.ok_bind, List.length_append, List.length_singleton]
      split
      next full =>
        refine ⟨_, rfl, ?_⟩
        obtain rfl : k = 0 := by omega
        rw [moved, Campaign.select, List.take_zero, ← filter_erase nodup]
        simp
      next notFull =>
        obtain ⟨b', run, after⟩ := ih moved (nodup.erase d)
          ⟨nodupRest, fun e mem => by rw [same e mem]; exact others.linked e mem⟩
          (by simpa using notFull)
        refine ⟨b', run, ?_⟩
        have eligible : rest.filter ((listAppend (listUnlink b d) (.processl cp) d).eligible
            { camp with
              destinations := camp.destinations.erase d, processl := camp.processl ++ [d] } now) =
            rest.filter (b.eligible camp now) :=
          List.filter_congr fun e mem => by simp only [Book.eligible, same e mem]
        have less : camp.callLimit - (camp.processl ++ [d]).length = k := by
          rw [List.length_append, List.length_singleton]
          omega
        rw [after, eligible, less]
        simp only [Campaign.select, filter_erase nodup, List.append_assoc, List.singleton_append]

/-! ## The tick -/

/-- `b'` is the book after the destinations of `cp` have been selected in `b`. -/
structure Selects (b : Book) (cp : CampId) (camp : Campaign) (now : Time) (b' : Book)
    (camp' : Campaign) : Prop where
  live : b'.camps.get cp = some camp'
  full : camp.callLimit ≤ camp.processl.length → b' = b ∧ camp' = camp
  room : camp.processl.length < camp.callLimit →
    camp' = camp.select (b.byTries camp) (b.selection camp now)
  rearranged : Rearranged b b'

theorem fillProcessl_selects (live : b.camps.get cp = some camp)
    (enlisted : Enlisted b (.destinations cp) camp.destinations) :
    ∃ b' camp', fillProcessl b cp now = .ok b' ∧ Selects b cp camp now b' camp' := by
  have compares := destinationSortHandler_compares enlisted
  have sorted : listSort (destinationSortHandler b) camp.destinations.length camp.destinations =
      b.byTries camp := (listSort_ends compares).eq_stableSort compares
  have perm : (b.byTries camp).Perm camp.destinations := stableSort_perm _ _
  rcases Nat.lt_or_ge camp.processl.length camp.callLimit with room | full
  · have run : fillProcessl b cp now = selectLoop cp now (b.byTries camp)
        (b.setCamp cp fun camp' => { camp' with destinations := b.byTries camp }) := by
      simp only [fillProcessl, load, live, Fallible.get?_some, Fallible.ok_bind, room, if_true,
        sorted]
    have ordered : (b.setCamp cp fun camp' => { camp' with destinations := b.byTries camp }).camps.get
        cp = some { camp with destinations := b.byTries camp } := by
      simp [live]
    have waiting : Enlisted (b.setCamp cp fun camp' => { camp' with destinations := b.byTries camp })
        (.destinations cp) (b.byTries camp) :=
      ⟨perm.nodup_iff.mpr enlisted.nodup, fun d mem => enlisted.linked d (perm.mem_iff.mp mem)⟩
    obtain ⟨b', done, after⟩ :=
      selectLoop_eq now ordered (perm.nodup_iff.mpr enlisted.nodup) waiting room
    have chosen : ((b.byTries camp).filter (b.eligible camp now)).take
        (camp.callLimit - camp.processl.length) = b.selection camp now := by
      unfold Book.selection
      rw [List.take_eq_take_iff]
      omega
    refine ⟨b', _, run.trans done, ⟨after, fun full => absurd room (Nat.not_lt.mpr full),
      fun _ => ?_, fillProcessl_rearranged (run.trans done)⟩⟩
    rw [← chosen]
    rfl
  · have noRoom : ¬ camp.processl.length < camp.callLimit := Nat.not_lt.mpr full
    refine ⟨b, camp, ?_, ⟨live, fun _ => ⟨rfl, rfl⟩, fun room => absurd room noRoom, .refl b⟩⟩
    simp only [fillProcessl, load, live, Fallible.get?_some, Fallible.ok_bind, noRoom, if_false]
    rfl

/-- In a campaign with status 2 the tick selects, and dials what is then on the process
list. `list_sort` ends with the destinations by increasing number of tries. -/
theorem startFakeCalling_selects (live : s.book.camps.get cp = some camp)
    (active : camp.campaignStatus = 2)
    (enlisted : Enlisted s.book (.destinations cp) camp.destinations) (now : Time)
    (env : DestId → DialEnv) :
    ListSorts (destinationSortHandler s.book) camp.destinations (s.book.byTries camp) ∧
      SortsStably s.book.tries camp.destinations (s.book.byTries camp) ∧
      ∃ book camp', Selects s.book cp camp now book camp' ∧
        startFakeCalling s cp now env = (do
          let t ← dialLoop now env camp'.processl { s with book := book }
          pure (t.setCamp cp fun camp => { camp with tmr := true })) := by
  have compares := destinationSortHandler_compares enlisted
  have ends := listSort_ends compares
  rw [ends.eq_stableSort compares] at ends
  obtain ⟨book, camp', filled, selects⟩ : ∃ b' camp', fillProcessl s.book cp now = .ok b' ∧
      Selects s.book cp camp now b' camp' := fillProcessl_selects live enlisted
  refine ⟨ends, stableSort_spec _ _, book, camp', selects, ?_⟩
  simp only [startFakeCalling, Sys.loadCamp, load, live, Fallible.get?_some, Fallible.ok_bind,
    active, ne_eq, not_true_eq_false, if_false, filled, selects.live]

/-- A campaign with two destinations and room for both. -/
def twoToCall : Campaign := { campaignStatus := 2, callLimit := 2, destinations := [0, 1] }

/-- The first of the two was tried once, the second never. -/
def twoWaiting : Sys where
  book :=
    { dests := (Heap.empty.alloc
          { destId := 7, dest := some "100", cp := 0, tryCount := 1, le := some (.destinations 0) }).alloc
        { destId := 8, dest := some "101", cp := 0, le := some (.destinations 0) }
      camps := Heap.empty.alloc twoToCall }

theorem startFakeCalling_selects_waiting :
    ListSorts (destinationSortHandler twoWaiting.book) [0, 1] (twoWaiting.book.byTries twoToCall) ∧
      SortsStably twoWaiting.book.tries [0, 1] (twoWaiting.book.byTries twoToCall) ∧
      ∃ book camp', Selects twoWaiting.book 0 twoToCall 100 book camp' ∧
        startFakeCalling twoWaiting 0 100 (fun _ => {}) = (do
          let t ← dialLoop 100 (fun _ => {}) camp'.processl { twoWaiting with book := book }
          pure (t.setCamp 0 fun camp => { camp with tmr := true })) := by
  have live : twoWaiting.book.camps.get 0 = some twoToCall := rfl
  refine startFakeCalling_selects live rfl ⟨by decide, fun d mem => ?_⟩ 100 _
  have which : d = 0 ∨ d = 1 := by simpa [twoToCall] using mem
  rcases which with rfl | rfl
  · exact ⟨_, rfl, rfl⟩
  · exact ⟨_, rfl, rfl⟩

example : twoWaiting.book.selection twoToCall 100 = [1, 0] := by decide

/-- Whenever the tick runs, the list of destinations is as it expects it. -/
theorem reachable_enlisted (reach : dialer.Reachable s) (live : s.book.camps.get cp = some camp) :
    Enlisted s.book (.destinations cp) camp.destinations := by
  obtain ⟨ans, inv⟩ := reachable_inv reach
  refine ⟨inv.partition.nodup cp camp (.destinations cp) live rfl, fun d mem => ?_⟩
  obtain ⟨dest, liveDest, -, on⟩ := inv.partition.on_destinations live mem
  exact ⟨dest, liveDest, on⟩

end Autodialer
