import Autodialer.GatewayUri
import Autodialer.Gateways
import Autodialer.Lib.Keyed

/-!
# The gateway list and the gateway table

The gateway list is to mirror the gateway table. A pass looks up the gateway of each row
by its id and decodes the URI string again if it differs from the one kept, in a
comparison without case; a gateway is destroyed if the URI of its row does not decode, and
kept if its row is gone.

* `pullGateways_shows`: the list of gateways with all of their URIs is what the heap of
  gateways shows.
* `passes_mirror`: the list mirrors the table after every pass exactly if no gateway loses
  its row and no URI changes in case only.
-/

namespace Autodialer

/-- A gateway with all of its URI. -/
structure GatewayEntry where
  gatewayId : Nat
  uriStr : Option String := none
  sipUri : Uri := {}
deriving DecidableEq

/-- The gateway of a row is filled: `none` if it is destroyed. -/
def GatewayEntry.refresh (gt : GatewayEntry) (row : GatewayColumns) : Option GatewayEntry :=
  if strCaseEq (some row.uriString) gt.uriStr then some gt
  else
    (uriDecode (uristr row)).map fun uri =>
      { gt with uriStr := some row.uriString, sipUri := uri }

/-- The gateway of a row; a new one is appended to the list. -/
def GatewayColumns.fill (row : GatewayColumns) (gt : Option GatewayEntry) : Option GatewayEntry :=
  (gt.getD { gatewayId := row.id }).refresh row

/-- The loop of `pull_groups` over the rows of `gateway`. -/
def pullGatewayTable (gateways : List GatewayEntry) (rows : List GatewayColumns) :
    List GatewayEntry :=
  rows.foldl (fun gateways row => Keyed.update GatewayEntry.gatewayId row.id row.fill gateways)
    gateways

/-- The contents of the gateway table; `id` is its key. -/
structure GatewayTable where
  rows : List GatewayColumns
  distinct : Keyed.Distinct GatewayColumns.id rows

/-- The gateways after passes over these tables. -/
def passes (tables : List GatewayTable) : List GatewayEntry :=
  tables.foldl (fun gateways table => pullGatewayTable gateways table.rows) []

/-- There is exactly one gateway for each row whose URI decodes and no other one, with the
URI string of the row and what it decodes to. -/
structure Mirrors (gateways : List GatewayEntry) (table : GatewayTable) : Prop where
  distinct : Keyed.Distinct GatewayEntry.gatewayId gateways
  offered : ∀ row ∈ table.rows, ∀ uri, uriDecode (uristr row) = some uri →
    { gatewayId := row.id, uriStr := some row.uriString, sipUri := uri } ∈ gateways
  current : ∀ gt ∈ gateways, ∃ row ∈ table.rows, gt.gatewayId = row.id ∧
    gt.uriStr = some row.uriString ∧ uriDecode (uristr row) = some gt.sipUri

/-- Each row whose URI decodes is there in the next table too, with the same URI string or one
that differs in more than case. -/
def Follows (table next : GatewayTable) : Prop :=
  ∀ row ∈ table.rows, (uriDecode (uristr row)).isSome → ∃ row' ∈ next.rows, row'.id = row.id ∧
    (strCaseEq (some row'.uriString) (some row.uriString) → row'.uriString = row.uriString)

/-! ## Looking up a gateway -/

variable {gateways : List GatewayEntry} {table next : GatewayTable} {row : GatewayColumns}
  {gt : GatewayEntry}

/-- The gateway that a row is to have. -/
def GatewayColumns.entry (row : GatewayColumns) : Option GatewayEntry :=
  (uriDecode (uristr row)).map fun uri =>
    { gatewayId := row.id, uriStr := some row.uriString, sipUri := uri }

theorem fill_none : row.fill none = row.entry := rfl

theorem fill_keeps (row : GatewayColumns) :
    Keyed.Keeps GatewayEntry.gatewayId row.id row.fill := by
  intro o gt isRow made
  have isId : (o.getD { gatewayId := row.id }).gatewayId = row.id := by
    cases o with
    | none => rfl
    | some gt => exact isRow gt rfl
  rw [← isId]
  unfold GatewayColumns.fill GatewayEntry.refresh at made
  split at made
  · cases made
    rfl
  · obtain ⟨uri, -, rfl⟩ := Option.map_eq_some_iff.mp made
    rfl

theorem entry_eq_some : row.entry = some gt ↔
    gt.gatewayId = row.id ∧ gt.uriStr = some row.uriString ∧
      uriDecode (uristr row) = some gt.sipUri := by
  unfold GatewayColumns.entry
  rw [Option.map_eq_some_iff]
  constructor
  · rintro ⟨uri, decoded, rfl⟩
    exact ⟨rfl, rfl, decoded⟩
  · rintro ⟨isId, isUri, decoded⟩
    exact ⟨gt.sipUri, decoded, by rw [← isId, ← isUri]⟩

/-- The list mirrors the table if each look-up gives what the row is to have. -/
theorem mirrors_iff : Mirrors gateways table ↔ Keyed.Distinct GatewayEntry.gatewayId gateways ∧
    ∀ id, Keyed.find GatewayEntry.gatewayId id gateways =
      (Keyed.find GatewayColumns.id id table.rows).bind GatewayColumns.entry := by
  constructor
  · intro mirrors
    refine ⟨mirrors.distinct, fun id => Option.ext fun gt => ?_⟩
    rw [Keyed.find_eq_some mirrors.distinct, Option.bind_eq_some_iff]
    simp only [Keyed.find_eq_some table.distinct]
    constructor
    · rintro ⟨mem, isId⟩
      obtain ⟨row, inTable, current⟩ := mirrors.current gt mem
      exact ⟨row, ⟨inTable, current.1.symm.trans isId⟩, entry_eq_some.mpr current⟩
    · rintro ⟨row, ⟨inTable, isId⟩, made⟩
      obtain ⟨isId', isUri, decoded⟩ := entry_eq_some.mp made
      have offered := mirrors.offered row inTable gt.sipUri decoded
      rw [← isId', ← isUri] at offered
      exact ⟨offered, isId'.trans isId⟩
  · rintro ⟨distinct, lookup⟩
    refine ⟨distinct, fun row inTable uri decoded => ?_, fun gt mem => ?_⟩
    · have found := (Keyed.find_eq_some table.distinct).mpr ⟨inTable, rfl⟩
      refine ((Keyed.find_eq_some distinct (k := row.id)).mp ?_).1
      rw [lookup, found, Option.bind_some, entry_eq_some]
      exact ⟨rfl, rfl, decoded⟩
    · have found := (Keyed.find_eq_some distinct).mpr ⟨mem, rfl⟩
      rw [lookup, Option.bind_eq_some_iff] at found
      obtain ⟨row, inTable, made⟩ := found
      exact ⟨row, ((Keyed.find_eq_some table.distinct).mp inTable).1, entry_eq_some.mp made⟩

/-! ## One pass -/

/-- What a pass makes of the gateway of a row whose URI decoded: it is as it is to be unless the
URI differs in case only. -/
theorem fill_entry {row' : GatewayColumns} (made : row.entry = some gt) (isId : row'.id = row.id) :
    row'.fill (some gt) = row'.entry ↔
      (strCaseEq (some row'.uriString) (some row.uriString) → row'.uriString = row.uriString) := by
  obtain ⟨isGt, isUri, decoded⟩ := entry_eq_some.mp made
  show gt.refresh row' = _ ↔ _
  unfold GatewayEntry.refresh
  rw [isUri]
  split
  next same =>
    rw [eq_comm, entry_eq_some, isUri]
    constructor
    · exact fun current _ => (Option.some.inj current.2.1).symm
    · intro exact'
      have sameText := exact' same
      have sameList : uristr row' = uristr row := String.ofList_injective sameText
      exact ⟨isGt.trans isId.symm, by rw [sameText], sameList ▸ decoded⟩
  next other =>
    refine iff_of_true ?_ fun same => absurd same other
    unfold GatewayColumns.entry
    rw [isGt, isId]

/-- One pass, from a list that mirrors the table before it. -/
theorem pass_mirrors (mirrors : Mirrors gateways table) :
    Mirrors (pullGatewayTable gateways next.rows) next ↔ Follows table next := by
  obtain ⟨distinct, lookup⟩ := mirrors_iff.mp mirrors
  have after := Keyed.find_foldl_update fill_keeps distinct next.distinct
  simp only [lookup] at after
  have distinct' : Keyed.Distinct GatewayEntry.gatewayId (pullGatewayTable gateways next.rows) :=
    Keyed.distinct_foldl_update fill_keeps distinct
  rw [mirrors_iff, and_iff_right distinct', pullGatewayTable]
  simp only [after]
  constructor
  · intro same row inTable decodes
    have found := (Keyed.find_eq_some table.distinct).mpr ⟨inTable, rfl⟩
    obtain ⟨gt, made⟩ : ∃ gt, row.entry = some gt := by
      rw [← Option.isSome_iff_exists, GatewayColumns.entry, Option.isSome_map]
      exact decodes
    have here := same row.id
    rw [found, Option.bind_some, made] at here
    cases foundNext : Keyed.find GatewayColumns.id row.id next.rows with
    | none =>
      rw [foundNext] at here
      cases here
    | some row' =>
      rw [foundNext] at here
      obtain ⟨inNext, isId⟩ := (Keyed.find_eq_some next.distinct).mp foundNext
      exact ⟨row', inNext, isId, (fill_entry made isId).mp here⟩
  · intro follows id
    cases old : (Keyed.find GatewayColumns.id id table.rows).bind GatewayColumns.entry with
    | none => cases Keyed.find GatewayColumns.id id next.rows <;> rfl
    | some gt =>
      obtain ⟨row, found, made⟩ := Option.bind_eq_some_iff.mp old
      obtain ⟨inTable, isId⟩ := (Keyed.find_eq_some table.distinct).mp found
      obtain ⟨-, -, decoded⟩ := entry_eq_some.mp made
      obtain ⟨row', inNext, isId', cased⟩ := follows row inTable (by rw [decoded]; rfl)
      rw [(Keyed.find_eq_some next.distinct).mpr ⟨inNext, isId'.trans isId⟩]
      exact (fill_entry made isId').mpr cased

/-! ## All passes -/

/-- After every pass over a table the list mirrors that table. -/
def MirrorsAlways (tables : List GatewayTable) : Prop :=
  ∀ earlier table, earlier ++ [table] <+: tables → Mirrors (passes (earlier ++ [table])) table

theorem passes_from (mirrors : Mirrors gateways table) (tables : List GatewayTable) :
    (∀ earlier last, earlier ++ [last] <+: tables →
      Mirrors ((earlier ++ [last]).foldl (fun gateways table =>
        pullGatewayTable gateways table.rows) gateways) last) ↔
      (table :: tables).IsChain Follows := by
  induction tables generalizing gateways table with
  | nil =>
    refine iff_of_true (fun earlier last first => ?_) (.singleton table)
    cases earlier <;> cases first.length_le
  | cons next tables ih =>
    rw [List.isChain_cons_cons, ← pass_mirrors mirrors]
    constructor
    · intro always
      have here := always [] next ⟨tables, rfl⟩
      refine ⟨here, (ih here).mp fun earlier last first => ?_⟩
      exact always (next :: earlier) last (List.cons_prefix_cons.mpr ⟨rfl, first⟩)
    · rintro ⟨here, chain⟩ earlier last first
      cases earlier with
      | nil =>
        obtain ⟨rfl, -⟩ := List.cons_prefix_cons.mp first
        exact here
      | cons table' earlier =>
        obtain ⟨rfl, first'⟩ := List.cons_prefix_cons.mp first
        exact (ih here).mpr chain earlier last first'

theorem mirrors_empty : Mirrors [] ⟨[], List.nodup_nil⟩ :=
  ⟨List.nodup_nil, (fun _ mem => by cases mem), fun _ mem => by cases mem⟩

/-- The list mirrors the table after every pass exactly if in the step from each table to the
next no gateway loses its row and no URI string changes in case only. -/
theorem passes_mirror (tables : List GatewayTable) :
    MirrorsAlways tables ↔ tables.IsChain Follows := by
  rw [MirrorsAlways, show passes = fun tables => tables.foldl (fun gateways table =>
    pullGatewayTable gateways table.rows) [] from rfl, passes_from mirrors_empty]
  cases tables with
  | nil => exact iff_of_true (.singleton _) .nil
  | cons table tables =>
    rw [List.isChain_cons_cons, and_iff_right]
    exact fun _ mem => by cases mem

/-- A gateway that is no longer in the table. -/
def deletedRow : List GatewayTable :=
  [⟨[trunkRow], List.nodup_singleton _⟩, ⟨[], List.nodup_nil⟩]

/-- A row that is deleted leaves its gateway in the list. -/
theorem deleted_row_stays : ¬ ∀ tables, MirrorsAlways tables := by
  intro always
  have mirrors := always deletedRow [⟨[trunkRow], List.nodup_singleton _⟩] ⟨[], List.nodup_nil⟩
    (List.prefix_refl deletedRow)
  have decodes : (uriDecode (uristr trunkRow)).isSome := by decide +kernel
  obtain ⟨uri, decoded⟩ := Option.isSome_iff_exists.mp decodes
  obtain ⟨gt, made⟩ : ∃ gt, trunkRow.entry = some gt :=
    ⟨⟨1, some trunkRow.uriString, uri⟩, entry_eq_some.mpr ⟨rfl, rfl, decoded⟩⟩
  have held : passes deletedRow = (trunkRow.fill none).toList := by
    simp only [passes, deletedRow, pullGatewayTable, List.foldl_cons, List.foldl_nil, Keyed.update]
  rw [fill_none, made] at held
  obtain ⟨row, mem, -⟩ := mirrors.current gt (held ▸ List.mem_singleton_self gt)
  cases mem

/-! ## The gateways of the dialer -/

def GatewayEntry.toGateway (gt : GatewayEntry) : Gateway where
  gatewayId := gt.gatewayId
  uriStr := gt.uriStr
  sipUri := gt.sipUri.toSipUri

/-- The gateways in the list of `s`, in order. -/
def Shows (s : Sys) (gateways : List GatewayEntry) : Prop :=
  s.gatewayList.map s.gateways.get = gateways.map fun gt => some gt.toGateway

variable {s s' : Sys}

/-- The gateway at `g` in the list, between those before and those after it. -/
theorem Shows.split {g : GatewayId} {gateway : Gateway} {id : Nat} (shows : Shows s gateways)
    (catalogued : Catalogued s) (offers : s.Offers g gateway) (isId : gateway.gatewayId = id) :
    ∃ before after gts gts' gt, s.gatewayList = before ++ g :: after ∧ gt.toGateway = gateway ∧
      g ∉ before ∧ g ∉ after ∧
      before.map s.gateways.get = gts.map (fun gt => some gt.toGateway) ∧
      after.map s.gateways.get = gts'.map (fun gt => some gt.toGateway) ∧
      ∀ f, Keyed.update GatewayEntry.gatewayId id f gateways =
        gts ++ ((f (some gt)).toList ++ gts') := by
  obtain ⟨before, after, isList⟩ := List.append_of_mem offers.1
  unfold Shows at shows
  rw [isList, List.map_append, List.map_cons] at shows
  obtain ⟨gts, rest, rfl, sameBefore, sameRest⟩ := List.map_eq_append_iff.mp shows.symm
  obtain ⟨gt, gts', rfl, isGt, sameAfter⟩ := List.map_eq_cons_iff.mp sameRest
  obtain rfl : gt.toGateway = gateway := Option.some.inj (isGt.trans offers.2)
  have nodup := catalogued.nodup
  rw [isList, List.nodup_append, List.nodup_cons] at nodup
  obtain ⟨-, ⟨notAfter, -⟩, disjoint⟩ := nodup
  refine ⟨before, after, gts, gts', gt, isList, rfl,
    fun mem => disjoint g mem g List.mem_cons_self rfl, notAfter, sameBefore.symm, sameAfter.symm,
    fun f => Keyed.update_append (fun gt' mem isId' => ?_) isId⟩
  -- a gateway with this id before it would be at the same address
  obtain ⟨g', mem', live⟩ : ∃ g' ∈ before, s.gateways.get g' = some gt'.toGateway :=
    List.mem_map.mp (sameBefore ▸ List.mem_map_of_mem mem)
  have offers' : s.Offers g' gt'.toGateway :=
    ⟨by rw [isList]; exact List.mem_append_left _ mem', live⟩
  have same := catalogued.unique g' _ g gt.toGateway offers' offers (isId'.trans isId.symm)
  exact disjoint g' mem' g List.mem_cons_self same

/-- A heap that has the same gateways at these addresses shows the same. -/
theorem shows_frame {h : Heap Gateway} {l : List GatewayId} {gts : List GatewayEntry}
    (same : l.map s.gateways.get = gts.map fun gt => some gt.toGateway)
    (kept : ∀ g ∈ l, h.get g = s.gateways.get g) :
    l.map h.get = gts.map fun gt => some gt.toGateway := by
  rw [← same]
  exact List.map_congr_left kept

/-- The row of an unknown gateway is put at the end. -/
theorem Shows.absent {id : Nat} (shows : Shows s gateways) (unknown : s.uriOf id = none)
    (f : Option GatewayEntry → Option GatewayEntry) :
    Keyed.update GatewayEntry.gatewayId id f gateways = gateways ++ (f none).toList := by
  refine Keyed.update_absent fun gt mem => ?_
  obtain ⟨g, mem', live⟩ : ∃ g ∈ s.gatewayList, s.gateways.get g = some gt.toGateway :=
    List.mem_map.mp (shows ▸ List.mem_map_of_mem mem)
  exact uriOf_eq_none.mp unknown g gt.toGateway ⟨mem', live⟩

theorem fill_differs {gt : GatewayEntry}
    (differs : strCaseEq (some row.uriString) gt.uriStr = false) :
    row.fill (some gt) = (uriDecode (uristr row)).map fun uri =>
      { gt with uriStr := some row.uriString, sipUri := uri } :=
  if_neg (Bool.not_eq_true _ ▸ differs)

/-- The rows of `pullGateway` do to the heap of gateways what they do to the list. -/
theorem pullGateway_shows (shows : Shows s gateways) (catalogued : Catalogued s)
    (run : pullGateway s row.toRow = .ok s') :
    Shows s' (Keyed.update GatewayEntry.gatewayId row.id row.fill gateways) := by
  rw [show row.id = row.toRow.id from rfl]
  cases pullGateway_cases catalogued run with
  | @same g gateway offers isId same =>
    obtain ⟨before, after, gts, gts', gt, isList, rfl, -, -, sameBefore, sameAfter, updated⟩ :=
      shows.split catalogued offers isId
    rw [updated, show row.fill (some gt) = some gt from if_pos same]
    unfold Shows
    rw [isList]
    simp [sameBefore, sameAfter, offers.2]
  | @changed g gateway uri offers isId differs decoded =>
    obtain ⟨before, after, gts, gts', gt, isList, rfl, notBefore, notAfter, sameBefore, sameAfter,
      updated⟩ := shows.split catalogued offers isId
    obtain ⟨full, decodedFull, rfl⟩ := Option.map_eq_some_iff.mp decoded
    rw [updated, fill_differs differs, decodedFull]
    have keptBefore := shows_frame (h := s.gateways.modify g fun gateway => { gateway with
      uriStr := some row.uriString, sipUri := full.toSipUri }) sameBefore
      fun g' mem => Heap.get_modify_ne fun here => notBefore (here ▸ mem)
    have keptAfter := shows_frame (h := s.gateways.modify g fun gateway => { gateway with
      uriStr := some row.uriString, sipUri := full.toSipUri }) sameAfter
      fun g' mem => Heap.get_modify_ne fun here => notAfter (here ▸ mem)
    show s.gatewayList.map (s.gateways.modify g _).get = _
    rw [isList, List.map_append, List.map_cons, Heap.get_modify_self, offers.2]
    simp only [List.map_append]
    rw [← keptBefore, ← keptAfter]
    rfl
  | @destroyed g gateway offers isId differs decoded =>
    obtain ⟨before, after, gts, gts', gt, isList, rfl, notBefore, notAfter, sameBefore, sameAfter,
      updated⟩ := shows.split catalogued offers isId
    have undecoded : uriDecode (uristr row) = none := Option.map_eq_none_iff.mp decoded
    rw [updated, fill_differs differs, undecoded]
    have keptBefore := shows_frame sameBefore (h := s.gateways.free g)
      fun g' mem => Heap.get_free_ne fun here => notBefore (here ▸ mem)
    have keptAfter := shows_frame sameAfter (h := s.gateways.free g)
      fun g' mem => Heap.get_free_ne fun here => notAfter (here ▸ mem)
    show (s.gatewayList.erase g).map (s.gateways.free g).get = _
    rw [isList, List.erase_append_right _ notBefore, List.erase_cons_head, List.map_append,
      keptBefore, keptAfter]
    simp
  | @created uri unknown decoded =>
    obtain ⟨full, decodedFull, rfl⟩ := Option.map_eq_some_iff.mp decoded
    rw [shows.absent unknown, fill_none, GatewayColumns.entry, decodedFull]
    show (s.gatewayList ++ [s.gateways.next]).map (s.gateways.alloc _).get = _
    rw [List.map_append, List.map_append, List.map_singleton, Heap.get_alloc_next,
      shows_frame shows fun g mem => ?_]
    · rfl
    · obtain ⟨gateway, live⟩ := catalogued.live g mem
      rw [live, Heap.get_alloc_of_live live]
  | refused unknown decoded =>
    have undecoded : uriDecode (uristr row) = none := Option.map_eq_none_iff.mp decoded
    rw [shows.absent unknown, fill_none, GatewayColumns.entry, undecoded]
    show s.gatewayList.map ((s.gateways.alloc _).free s.gateways.next).get = _
    rw [shows_frame shows fun g mem => ?_]
    · simp
    · obtain ⟨gateway, live⟩ := catalogued.live g mem
      rw [Heap.get_free_ne (Heap.ne_next live), live, Heap.get_alloc_of_live live]

/-- The gateways of the dialer after a pass are what the list model makes of those before it. -/
theorem pullGateways_shows {rows : List GatewayColumns} (shows : Shows s gateways)
    (catalogued : Catalogued s) (run : pullGateways s (rows.map GatewayColumns.toRow) = .ok s') :
    Shows s' (pullGatewayTable gateways rows) := by
  induction rows generalizing s gateways with
  | nil =>
    cases run
    exact shows
  | cons row rows ih =>
    obtain ⟨t, first, rest⟩ := Fallible.bind_eq_ok.mp run
    obtain ⟨_, _, mirrored⟩ := pullGateway_mirrored catalogued first
    exact ih (pullGateway_shows shows catalogued first) (mirrored.catalogued catalogued) rest

end Autodialer
