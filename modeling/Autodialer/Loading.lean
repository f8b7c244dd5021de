import Autodialer.Threads

/-!
# Loading contacts

`pull_groups` reads the contacts of a campaign again when the campaign is not
running and its list of destinations is empty. The contacts with calls are on
the other list, and `call_duration` is 0 in their rows as long as they talk.

* `no_twice_iff`: no contact is there twice in a run exactly when no step loads
  a contact that is on the process list of its campaign.
-/

namespace Autodialer

variable {w w' : World} {e : WorldEvent} {b b' : Book} {d : DestId} {cp : CampId}
  {dest : Destination} {rows : List CallRow}

/-- No two live destinations of a campaign are the same contact. -/
def NoTwice (b : Book) : Prop :=
  ∀ d d' dest dest', b.dests.get d = some dest → b.dests.get d' = some dest' →
    dest.cp = dest'.cp → dest.destId = dest'.destId → d = d'

/-- None of the rows is a contact on the process list of the campaign. -/
def Apart (b : Book) (cp : CampId) (rows : List CallRow) : Prop :=
  ∀ camp d dest, b.camps.get cp = some camp → d ∈ camp.processl → b.dests.get d = some dest →
    ∀ row ∈ rows, row.id ≠ dest.destId

/-! ## The table -/

theorem selectCalls_nodup {calls : List CallRecord} (ids : (calls.map CallRecord.id).Nodup)
    (campaignId : Nat) : ((selectCalls calls campaignId).map CallRow.id).Nodup := by
  have same : (selectCalls calls campaignId).map CallRow.id =
      (calls.filter fun r => r.callDuration = 0 && toInt32 campaignId = r.campaignId).map
        CallRecord.id := by
    rw [selectCalls, List.map_map]
    rfl
  rw [same]
  exact ids.sublist (List.filter_sublist.map _)

/-- No step changes the ids of rows that are in the table. -/
theorem worldStep_ids (ids : (w.calls.map CallRecord.id).Nodup) (step : world.step w e w') :
    (w'.calls.map CallRecord.id).Nodup := by
  cases worldStep_cases step with
  | sync =>
    have same : (w.calls.map CallRecord.id).Nodup := ids
    simpa [World.synced, CallRecord.after, Function.comp_def] using same
  | inserted fresh =>
    rw [List.map_append, List.nodup_append]
    refine ⟨ids, by simp, fun id old id' new eq => ?_⟩
    obtain rfl : id' = _ := by simpa using new
    exact fresh (eq ▸ old)
  | _ => exact ids

/-! ## One load -/

theorem NoTwice.fewer (noTwice : NoTwice b) (fewer : Fewer b b') : NoTwice b' := by
  intro d d' dest dest' live live' sameCamp sameId
  obtain ⟨old, liveOld, id, cp⟩ := fewer.same d dest live
  obtain ⟨old', liveOld', id', cp'⟩ := fewer.same d' dest' live'
  exact noTwice d d' old old' liveOld liveOld' (cp ▸ cp' ▸ sameCamp) (id ▸ id' ▸ sameId)

/-- After a load every destination is an old one, or one of the rows. -/
theorem loadContacts_cases
    (live : (rows.foldl (loadContact cp) b).dests.get d = some dest) :
    b.dests.get d = some dest ∨
      ∃ i row, d = b.dests.next + i ∧ rows[i]? = some row ∧ dest = row.contact cp := by
  rw [loadContacts_get] at live
  split at live
  next => exact .inl live
  next above =>
    obtain ⟨row, at_, rfl⟩ := Option.map_eq_some_iff.mp live
    exact .inr ⟨d - b.dests.next, row, (Nat.add_sub_cancel' (Nat.le_of_not_lt above)).symm, at_, rfl⟩

theorem loadContacts_new {i : Nat} {row : CallRow} (at_ : rows[i]? = some row) :
    (rows.foldl (loadContact cp) b).dests.get (b.dests.next + i) = some (row.contact cp) := by
  rw [loadContacts_get, if_neg (Nat.not_lt.mpr (Nat.le_add_right _ _)), Nat.add_sub_cancel_left, at_]
  rfl

/-- A row that is loaded for the campaign is no contact of it already. -/
theorem Loads.other (loads : Loads w cp e rows) (inv : Inv.Any w.sys)
    (apart : Apart w.sys.book cp rows) (live : w.sys.book.dests.get d = some dest)
    (onCp : dest.cp = cp) : ∀ row ∈ rows, row.id ≠ dest.destId := by
  cases loads with
  | @service _ _ camp _ _ liveCamp _ empty =>
    obtain ⟨r, camp', -, isCp, liveCamp', mem⟩ := inv.partition.linked d dest live
    subst onCp
    obtain rfl := Option.some.inj (liveCamp.symm.trans liveCamp')
    cases r with
    | destinations =>
      have mem : d ∈ camp.destinations := mem
      rw [empty] at mem
      cases mem
    | processl => exact apart camp d dest liveCamp mem live

/-- A load keeps the contacts distinct if none of them has a call. -/
theorem NoTwice.load (noTwice : NoTwice w.sys.book) (inv : Inv.Any w.sys)
    (ids : (w.calls.map CallRecord.id).Nodup) (loads : Loads w cp e rows)
    (apart : Apart w.sys.book cp rows) (dests : b'.dests =
      (rows.foldl (loadContact cp) w.sys.book).dests) : NoTwice b' := by
  have distinct : (rows.map CallRow.id).Nodup := by
    cases loads with
    | service => exact selectCalls_nodup ids _
  intro d d' dest dest' live live' sameCamp sameId
  rw [dests] at live live'
  rcases loadContacts_cases live with old | ⟨i, row, rfl, at_, rfl⟩ <;>
    rcases loadContacts_cases live' with old' | ⟨j, row', rfl, at', rfl⟩
  · exact noTwice d d' dest dest' old old' sameCamp sameId
  · have other := loads.other inv apart old sameCamp row' (List.mem_of_getElem? at')
    exact absurd sameId.symm other
  · have other := loads.other inv apart old' sameCamp.symm row (List.mem_of_getElem? at_)
    exact absurd sameId other
  · have index : (rows.map CallRow.id)[i]? = (rows.map CallRow.id)[j]? := by
      rw [List.getElem?_map, List.getElem?_map, at_, at']
      exact congrArg some sameId
    have inside : i < (rows.map CallRow.id).length := by
      rw [List.length_map]
      exact (List.getElem?_eq_some_iff.mp at_).1
    rw [(List.getElem?_inj inside distinct).mp index]

theorem worldStep_noTwice (inv : Inv.Any w.sys) (ids : (w.calls.map CallRecord.id).Nodup)
    (noTwice : NoTwice w.sys.book)
    (apart : ∀ cp rows, Loads w cp e rows → Apart w.sys.book cp rows)
    (step : world.step w e w') : NoTwice w'.sys.book := by
  rcases worldStep_dests inv step with fewer | ⟨cp, rows, loads, dests⟩
  · exact noTwice.fewer fewer
  · exact noTwice.load inv ids loads (apart cp rows loads) dests

theorem worldInit_noTwice (init : WorldInit w) : NoTwice w.sys.book := by
  obtain ⟨⟨n, audioPath, -, boot⟩, -, -⟩ := init
  intro d d' dest dest' live
  rw [boot] at live
  cases live

/-- The step loads what `Loads` says. -/
theorem Loads.dests (loads : Loads w cp e rows) (step : world.step w e w') :
    w'.sys.book.dests = (rows.foldl (loadContact cp) w.sys.book).dests := by
  cases loads with
  | @service rest actions camp here connected live stopped empty =>
    cases worldStep_cases step with
    | @service cp' _ _ rest' sys here' run =>
      rw [here] at here'
      cases here'
      have selected : w.selected true camp.campaignId = some (selectCalls w.calls camp.campaignId) := by
        rw [World.selected, World.answer, if_pos connected, if_pos rfl]
      have rowsFor : rowsFor (w.selected true) camp = some (selectCalls w.calls camp.campaignId) := by
        rw [rowsFor, empty]
        exact selected
      obtain ⟨camp', live', ⟨-, passed⟩ | ⟨-, rows, acts, l, found, -, rfl⟩⟩ := pullService_cases run
      · obtain rfl := Option.some.inj (live.symm.trans live')
        rw [stopped, rowsFor] at passed
        rcases passed with running | failed
        · cases running
        · cases failed
      · obtain rfl := Option.some.inj (live.symm.trans live')
        rw [rowsFor] at found
        cases found
        rfl
    | passed failed => simp [here] at failed

/-- A step that loads a contact with a call doubles it. -/
theorem Loads.apart_of_noTwice (loads : Loads w cp e rows) (inv : Inv.Any w.sys)
    (step : world.step w e w') (noTwice : NoTwice w'.sys.book) : Apart w.sys.book cp rows := by
  intro camp d dest live mem liveDest row isRow same
  obtain ⟨dest', liveDest', onCp, -⟩ := inv.partition.on_processl live mem
  obtain rfl := Option.some.inj (liveDest.symm.trans liveDest')
  obtain ⟨i, at_⟩ := List.getElem?_of_mem isRow
  have dests := loads.dests step
  have old : w'.sys.book.dests.get d = some dest := by
    rw [dests]
    exact loadContacts_live cp rows liveDest
  have new : w'.sys.book.dests.get (w.sys.book.dests.next + i) = some (row.contact cp) := by
    rw [dests]
    exact loadContacts_new at_
  have one := noTwice _ _ _ _ old new onCp same.symm
  have below := Heap.lt_next liveDest
  omega

/-! ## Runs -/

/-- Throughout a run no contact of a campaign is there twice exactly when no step
loads one that is on the process list of the campaign. -/
theorem no_twice_iff {h : List (World × WorldEvent)} (run : world.Execution h w) :
    (∀ t, Lts.Visits h w t → NoTwice t.sys.book) ↔
      ∀ x ∈ h, ∀ cp rows, Loads x.1 cp x.2 rows → Apart x.1.sys.book cp rows := by
  constructor
  · intro always ⟨t, e⟩ mem cp rows loads
    obtain ⟨h₁, h₂, u, -, before, step, -⟩ := run.step_of_mem mem
    obtain ⟨u', step', visit⟩ := run.visits_next mem
    exact loads.apart_of_noTwice (world_inv before.reachable) step' (always u' visit)
  · intro meets t visit
    obtain ⟨h₁, h₂, rfl, run₁⟩ := run.of_visits visit
    have account := run₁.induct
      (C := fun w e => ∀ cp rows, Loads w cp e rows → Apart w.sys.book cp rows)
      (I := fun _ w => NoTwice w.sys.book ∧ (w.calls.map CallRecord.id).Nodup)
      (fun x mem => meets x (List.mem_append_left _ mem)) ?_ ?_
    · exact account.1
    · exact fun w init => ⟨worldInit_noTwice init, init.2.2⟩
    · rintro k v e v' before ⟨noTwice, ids⟩ step apart
      have inv := world_inv before.reachable
      exact ⟨worldStep_noTwice inv ids noTwice apart step, worldStep_ids ids step⟩

/-- The table and its connection when the program starts: two contacts of one
campaign. -/
def twoContacts : World where
  sys := Sys.boot 4 "/audio"
  calls := [{ id := 7, campaignId := 1, contactNumber := some "100" },
    { id := 8, campaignId := 1, contactNumber := some "101" }]

/-- The row of the campaign with the given status. -/
def campaignRow (status : Nat) : CampaignRow where
  id := 1
  frequency := 2
  fileName := some "offer.gsm"
  status := status
  gatewayId := 1

def trunkGateway : GatewayRow where
  id := 1
  uristr := "sip:trunk@10.0.0.9:5060;prefix=;codec=0"
  sipUri := some { user := some "trunk", codec := some 0 }

/-- One turn of the database thread, with `n` statements to run. -/
def turn (n status : Nat) : List WorldEvent :=
  [.sync .detach, .sync (.ping true)] ++ List.replicate n (.sync .query) ++
    [.sync .finish, .gateways (some [trunkGateway]), .campaigns (some [campaignRow status]),
      .service true (some []), .wake]

/-- Both contacts are called; the campaign is paused, and ticked while the calls
go on. -/
def pausedTick : List WorldEvent :=
  turn 0 2 ++ [.main (.message 100 fun _ => {})] ++ turn 2 3 ++ [.main (.campTimer 0 110 fun _ => {})]

theorem no_twice_iff_paused : ∃ h w, world.Execution h w ∧ h.length = 18 ∧
    ((∀ t, Lts.Visits h w t → NoTwice t.sys.book) ↔
      ∀ x ∈ h, ∀ cp rows, Loads x.1 cp x.2 rows → Apart x.1.sys.book cp rows) := by
  obtain ⟨h, w, run, test⟩ := Lts.replay_exists WorldInit World.next (s := twoContacts) pausedTick
    (fun h _ => h.length == 18) ⟨⟨4, "/audio", by decide, rfl⟩, rfl, by decide⟩ (by decide)
  exact ⟨h, w, run, beq_iff_eq.mp test, no_twice_iff run⟩

/-- When the campaign is resumed, both contacts are loaded a second time. -/
theorem contact_loaded_twice : ∃ h w, world.Execution h w ∧ ¬ NoTwice w.sys.book := by
  obtain ⟨h, w, run, test⟩ := Lts.replay_exists WorldInit World.next (s := twoContacts)
    (pausedTick ++ turn 0 2)
    (fun _ w => (w.sys.book.dests.get 0).any fun dest => (w.sys.book.dests.get 2).any fun dest' =>
      dest.cp = dest'.cp && dest.destId = dest'.destId)
    ⟨⟨4, "/audio", by decide, rfl⟩, rfl, by decide⟩ (by decide)
  refine ⟨h, w, run, fun noTwice => ?_⟩
  simp only [Option.any_eq_true, Bool.and_eq_true, decide_eq_true_eq] at test
  obtain ⟨dest, live, dest', live', sameCamp, sameId⟩ := test
  have one := noTwice 0 2 dest dest' live live' sameCamp sameId
  cases one

end Autodialer
