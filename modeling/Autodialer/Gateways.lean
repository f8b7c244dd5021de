import Autodialer.Campaigns

/-!
# The gateways through a pass

`pull_groups` keeps one gateway for each id whose URI string decodes. A row changes
the gateway with its id, in place if its URI decodes, and destroys it otherwise.

* `pullGateways_uriOf`: what the rows make of the gateway with an id depends on the
  rows and its URI string only.
* `pullGateways_offers`: a gateway stays in the list unless some first part of the rows
  leaves no gateway with its id.
* `step_catalogued`: the gateways of the list are live and have different ids.
-/

namespace Autodialer

variable {s s' t : Sys} {e : Event} {g : GatewayId} {gateway : Gateway} {id : Nat} {row : GatewayRow}
  {rows : List GatewayRow} {uri : Option String} {ans : CallId → Addr → Prop}

/-! ## The list of gateways -/

/-- The gateway at `g` is in the list. -/
def Sys.Offers (s : Sys) (g : GatewayId) (gateway : Gateway) : Prop :=
  g ∈ s.gatewayList ∧ s.gateways.get g = some gateway

/-- The gateways of the list are live and have different ids. -/
structure Catalogued (s : Sys) : Prop where
  live : ∀ g ∈ s.gatewayList, ∃ gateway, s.gateways.get g = some gateway
  nodup : s.gatewayList.Nodup
  unique : ∀ g gateway g' gateway', s.Offers g gateway → s.Offers g' gateway' →
    gateway.gatewayId = gateway'.gatewayId → g = g'

/-- The URI string of the gateway with this id; `none` if there is no such gateway in the
list. -/
def Sys.uriOf (s : Sys) (id : Nat) : Option (Option String) :=
  s.gatewayList.findSome? fun g => (s.gateways.get g).bind fun gateway =>
    if gateway.gatewayId = id then some gateway.uriStr else none

theorem uriOf_some (known : s.uriOf id = some uri) :
    ∃ g gateway, s.Offers g gateway ∧ gateway.gatewayId = id ∧ gateway.uriStr = uri := by
  obtain ⟨g, mem, here⟩ := List.exists_of_findSome?_eq_some known
  obtain ⟨gateway, live, isUri⟩ := Option.bind_eq_some_iff.mp here
  split at isUri
  next isId => exact ⟨g, gateway, ⟨mem, live⟩, isId, Option.some.inj isUri⟩
  next => cases isUri

theorem uriOf_eq_none :
    s.uriOf id = none ↔ ∀ g gateway, s.Offers g gateway → gateway.gatewayId ≠ id := by
  constructor
  · intro unknown g gateway ⟨mem, live⟩ isId
    have here := List.findSome?_eq_none_iff.mp unknown g mem
    rw [live, Option.bind_some, if_pos isId] at here
    cases here
  · intro other
    refine List.findSome?_eq_none_iff.mpr fun g mem => ?_
    cases live : s.gateways.get g with
    | none => rfl
    | some gateway => exact if_neg (other g gateway ⟨mem, live⟩)

theorem Catalogued.uriOf (catalogued : Catalogued s) (offers : s.Offers g gateway)
    (isId : gateway.gatewayId = id) : s.uriOf id = some gateway.uriStr := by
  cases known : s.uriOf id with
  | none => exact absurd isId (uriOf_eq_none.mp known g gateway offers)
  | some uri =>
    obtain ⟨g', gateway', offers', isId', isUri⟩ := uriOf_some known
    obtain rfl := catalogued.unique g gateway g' gateway' offers offers' (isId.trans isId'.symm)
    cases offers.2.symm.trans offers'.2
    rw [isUri]

/-- The same gateways with this id, the same URI string. -/
theorem uriOf_congr (catalogued' : Catalogued s')
    (same : ∀ g gateway, gateway.gatewayId = id → (s'.Offers g gateway ↔ s.Offers g gateway)) :
    s'.uriOf id = s.uriOf id := by
  cases known : s.uriOf id with
  | none =>
    refine uriOf_eq_none.mpr fun g gateway offers isId => ?_
    exact uriOf_eq_none.mp known g gateway ((same g gateway isId).mp offers) isId
  | some uri =>
    obtain ⟨g, gateway, offers, isId, rfl⟩ := uriOf_some known
    exact catalogued'.uriOf ((same g gateway isId).mpr offers) isId

/-! ## Looking for a gateway -/

theorem findGateway_some {l : List GatewayId} (run : findGateway s id l = .ok (some g)) :
    g ∈ l ∧ ∃ gateway, s.gateways.get g = some gateway ∧ gateway.gatewayId = id := by
  induction l with
  | nil => cases run
  | cons g' rest ih =>
    obtain ⟨gateway, live, run⟩ := Fallible.bind_eq_ok.mp run
    split at run
    next isId =>
      cases run
      exact ⟨List.mem_cons_self, gateway, load_eq_ok.mp live, isId⟩
    next =>
      obtain ⟨mem, found⟩ := ih run
      exact ⟨List.mem_cons_of_mem g' mem, found⟩

theorem findGateway_none {l : List GatewayId} (run : findGateway s id l = .ok none) :
    ∀ g ∈ l, ∀ gateway, s.gateways.get g = some gateway → gateway.gatewayId ≠ id := by
  induction l with
  | nil => exact fun g mem => absurd mem List.not_mem_nil
  | cons g' rest ih =>
    obtain ⟨found, live, run⟩ := Fallible.bind_eq_ok.mp run
    rw [load_eq_ok] at live
    split at run
    next => cases run
    next other =>
      intro g mem gateway live'
      rcases List.mem_cons.mp mem with rfl | mem
      · cases live.symm.trans live'
        exact other
      · exact ih run g mem gateway live'

/-- The pass finds the gateway with an id exactly if it is in the list. -/
theorem findGateway_uriOf {o : Option GatewayId}
    (run : findGateway s id s.gatewayList = .ok o) : o = none ↔ s.uriOf id = none := by
  rw [uriOf_eq_none]
  cases o with
  | none =>
    exact iff_of_true rfl fun g gateway ⟨mem, live⟩ => findGateway_none run g mem gateway live
  | some g =>
    obtain ⟨mem, gateway, live, isId⟩ := findGateway_some run
    exact iff_of_false (fun none => by cases none) fun other =>
      other g gateway ⟨mem, live⟩ isId

/-! ## One row -/

/-- What the row makes of the URI string of the gateway `id`. -/
def GatewayRow.mirror (id : Nat) (uri : Option (Option String)) (row : GatewayRow) :
    Option (Option String) :=
  if row.id ≠ id then uri
  else if uri.any (strCaseEq (some row.uristr)) then uri
  else row.sipUri.map fun _ => some row.uristr

theorem Catalogued.next_not_mem (catalogued : Catalogued s) : s.gateways.next ∉ s.gatewayList := by
  intro mem
  obtain ⟨gateway, live⟩ := catalogued.live _ mem
  rw [Heap.get_next] at live
  cases live

/-- What `pullGateway` can do. -/
inductive GatewayResult (s : Sys) (row : GatewayRow) : Sys → Prop
  | same {g : GatewayId} {gateway : Gateway} : s.Offers g gateway → gateway.gatewayId = row.id →
      strCaseEq (some row.uristr) gateway.uriStr = true → GatewayResult s row s
  | changed {g : GatewayId} {gateway : Gateway} {uri : SipUri} : s.Offers g gateway →
      gateway.gatewayId = row.id → strCaseEq (some row.uristr) gateway.uriStr = false →
      row.sipUri = some uri →
      GatewayResult s row { s with gateways := s.gateways.modify g fun gateway =>
        { gateway with uriStr := some row.uristr, sipUri := uri } }
  | destroyed {g : GatewayId} {gateway : Gateway} : s.Offers g gateway →
      gateway.gatewayId = row.id → strCaseEq (some row.uristr) gateway.uriStr = false →
      row.sipUri = none →
      GatewayResult s row { s with
        gateways := s.gateways.free g, gatewayList := s.gatewayList.erase g }
  | created {uri : SipUri} : s.uriOf row.id = none → row.sipUri = some uri →
      GatewayResult s row { s with
        gateways := s.gateways.alloc
          { gatewayId := row.id, uriStr := some row.uristr, sipUri := uri }
        gatewayList := s.gatewayList ++ [s.gateways.next] }
  | refused : s.uriOf row.id = none → row.sipUri = none →
      GatewayResult s row { s with
        gateways := (s.gateways.alloc { gatewayId := row.id }).free s.gateways.next }

theorem pullGateway_cases (catalogued : Catalogued s) (run : pullGateway s row = .ok s') :
    GatewayResult s row s' := by
  obtain ⟨found, search, run⟩ := Fallible.bind_eq_ok.mp run
  cases found with
  | some g =>
    obtain ⟨mem, gateway, live, isId⟩ := findGateway_some search
    obtain ⟨gateway', live', run⟩ := Fallible.bind_eq_ok.mp run
    cases live.symm.trans (load_eq_ok.mp live')
    cases run
    split
    next same => exact .same ⟨mem, live⟩ isId same
    next other =>
      rw [Bool.not_eq_true] at other
      unfold setGatewayUri
      cases decoded : row.sipUri with
      | some uri => exact .changed ⟨mem, live⟩ isId other decoded
      | none => exact .destroyed ⟨mem, live⟩ isId other decoded
  | none =>
    have unknown : s.uriOf row.id = none := (findGateway_uriOf search).mp rfl
    cases run
    unfold setGatewayUri
    cases decoded : row.sipUri with
    | some uri =>
      dsimp only
      rw [Heap.modify_alloc_next]
      exact .created unknown decoded
    | none =>
      dsimp only
      rw [List.erase_append_right _ catalogued.next_not_mem, List.erase_cons_head, List.append_nil]
      exact .refused unknown decoded

/-- In `s'` the gateway `new`, if any, is at `g₀`, where the one with the id of the row
was, and the others are as in `s`. -/
structure Mirrored (s : Sys) (row : GatewayRow) (g₀ : GatewayId) (new : Option Gateway) (s' : Sys) :
    Prop where
  here : ∀ g gateway, s.Offers g gateway → (g = g₀ ↔ gateway.gatewayId = row.id)
  isRow : ∀ gateway ∈ new, gateway.gatewayId = row.id
  uri : new.map Gateway.uriStr = row.mirror row.id (s.uriOf row.id)
  offers : ∀ g gateway, s'.Offers g gateway ↔
    if g = g₀ then new = some gateway else s.Offers g gateway
  live : ∀ g ∈ s'.gatewayList, ∃ gateway, s'.gateways.get g = some gateway
  nodup : s'.gatewayList.Nodup

/-- The gateway with an id is at one address. -/
theorem Catalogued.at_iff (catalogued : Catalogued s) (offers : s.Offers g gateway)
    (isId : gateway.gatewayId = id) (g' : GatewayId) (gateway' : Gateway)
    (offers' : s.Offers g' gateway') : g' = g ↔ gateway'.gatewayId = id := by
  refine ⟨?_, fun isId' =>
    catalogued.unique g' gateway' g gateway offers' offers (isId'.trans isId.symm)⟩
  rintro rfl
  cases offers.2.symm.trans offers'.2
  exact isId

/-- With an unknown id a new gateway takes the place of none. -/
theorem Catalogued.next_iff (catalogued : Catalogued s) (unknown : s.uriOf id = none)
    (g' : GatewayId) (gateway' : Gateway) (offers' : s.Offers g' gateway') :
    g' = s.gateways.next ↔ gateway'.gatewayId = id := by
  refine iff_of_false ?_ (uriOf_eq_none.mp unknown g' gateway' offers')
  rintro rfl
  exact catalogued.next_not_mem offers'.1

theorem GatewayResult.mirrored (catalogued : Catalogued s) (result : GatewayResult s row s') :
    ∃ g₀ new, Mirrored s row g₀ new s' := by
  cases result with
  | @same g gateway offers isId same =>
    refine ⟨g, some gateway, ⟨catalogued.at_iff offers isId,
      fun _ mem => by cases mem; exact isId, ?_, fun g' gateway' => ?_, catalogued.live,
      catalogued.nodup⟩⟩
    · simp [GatewayRow.mirror, catalogued.uriOf offers isId, same]
    · split
      next here =>
        rw [here, Sys.Offers, offers.2, and_iff_right offers.1]
      next => rfl
  | @changed g gateway uri offers isId other decoded =>
    refine ⟨g, some { gateway with uriStr := some row.uristr, sipUri := uri },
      ⟨catalogued.at_iff offers isId, fun _ mem => by cases mem; exact isId, ?_,
        fun g' gateway' => ?_, fun g' mem => ?_, catalogued.nodup⟩⟩
    · simp [GatewayRow.mirror, catalogued.uriOf offers isId, other, decoded]
    · rw [Sys.Offers, Heap.get_modify]
      split
      next here => rw [here, offers.2, and_iff_right offers.1, Option.map_some]
      next => rfl
    · obtain ⟨gateway', live⟩ := catalogued.live g' mem
      rw [Heap.get_modify, live]
      split
      · exact ⟨_, rfl⟩
      · exact ⟨_, rfl⟩
  | @destroyed g gateway offers isId other decoded =>
    refine ⟨g, none, ⟨catalogued.at_iff offers isId, (fun _ mem => by cases mem), ?_,
      fun g' gateway' => ?_, fun g' mem => ?_, catalogued.nodup.erase g⟩⟩
    · simp [GatewayRow.mirror, catalogued.uriOf offers isId, other, decoded]
    · rw [Sys.Offers, Heap.get_free, catalogued.nodup.mem_erase_iff]
      split
      next here => exact iff_of_false (fun held => held.1.1 here) (fun none => by cases none)
      next ne => rw [and_assoc, and_iff_right ne]; rfl
    · obtain ⟨ne, mem⟩ := catalogued.nodup.mem_erase_iff.mp mem
      obtain ⟨gateway', live⟩ := catalogued.live g' mem
      exact ⟨gateway', (Heap.get_free_ne ne).trans live⟩
  | @created uri unknown decoded =>
    refine ⟨s.gateways.next, some { gatewayId := row.id, uriStr := some row.uristr, sipUri := uri },
      ⟨catalogued.next_iff unknown, fun _ mem => by cases mem; rfl, ?_, fun g' gateway' => ?_,
        fun g' mem => ?_, ?_⟩⟩
    · simp [GatewayRow.mirror, unknown, decoded]
    · rw [Sys.Offers, Heap.get_alloc, List.mem_append, List.mem_singleton]
      split
      next here => rw [and_iff_right (.inr here)]
      next ne => rw [or_iff_left ne]; rfl
    · rw [Heap.get_alloc]
      split
      · exact ⟨_, rfl⟩
      next ne =>
        exact catalogued.live g' ((List.mem_append.mp mem).resolve_right fun mem =>
          ne (List.mem_singleton.mp mem))
    · exact catalogued.nodup.append (List.nodup_singleton _)
        (List.disjoint_singleton.mpr catalogued.next_not_mem)
  | refused unknown decoded =>
    refine ⟨s.gateways.next, none, ⟨catalogued.next_iff unknown, (fun _ mem => by cases mem), ?_,
      fun g' gateway' => ?_, fun g' mem => ?_, catalogued.nodup⟩⟩
    · simp [GatewayRow.mirror, unknown, decoded]
    · rw [Sys.Offers, Heap.get_free, Heap.get_alloc]
      split
      next here => exact iff_of_false (fun held => by cases held.2) (fun none => by cases none)
      next => rfl
    · obtain ⟨gateway', live⟩ := catalogued.live g' mem
      have ne := Heap.ne_next live
      exact ⟨gateway', by rw [Heap.get_free_ne ne, Heap.get_alloc_of_live live]⟩

namespace Mirrored

variable {g₀ : GatewayId} {new : Option Gateway}

theorem catalogued (mirrored : Mirrored s row g₀ new s') (catalogued : Catalogued s) :
    Catalogued s' where
  live := mirrored.live
  nodup := mirrored.nodup
  unique := by
    intro g gateway g' gateway' offers offers' same
    rw [mirrored.offers] at offers offers'
    split at offers
    next here =>
      split at offers'
      next here' => exact here.trans here'.symm
      next other =>
        exact absurd ((mirrored.here g' gateway' offers').mpr
          (same.symm.trans (mirrored.isRow gateway offers))) other
    next other =>
      split at offers'
      next here' =>
        exact absurd ((mirrored.here g gateway offers).mpr
          (same.trans (mirrored.isRow gateway' offers'))) other
      next => exact catalogued.unique g gateway g' gateway' offers offers' same

theorem uriOf (mirrored : Mirrored s row g₀ new s') (catalogued : Catalogued s) :
    s'.uriOf id = row.mirror id (s.uriOf id) := by
  rcases eq_or_ne row.id id with rfl | ne
  · rw [← mirrored.uri]
    cases isNew : new with
    | none =>
      refine uriOf_eq_none.mpr fun g gateway offers isId => ?_
      rw [mirrored.offers, isNew] at offers
      split at offers
      · cases offers
      next other => exact other ((mirrored.here g gateway offers).mpr isId)
    | some gateway =>
      have offers : s'.Offers g₀ gateway :=
        (mirrored.offers g₀ gateway).mpr (by rw [if_pos rfl, isNew])
      exact (mirrored.catalogued catalogued).uriOf offers (mirrored.isRow gateway isNew)
  · rw [GatewayRow.mirror, if_pos ne]
    refine uriOf_congr (mirrored.catalogued catalogued) fun g gateway isId => ?_
    rw [mirrored.offers]
    split
    next here =>
      refine iff_of_false (fun isNew => ne ((mirrored.isRow gateway isNew).symm.trans isId))
        fun offers => ?_
      exact ne (((mirrored.here g gateway offers).mp here).symm.trans isId)
    next => rfl

/-- A gateway is kept, unless no gateway with its id is left. -/
theorem kept (mirrored : Mirrored s row g₀ new s') (offers : s.Offers g gateway)
    (catalogued : Catalogued s) (left : s'.uriOf gateway.gatewayId ≠ none) :
    ∃ gateway', s'.Offers g gateway' ∧ gateway'.gatewayId = gateway.gatewayId := by
  rcases eq_or_ne g g₀ with rfl | ne
  · have isRow := (mirrored.here g gateway offers).mp rfl
    cases isNew : new with
    | none =>
      rw [isRow, mirrored.uriOf catalogued, ← mirrored.uri, isNew] at left
      exact absurd rfl left
    | some gateway' =>
      refine ⟨gateway', (mirrored.offers g gateway').mpr ?_, ?_⟩
      · rw [if_pos rfl, isNew]
      · rw [mirrored.isRow gateway' isNew, isRow]
  · exact ⟨gateway, (mirrored.offers g gateway).mpr (by rw [if_neg ne]; exact offers), rfl⟩

end Mirrored

/-! ## The rows -/

theorem pullGateway_mirrored (catalogued : Catalogued s) (run : pullGateway s row = .ok s') :
    ∃ g₀ new, Mirrored s row g₀ new s' :=
  (pullGateway_cases catalogued run).mirrored catalogued

/-- The URI string that the rows leave to the gateway with this id. -/
def Sys.uriAfter (s : Sys) (rows : List GatewayRow) (id : Nat) : Option (Option String) :=
  rows.foldl (GatewayRow.mirror id) (s.uriOf id)

theorem pullGateways_catalogued (catalogued : Catalogued s) (run : pullGateways s rows = .ok s') :
    Catalogued s' :=
  Fallible.foldlM_rule (I := fun _ t => Catalogued t)
    (fun _ _ _ _ catalogued run =>
      let ⟨_, _, mirrored⟩ := pullGateway_mirrored catalogued run
      mirrored.catalogued catalogued)
    catalogued run

theorem pullGateways_uriOf (catalogued : Catalogued s) (run : pullGateways s rows = .ok s')
    (id : Nat) : s'.uriOf id = s.uriAfter rows id := by
  have account := Fallible.foldlM_rule
    (I := fun rest t => Catalogued t ∧ t.uriAfter rest id = s.uriAfter rows id)
    (fun row rest t t' ⟨catalogued, same⟩ run => by
      obtain ⟨_, _, mirrored⟩ := pullGateway_mirrored catalogued run
      refine ⟨mirrored.catalogued catalogued, ?_⟩
      rw [Sys.uriAfter, mirrored.uriOf catalogued]
      exact same)
    ⟨catalogued, rfl⟩ run
  exact account.2

/-- Some first part of the rows leaves no gateway with this id. -/
def Sys.Loses (s : Sys) (rows : List GatewayRow) (id : Nat) : Prop :=
  ∃ first, first <+: rows ∧ s.uriAfter first id = none

theorem pullGateways_offers (catalogued : Catalogued s) (run : pullGateways s rows = .ok s')
    (offers : s.Offers g gateway) (kept : ¬ s.Loses rows gateway.gatewayId) :
    ∃ gateway', s'.Offers g gateway' ∧ gateway'.gatewayId = gateway.gatewayId := by
  have account := Fallible.foldlM_rule (I := fun rest t => Catalogued t ∧
      (∃ gateway', t.Offers g gateway' ∧ gateway'.gatewayId = gateway.gatewayId) ∧
      ¬ t.Loses rest gateway.gatewayId)
    (fun row rest t t' ⟨catalogued, ⟨gateway', offers, sameId⟩, kept⟩ run => by
      obtain ⟨_, _, mirrored⟩ := pullGateway_mirrored catalogued run
      have after : ∀ first, first <+: rest →
          t'.uriAfter first gateway.gatewayId ≠ none := by
        intro first isFirst lost
        rw [Sys.uriAfter, mirrored.uriOf catalogued] at lost
        exact kept ⟨row :: first, List.cons_prefix_cons.mpr ⟨rfl, isFirst⟩, lost⟩
      refine ⟨mirrored.catalogued catalogued, ?_,
        fun ⟨first, isFirst, lost⟩ => after first isFirst lost⟩
      rw [← sameId] at after ⊢
      exact mirrored.kept offers catalogued (after [] List.nil_prefix))
    ⟨catalogued, ⟨gateway, offers, rfl⟩, kept⟩ run
  exact account.2.1

/-! ## The step -/

theorem Catalogued.congr (catalogued : Catalogued s) (gateways : s'.gateways = s.gateways)
    (gatewayList : s'.gatewayList = s.gatewayList) : Catalogued s' := by
  have same : ∀ g gateway, s'.Offers g gateway ↔ s.Offers g gateway := by
    intro g gateway
    rw [Sys.Offers, gateways, gatewayList]
    rfl
  exact
    { live := by rw [gateways, gatewayList]; exact catalogued.live
      nodup := by rw [gatewayList]; exact catalogued.nodup
      unique := fun g gateway g' gateway' offers offers' =>
        catalogued.unique g gateway g' gateway' ((same g gateway).mp offers)
          ((same g' gateway').mp offers') }

theorem Catalogued.boot (n : Nat) (audioPath : String) : Catalogued (Sys.boot n audioPath) where
  live _ mem := by cases mem
  nodup := List.nodup_nil
  unique _ _ _ _ offers := by cases offers.1

/-- The campaigns and services that a pass reads leave the gateways as the rows of the
gateways have left them. -/
theorem pullGroups_gateways {snap : Snapshot} (run : pullGroups s snap = .ok s') :
    (snap.gateways = none ∧ s' = s) ∨ ∃ rows t, snap.gateways = some rows ∧
      pullGateways s rows = .ok t ∧ s'.gateways = t.gateways ∧ s'.gatewayList = t.gatewayList := by
  rcases pullGroups_cases run with none | ⟨gateways, t, isSome, pulled, rest⟩
  · exact .inl none
  · refine .inr ⟨gateways, t, isSome, pulled, ?_⟩
    rcases rest with ⟨-, rfl⟩ | ⟨rows, u, -, campaigns, services⟩
    · exact ⟨rfl, rfl⟩
    · have read := Fallible.foldlM_rule
        (I := fun _ u => u.gateways = t.gateways ∧ u.gatewayList = t.gatewayList)
        (fun _ _ _ _ ⟨gateways, list⟩ run =>
          have same := pullCampaign_gateways run
          ⟨same.1.trans gateways, same.2.trans list⟩)
        ⟨rfl, rfl⟩ campaigns
      exact Fallible.foldlM_rule
        (I := fun _ u => u.gateways = t.gateways ∧ u.gatewayList = t.gatewayList)
        (fun _ _ _ _ ⟨gateways, list⟩ run =>
          have same := pullService_gateways run
          ⟨same.1.trans gateways, same.2.trans list⟩)
        read services

theorem step_catalogued (inv : Inv ans s) (catalogued : Catalogued s) (step : dialer.step s e s') :
    Catalogued s' := by
  cases main : e.isMain with
  | true =>
    have same := mainStep_config inv main step
    exact catalogued.congr same.gateways same.gatewayList
  | false =>
    obtain ⟨snap, rfl, run⟩ := pass_of_step step main
    rcases pullGroups_gateways run with ⟨-, rfl⟩ | ⟨rows, t, -, pulled, gateways, list⟩
    · exact catalogued
    · exact (pullGateways_catalogued catalogued pulled).congr gateways list

end Autodialer
