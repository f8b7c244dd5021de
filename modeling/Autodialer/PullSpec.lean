import Autodialer.Pull
import Autodialer.TickSpec

/-!
# What a pass of `pull_groups` does

The pass is a fold of three bodies: one for each gateway row, one for each
campaign row, one for each campaign. `pullGroups_rule` is its invariant rule,
and each body has a lemma that says what it does.
-/

namespace Autodialer

variable {s s' t : Sys} {d : DestId} {cp : CampId} {dest : Destination} {camp : Campaign}

/-! ## Gateways -/

theorem findGateway_pure {id : Nat} {l : List GatewayId} {g : Option GatewayId}
    (run : findGateway s id l = .ok g) : ∀ g' ∈ g, g' ∈ l := by
  induction l with
  | nil =>
    cases run
    intro g' mem
    cases mem
  | cons g₀ rest ih =>
    obtain ⟨gateway, -, run⟩ := Fallible.bind_eq_ok.mp run
    split at run
    · cases run
      intro g' mem
      cases mem
      exact List.mem_cons_self
    · exact fun g' mem => List.mem_cons_of_mem _ (ih run g' mem)

theorem findGateway_congr (same : t.gateways = s.gateways) (id : Nat) (l : List GatewayId) :
    findGateway t id l = findGateway s id l := by
  induction l with
  | nil => rfl
  | cons g rest ih => simp only [findGateway, same, ih]

/-- A gateway row touches the gateways only. -/
theorem pullGateway_frame {row : GatewayRow} (run : pullGateway s row = .ok s') :
    s' = { s with gateways := s'.gateways, gatewayList := s'.gatewayList } := by
  have uri : ∀ (t : Sys) (g : GatewayId), setGatewayUri t g row =
      { t with
        gateways := (setGatewayUri t g row).gateways
        gatewayList := (setGatewayUri t g row).gatewayList } := by
    intro t g
    unfold setGatewayUri
    split <;> rfl
  obtain ⟨found, -, run⟩ := Fallible.bind_eq_ok.mp run
  split at run
  · obtain ⟨gateway, -, run⟩ := Fallible.bind_eq_ok.mp run
    split at run
    · cases run
      rfl
    · cases run
      exact uri s _
  · cases run
    exact uri _ _

/-! ## Campaigns -/

theorem findCampaign_some {id : Nat} {l : List CampId}
    (run : findCampaign s id l = .ok (some cp)) :
    cp ∈ l ∧ ∃ camp, s.book.camps.get cp = some camp ∧ camp.campaignId = id := by
  induction l with
  | nil => cases run
  | cons cp₀ rest ih =>
    obtain ⟨camp, live, run⟩ := Fallible.bind_eq_ok.mp run
    split at run
    next same =>
      cases run
      exact ⟨List.mem_cons_self, camp, load_eq_ok.mp live, same⟩
    next =>
      obtain ⟨mem, rest⟩ := ih run
      exact ⟨List.mem_cons_of_mem _ mem, rest⟩

theorem findCampaign_none {id : Nat} {l : List CampId} (run : findCampaign s id l = .ok none) :
    ∀ cp ∈ l, ∃ camp, s.book.camps.get cp = some camp ∧ camp.campaignId ≠ id := by
  induction l with
  | nil => intro cp mem; cases mem
  | cons cp₀ rest ih =>
    obtain ⟨camp, live, run⟩ := Fallible.bind_eq_ok.mp run
    split at run
    · cases run
    next other =>
      intro cp mem
      rcases List.mem_cons.mp mem with rfl | mem
      · exact ⟨camp, load_eq_ok.mp live, other⟩
      · exact ih run cp mem

/-- The body of a flush: the element is destroyed with its call, and the lists
are left as they are. -/
theorem flushDests_cons {rest : List DestId} (run : flushDests (d :: rest) s = .ok s') :
    ∃ dest media, s.book.dests.get d = some dest ∧
      (match dest.call with
        | some c => memDerefCall callDepth s.media c = .ok media
        | none => media = s.media) ∧
      flushDests rest
        { s with media := media, book := { s.book with dests := s.book.dests.free d } } = .ok s' := by
  obtain ⟨t, destroyed, run⟩ := Fallible.bind_eq_ok.mp run
  have live : ∃ dest, s.book.dests.get d = some dest := by
    obtain ⟨dest, live, -⟩ := Fallible.bind_eq_ok.mp destroyed
    rw [Sys.loadDest, load_eq_ok, Sys.setDest, Book.dests_setDest, Heap.get_modify_self] at live
    obtain ⟨old, live, -⟩ := Option.map_eq_some_iff.mp live
    exact ⟨old, live⟩
  obtain ⟨dest, live⟩ := live
  have unlinked : (s.setDest d fun dest => { dest with le := none }).book.dests.get d =
      some { dest with le := none } := by
    simp [Sys.setDest, live]
  obtain ⟨media, gone, rfl⟩ := memDerefDest_cases unlinked destroyed
  refine ⟨dest, media, live, gone, ?_⟩
  have noLink : listUnlink (s.setDest d fun dest => { dest with le := none }).book d =
      (s.setDest d fun dest => { dest with le := none }).book := by
    rw [listUnlink, Book.linkedOn_eq unlinked]
  have same : (s.setDest d fun dest => { dest with le := none }).book.remove d =
      { s.book with dests := s.book.dests.free d } := by
    rw [Book.remove, noLink]
    simp only [Sys.setDest, Book.setDest, Heap.free_modify]
  rw [same] at run
  exact run

/-- What a flush does to the contacts. -/
theorem flushDests_book {l : List DestId} (run : flushDests l s = .ok s') :
    (∀ e, s'.book.dests.get e = if e ∈ l then none else s.book.dests.get e) ∧
      s'.book.camps = s.book.camps ∧ s'.book.dests.next = s.book.dests.next := by
  induction l generalizing s with
  | nil =>
    cases run
    exact ⟨fun e => by simp, rfl, rfl⟩
  | cons d rest ih =>
    obtain ⟨dest, media, -, -, run⟩ := flushDests_cons run
    obtain ⟨dests, camps, next⟩ := ih run
    refine ⟨fun e => ?_, camps, next⟩
    rw [dests, Heap.get_free]
    by_cases here : e = d <;> simp [here]

/-- A flush touches nothing but calls and contacts. -/
theorem flushDests_frame {l : List DestId} (run : flushDests l s = .ok s') :
    s' = { s with media := s'.media, book := s'.book } := by
  induction l generalizing s with
  | nil =>
    cases run
    rfl
  | cons d rest ih =>
    obtain ⟨dest, media, -, -, run⟩ := flushDests_cons run
    have others := ih run
    exact others

theorem flushDests_append {l l' : List DestId} :
    flushDests (l ++ l') s = (flushDests l s >>= flushDests l') := by
  induction l generalizing s with
  | nil => rfl
  | cons d rest ih =>
    rw [List.cons_append, flushDests, flushDests, bind_assoc]
    exact congrArg _ (funext fun t => ih)

/-- A destroyed campaign takes its contacts and its actions with it. -/
theorem memDerefCampaign_cases (run : memDerefCampaign s cp = .ok s') :
    ∃ camp t, s.book.camps.get cp = some camp ∧
      flushDests (camp.destinations ++ camp.processl)
        { s with services := s.services.erase cp } = .ok t ∧
      s' = { t with
        actions := flushActions t.actions camp.actions
        book := { t.book with camps := t.book.camps.free cp } } := by
  obtain ⟨camp, live, run⟩ := Fallible.bind_eq_ok.mp run
  obtain ⟨t, first, run⟩ := Fallible.bind_eq_ok.mp run
  obtain ⟨t', second, run⟩ := Fallible.bind_eq_ok.mp run
  cases run
  refine ⟨camp, t', load_eq_ok.mp live, ?_, rfl⟩
  rw [flushDests_append, first]
  exact second

/-- A row is read into its campaign, with the gateways that are found for it, or the
campaign is destroyed. -/
theorem readCampaign_finds {row : CampaignRow} (run : readCampaign s cp row = .ok s') :
    ∃ camp, s.book.camps.get cp = some camp ∧
      ((3 < row.status % 2 ^ 8 ∧ camp.processl = [] ∧
          memDerefCampaign (s.setCamp cp fun camp => camp.readHead row) cp = .ok s') ∨
        (¬ (3 < row.status % 2 ^ 8 ∧ camp.processl = []) ∧ ∃ gateway pbxGateway,
          findGateway s row.gatewayId s.gatewayList = .ok gateway ∧
          findGateway s row.pbxGatewayId s.gatewayList = .ok pbxGateway ∧
          s' = s.setCamp cp fun camp => (camp.readHead row).readTail row gateway pbxGateway)) := by
  obtain ⟨head, live, run⟩ := Fallible.bind_eq_ok.mp run
  rw [Sys.loadCamp, load_eq_ok, Sys.setCamp, Book.camps_setCamp, Heap.get_modify_self] at live
  obtain ⟨camp, old, rfl⟩ := Option.map_eq_some_iff.mp live
  refine ⟨camp, old, ?_⟩
  have status : (camp.readHead row).campaignStatus = row.status % 2 ^ 8 := rfl
  have list : (camp.readHead row).processl = camp.processl := rfl
  rw [status, list] at run
  split at run
  next stop =>
    simp only [Bool.and_eq_true, decide_eq_true_eq, List.isEmpty_iff] at stop
    exact .inl ⟨stop.1, stop.2, run⟩
  next go =>
    simp only [Bool.and_eq_true, decide_eq_true_eq, List.isEmpty_iff] at go
    obtain ⟨gateway, found, run⟩ := Fallible.bind_eq_ok.mp run
    obtain ⟨pbxGateway, foundPbx, run⟩ := Fallible.bind_eq_ok.mp run
    cases run
    rw [findGateway_congr (s := s) (by rfl)] at found foundPbx
    refine .inr ⟨go, gateway, pbxGateway, found, foundPbx, ?_⟩
    simp only [Sys.setCamp, Book.setCamp, Heap.modify_modify]

theorem readCampaign_cases {row : CampaignRow} (run : readCampaign s cp row = .ok s') :
    ∃ camp, s.book.camps.get cp = some camp ∧
      ((3 < row.status % 2 ^ 8 ∧ camp.processl = [] ∧
          memDerefCampaign (s.setCamp cp fun camp => camp.readHead row) cp = .ok s') ∨
        (¬ (3 < row.status % 2 ^ 8 ∧ camp.processl = []) ∧ ∃ gateway pbxGateway,
          s' = s.setCamp cp fun camp => (camp.readHead row).readTail row gateway pbxGateway)) := by
  obtain ⟨camp, live, stop | ⟨go, gateway, pbxGateway, -, -, read⟩⟩ := readCampaign_finds run
  · exact ⟨camp, live, .inl stop⟩
  · exact ⟨camp, live, .inr ⟨go, gateway, pbxGateway, read⟩⟩

/-- The state with a new campaign at the end of `services`. -/
def Sys.createCamp (s : Sys) : Sys :=
  { s with
    book := { s.book with camps := s.book.camps.alloc {} }
    services := s.services ++ [s.book.camps.next] }

/-- A campaign is the new one or one that was there. -/
theorem createCamp_camps (live : s.createCamp.book.camps.get cp = some camp) :
    (cp = s.book.camps.next ∧ camp = {}) ∨
      (cp ≠ s.book.camps.next ∧ s.book.camps.get cp = some camp) := by
  change (s.book.camps.alloc {}).get cp = some camp at live
  rw [Heap.get_alloc] at live
  split at live
  next new =>
    cases live
    exact .inl ⟨new, rfl⟩
  next old => exact .inr ⟨old, live⟩

theorem createCamp_new (s : Sys) : s.createCamp.book.camps.get s.book.camps.next = some {} :=
  (Heap.get_alloc ..).trans (if_pos rfl)

theorem pullCampaign_cases {row : CampaignRow} (run : pullCampaign s row = .ok s') :
    (s' = s ∧ row.status ≠ 2 ∧
        ∀ cp ∈ s.services, ∃ camp, s.book.camps.get cp = some camp ∧ camp.campaignId ≠ row.id) ∨
      (∃ cp ∈ s.services, (∃ camp, s.book.camps.get cp = some camp ∧ camp.campaignId = row.id) ∧
        readCampaign s cp row = .ok s') ∨
      (row.status = 2 ∧
        (∀ cp ∈ s.services, ∃ camp, s.book.camps.get cp = some camp ∧ camp.campaignId ≠ row.id) ∧
        readCampaign s.createCamp s.book.camps.next row = .ok s') := by
  obtain ⟨found, search, run⟩ := Fallible.bind_eq_ok.mp run
  cases found with
  | some cp =>
    obtain ⟨mem, here⟩ := findCampaign_some search
    exact .inr (.inl ⟨cp, mem, here, run⟩)
  | none =>
    dsimp only at run
    split at run
    next other =>
      cases run
      exact .inl ⟨rfl, other, findCampaign_none search⟩
    next active => exact .inr (.inr ⟨not_not.mp active, findCampaign_none search, run⟩)

/-- A campaign row leaves the gateways alone. -/
theorem readCampaign_gateways {row : CampaignRow} (run : readCampaign s cp row = .ok s') :
    s'.gateways = s.gateways ∧ s'.gatewayList = s.gatewayList := by
  obtain ⟨camp, -, ⟨-, -, run⟩ | ⟨-, gateway, pbxGateway, rfl⟩⟩ := readCampaign_cases run
  · obtain ⟨_, t, -, flushed, rfl⟩ := memDerefCampaign_cases run
    have gateways := congrArg Sys.gateways (flushDests_frame flushed)
    have list := congrArg Sys.gatewayList (flushDests_frame flushed)
    exact ⟨gateways, list⟩
  · exact ⟨rfl, rfl⟩

theorem pullCampaign_gateways {row : CampaignRow} (run : pullCampaign s row = .ok s') :
    s'.gateways = s.gateways ∧ s'.gatewayList = s.gatewayList := by
  rcases pullCampaign_cases run with ⟨rfl, -⟩ | ⟨cp, -, -, run⟩ | ⟨-, -, run⟩
  · exact ⟨rfl, rfl⟩
  · exact readCampaign_gateways run
  · have created := readCampaign_gateways run
    exact created

/-- Reading a campaign enqueues no statement. -/
theorem readCampaign_db {row : CampaignRow} (run : readCampaign s cp row = .ok s') :
    s'.db = s.db := by
  obtain ⟨camp, -, ⟨-, -, run⟩ | ⟨-, gateway, pbxGateway, rfl⟩⟩ := readCampaign_cases run
  · obtain ⟨_, t, -, flushed, rfl⟩ := memDerefCampaign_cases run
    have db := congrArg Sys.db (flushDests_frame flushed)
    exact db
  · rfl

theorem pullCampaign_db {row : CampaignRow} (run : pullCampaign s row = .ok s') :
    s'.db = s.db := by
  rcases pullCampaign_cases run with ⟨rfl, -⟩ | ⟨cp, -, -, run⟩ | ⟨-, -, run⟩
  · rfl
  · exact readCampaign_db run
  · have created := readCampaign_db run
    exact created

/-! ## Actions -/

theorem flushActions_get (actions : Heap Action) (l : List ActionId) (a : ActionId) :
    (flushActions actions l).get a = if a ∈ l then none else actions.get a := by
  unfold flushActions
  induction l generalizing actions with
  | nil => simp
  | cons a₀ rest ih =>
    rw [List.foldl_cons, ih, Heap.get_free]
    by_cases here : a = a₀ <;> simp [here]

theorem flushActions_next (actions : Heap Action) (l : List ActionId) :
    (flushActions actions l).next = actions.next := by
  unfold flushActions
  induction l generalizing actions with
  | nil => rfl
  | cons a₀ rest ih => rw [List.foldl_cons, ih, Heap.next_free]

/-- `acts` is `actions` without those in `old` and with new ones, which are the
elements of `l`. -/
structure Reloaded (actions : Heap Action) (old : List ActionId) (acts : Heap Action)
    (l : List ActionId) : Prop where
  kept : ∀ a, a < actions.next → acts.get a = if a ∈ old then none else actions.get a
  new : ∀ a ∈ l, actions.next ≤ a ∧ (acts.get a).isSome = true
  next : actions.next ≤ acts.next

theorem Reloaded.unwritten {actions acts : Heap Action} {old l : List ActionId}
    (loaded : Reloaded actions old acts l) : actions.Unwritten acts := by
  refine ⟨loaded.next, fun a action before live => ?_⟩
  rw [loaded.kept a before] at live
  split at live
  · cases live
  · exact live

/-- A new action has the key of its row, and a gateway of the list or none. -/
theorem loadAction_cases {row : ActionRow} (run : loadAction cp s row = .ok s') :
    ∃ action : Action, action.actionKey = row.keyPress % 2 ^ 8 ∧
      (∀ g, action.gateway = some g → g ∈ s.gatewayList) ∧
      s' = { s with actions := s.actions.alloc action }.setCamp cp fun camp =>
        { camp with actions := camp.actions ++ [s.actions.next] } := by
  have target : ∀ {o}, actionTarget s row = .ok o → ∀ g, o.1 = some g → g ∈ s.gatewayList := by
    intro o run g isGateway
    unfold actionTarget at run
    split at run
    · cases run
      cases isGateway
    · split at run
      · obtain ⟨gateway, found, run⟩ := Fallible.bind_eq_ok.mp run
        cases run
        exact findGateway_pure found g isGateway
      · cases run
        cases isGateway
  unfold loadAction at run
  dsimp only at run
  split at run
  · obtain ⟨⟨gateway, dest⟩, found, run⟩ := Fallible.bind_eq_ok.mp run
    cases run
    exact ⟨_, rfl, target found, rfl⟩
  · cases run
    exact ⟨_, rfl, (fun g isGateway => by cases isGateway), rfl⟩

theorem reloadActions_cases {rows : Option (List ActionRow)}
    (run : reloadActions s cp camp rows = .ok s') :
    ∃ acts l, Reloaded s.actions camp.actions acts l ∧
      s' = { s with actions := acts }.setCamp cp fun camp => { camp with actions := l } := by
  obtain ⟨rows, -, run⟩ := Fallible.bind_eq_ok.mp run
  refine Fallible.foldlM_rule
    (I := fun _ t => ∃ acts l, Reloaded s.actions camp.actions acts l ∧
      t = { s with actions := acts }.setCamp cp fun camp => { camp with actions := l })
    ?_ ⟨flushActions s.actions camp.actions, [], ⟨?_, ?_, ?_⟩, rfl⟩ run
  · rintro row rest t t' ⟨acts, l, loaded, rfl⟩ step
    obtain ⟨action, -, -, rfl⟩ := loadAction_cases step
    refine ⟨acts.alloc action, l ++ [acts.next], ⟨?_, ?_, ?_⟩, ?_⟩
    · intro a old
      rw [Heap.get_alloc, if_neg (by have := loaded.next; omega), loaded.kept a old]
    · intro a mem
      rcases List.mem_append.mp mem with mem | mem
      · obtain ⟨above, live⟩ := loaded.new a mem
        refine ⟨above, ?_⟩
        rw [Heap.get_alloc]
        split
        · rfl
        · exact live
      · obtain rfl : a = acts.next := by simpa using mem
        exact ⟨loaded.next, by simp⟩
    · exact Nat.le_succ_of_le loaded.next
    · simp only [Sys.setCamp, Book.setCamp, Heap.modify_modify]
  · intro a _
    rw [flushActions_get]
  · intro a mem
    cases mem
  · rw [flushActions_next]

/-! ## Contacts -/

/-- The rows that a service loads: those of the query if its list is empty. -/
def rowsFor (calls : Nat → Option (List CallRow)) (camp : Campaign) : Option (List CallRow) :=
  if camp.destinations.isEmpty then calls camp.campaignId else some []

theorem pullService_cases {calls : Nat → Option (List CallRow)}
    {actions : Nat → Option (List ActionRow)} (run : pullService calls actions s cp = .ok s') :
    ∃ camp, s.book.camps.get cp = some camp ∧
      ((s' = s ∧ (camp.isRunning = true ∨ rowsFor calls camp = none)) ∨
        (camp.isRunning = false ∧ ∃ rows acts l, rowsFor calls camp = some rows ∧
          Reloaded s.actions camp.actions acts l ∧
          s' = { { s with
              book := rows.foldl (loadContact cp) s.book
              actions := acts }.setCamp cp fun camp => { camp with actions := l } with
            msgq := s.msgq ++ [(camp.campaignId, cp)] })) := by
  obtain ⟨camp, live, run⟩ := Fallible.bind_eq_ok.mp run
  refine ⟨camp, load_eq_ok.mp live, ?_⟩
  split at run
  next running =>
    cases run
    exact .inl ⟨rfl, .inl running⟩
  next stopped =>
    have query : (if camp.destinations.isEmpty then calls camp.campaignId else some []) =
        rowsFor calls camp := rfl
    rw [query] at run
    cases found : rowsFor calls camp with
    | none =>
      rw [found] at run
      cases run
      exact .inl ⟨rfl, .inr rfl⟩
    | some rows =>
      rw [found] at run
      obtain ⟨t, reloaded, run⟩ := Fallible.bind_eq_ok.mp run
      obtain ⟨acts, l, loaded, rfl⟩ := reloadActions_cases reloaded
      cases run
      exact .inr ⟨by simpa using stopped, rows, acts, l, rfl, loaded, rfl⟩

theorem pullService_services {calls : Nat → Option (List CallRow)}
    {actions : Nat → Option (List ActionRow)} (run : pullService calls actions s cp = .ok s') :
    s'.services = s.services := by
  obtain ⟨camp, -, ⟨rfl, -⟩ | ⟨-, rows, acts, l, -, -, rfl⟩⟩ := pullService_cases run
  · rfl
  · rfl

theorem pullService_gateways {calls : Nat → Option (List CallRow)}
    {actions : Nat → Option (List ActionRow)} (run : pullService calls actions s cp = .ok s') :
    s'.gateways = s.gateways ∧ s'.gatewayList = s.gatewayList := by
  obtain ⟨camp, -, ⟨rfl, -⟩ | ⟨-, rows, acts, l, -, -, rfl⟩⟩ := pullService_cases run
  · exact ⟨rfl, rfl⟩
  · exact ⟨rfl, rfl⟩

theorem pullService_db {calls : Nat → Option (List CallRow)}
    {actions : Nat → Option (List ActionRow)} (run : pullService calls actions s cp = .ok s') :
    s'.db = s.db := by
  obtain ⟨camp, -, ⟨rfl, -⟩ | ⟨-, rows, acts, l, -, -, rfl⟩⟩ := pullService_cases run
  · rfl
  · rfl

/-- A service asks for the actions of its own campaign only. -/
theorem pullService_actions {camp : Campaign} (calls : Nat → Option (List CallRow))
    (actions : Nat → Option (List ActionRow)) (live : s.book.camps.get cp = some camp) :
    pullService calls (fun _ => actions camp.campaignId) s cp = pullService calls actions s cp := by
  simp only [pullService, Sys.loadCamp, load, live, Fallible.get?_some, Fallible.ok_bind]

/-! ## The pass -/

theorem pullGateways_book {rows : List GatewayRow} (run : pullGateways s rows = .ok s') :
    s'.book = s.book := by
  refine Fallible.foldlM_rule (I := fun _ t => t.book = s.book) ?_ rfl run
  intro row rest t t' same run
  rw [pullGateway_frame run]
  exact same

theorem pullGateways_services {rows : List GatewayRow} (run : pullGateways s rows = .ok s') :
    s'.services = s.services :=
  Fallible.foldlM_rule (I := fun _ t => t.services = s.services)
    (fun _ _ t t' same run => by rw [pullGateway_frame run]; exact same) rfl run

theorem pullGateways_actions {rows : List GatewayRow} (run : pullGateways s rows = .ok s') :
    s'.actions = s.actions :=
  Fallible.foldlM_rule (I := fun _ t => t.actions = s.actions)
    (fun _ _ t t' same run => by rw [pullGateway_frame run]; exact same) rfl run

theorem pullGateways_db {rows : List GatewayRow} (run : pullGateways s rows = .ok s') :
    s'.db = s.db :=
  Fallible.foldlM_rule (I := fun _ t => t.db = s.db)
    (fun row _ t t' db run => by rw [pullGateway_frame run]; exact db) rfl run

theorem pullCampaigns_db {rows : List CampaignRow} (run : pullCampaigns s rows = .ok s') :
    s'.db = s.db :=
  Fallible.foldlM_rule (I := fun _ t => t.db = s.db)
    (fun _ _ _ _ db run => (pullCampaign_db run).trans db) rfl run

/-- How far a pass gets. -/
theorem pullGroups_cases {snap : Snapshot} (run : pullGroups s snap = .ok s') :
    (snap.gateways = none ∧ s' = s) ∨ ∃ gateways t, snap.gateways = some gateways ∧
      pullGateways s gateways = .ok t ∧ ((snap.campaigns = none ∧ s' = t) ∨
        ∃ rows u, snap.campaigns = some rows ∧ pullCampaigns t rows = .ok u ∧
          u.services.foldlM (pullService snap.calls snap.actions) u = .ok s') := by
  unfold pullGroups at run
  split at run
  next failed =>
    cases run
    exact .inl ⟨failed, rfl⟩
  next gateways answered =>
    obtain ⟨t, first, run⟩ := Fallible.bind_eq_ok.mp run
    refine .inr ⟨gateways, t, answered, first, ?_⟩
    split at run
    next failed =>
      cases run
      exact .inl ⟨failed, rfl⟩
    next rows answered =>
      obtain ⟨u, second, run⟩ := Fallible.bind_eq_ok.mp run
      exact .inr ⟨rows, u, answered, second, run⟩

/-- The invariant rule of a pass. -/
theorem pullGroups_rule {I : Sys → Prop}
    (gateway : ∀ s row s', I s → pullGateway s row = .ok s' → I s')
    (campaign : ∀ s row s', I s → pullCampaign s row = .ok s' → I s')
    (service : ∀ calls actions s cp s', I s → cp ∈ s.services →
      pullService calls actions s cp = .ok s' → I s')
    {snap : Snapshot} (start : I s) (run : pullGroups s snap = .ok s') : I s' := by
  rcases pullGroups_cases run with ⟨-, rfl⟩ | ⟨gateways, t, -, first, rest⟩
  · exact start
  · have afterGateways : I t :=
      Fallible.foldlM_rule (I := fun _ t => I t) (fun row _ s s' => gateway s row s') start first
    rcases rest with ⟨-, rfl⟩ | ⟨rows, u, -, second, run⟩
    · exact afterGateways
    · have afterCampaigns : I u :=
        Fallible.foldlM_rule (I := fun _ t => I t) (fun row _ s s' => campaign s row s')
          afterGateways second
      exact (Fallible.foldlM_rule
        (I := fun rest v => I v ∧ ∀ cp ∈ rest, cp ∈ v.services)
        (fun cp rest v v' ⟨holds, mem⟩ step =>
          ⟨service _ _ v cp v' holds (mem cp List.mem_cons_self) step, fun cp' mem' => by
            rw [pullService_services step]
            exact mem cp' (List.mem_cons_of_mem _ mem')⟩)
        ⟨afterCampaigns, fun _ mem => mem⟩ run).1

/-! ## The actions -/

/-- A row of a campaign makes no action. -/
theorem readCampaign_acts {row : CampaignRow} (run : readCampaign s cp row = .ok s') :
    s'.actions.next = s.actions.next ∧
      ∀ a action, s'.actions.get a = some action → s.actions.get a = some action := by
  obtain ⟨_, -, ⟨-, -, run⟩ | ⟨-, _, _, rfl⟩⟩ := readCampaign_cases run
  · obtain ⟨_, t, -, flushed, rfl⟩ := memDerefCampaign_cases run
    have same : t.actions = s.actions := by rw [flushDests_frame flushed]; rfl
    rw [← same]
    refine ⟨flushActions_next _ _, fun a action live => ?_⟩
    rw [flushActions_get] at live
    split at live
    · cases live
    · exact live
  · exact ⟨rfl, fun _ _ live => live⟩

theorem pullCampaign_acts {row : CampaignRow} (run : pullCampaign s row = .ok s') :
    s'.actions.next = s.actions.next ∧
      ∀ a action, s'.actions.get a = some action → s.actions.get a = some action := by
  rcases pullCampaign_cases run with ⟨rfl, -⟩ | ⟨cp, -, -, run⟩ | ⟨-, -, run⟩
  · exact ⟨rfl, fun _ _ live => live⟩
  · exact readCampaign_acts run
  · exact readCampaign_acts (s := s.createCamp) run

theorem pullCampaign_unwritten {row : CampaignRow} (run : pullCampaign s row = .ok s') :
    s.actions.Unwritten s'.actions :=
  let ⟨next, fewer⟩ := pullCampaign_acts run
  ⟨Nat.le_of_eq next.symm, fun a action _ live => fewer a action live⟩

theorem pullService_unwritten {calls : Nat → Option (List CallRow)}
    {actions : Nat → Option (List ActionRow)} (run : pullService calls actions s cp = .ok s') :
    s.actions.Unwritten s'.actions := by
  obtain ⟨_, -, ⟨rfl, -⟩ | ⟨-, _, acts, _, -, loaded, rfl⟩⟩ := pullService_cases run
  · exact .refl _
  · exact loaded.unwritten

theorem reloadActions_targets {camp : Campaign} {rows : Option (List ActionRow)}
    (run : reloadActions s cp camp rows = .ok s') {a : ActionId} {action : Action} {g : GatewayId}
    (new : s.actions.next ≤ a) (live : s'.actions.get a = some action)
    (isGateway : action.gateway = some g) : g ∈ s.gatewayList := by
  obtain ⟨rows, -, run⟩ := Fallible.bind_eq_ok.mp run
  have account := Fallible.foldlM_rule (I := fun _ t => t.gatewayList = s.gatewayList ∧
      ∀ action, t.actions.get a = some action → ∀ g, action.gateway = some g → g ∈ s.gatewayList)
    (fun row _ t t' ⟨list, targets⟩ run => by
      obtain ⟨loaded, -, found, rfl⟩ := loadAction_cases run
      refine ⟨list, fun action live => ?_⟩
      have live : (t.actions.alloc loaded).get a = some action := live
      rw [Heap.get_alloc] at live
      split at live
      · cases live
        rw [← list]
        exact found
      · exact targets action live)
    ⟨rfl, fun action live => by
      have flushed : (flushActions s.actions camp.actions).get a = some action := live
      rw [flushActions_get, s.actions.fresh a new, ite_self] at flushed
      cases flushed⟩ run
  exact account.2 action live g isGateway

/-- The new actions have gateways of the list. -/
theorem pullService_targets {calls : Nat → Option (List CallRow)}
    {actions : Nat → Option (List ActionRow)} (run : pullService calls actions s cp = .ok s')
    {a : ActionId} {action : Action} {g : GatewayId} (new : s.actions.next ≤ a)
    (live : s'.actions.get a = some action) (isGateway : action.gateway = some g) :
    g ∈ s.gatewayList := by
  have none : s.actions.get a ≠ some action := by
    rw [s.actions.fresh a new]
    exact nofun
  obtain ⟨camp, -, run⟩ := Fallible.bind_eq_ok.mp run
  split at run
  · cases run
    exact absurd live none
  · split at run
    · cases run
      exact absurd live none
    · obtain ⟨t, reloaded, run⟩ := Fallible.bind_eq_ok.mp run
      cases run
      exact reloadActions_targets reloaded new live isGateway

/-- A pass changes no action; it destroys actions and makes new ones. -/
theorem pull_unwritten {snap : Snapshot} (run : pullGroups s snap = .ok s') :
    s.actions.Unwritten s'.actions := by
  refine pullGroups_rule (I := fun t => s.actions.Unwritten t.actions) ?_ ?_ ?_ (.refl _) run
  · intro t row t' same run
    rw [pullGateway_frame run]
    exact same
  · exact fun t row t' same run => same.trans (pullCampaign_unwritten run)
  · exact fun calls actions t cp t' same _ run => same.trans (pullService_unwritten run)

end Autodialer
