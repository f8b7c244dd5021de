import Mathlib.Data.List.Infix
import Autodialer.CallSteps
import Autodialer.Faults
import Autodialer.Gateways
import Autodialer.GatewayUri
import Autodialer.Listing

/-!
# What a reload leaves behind

Campaigns and actions point to gateways, and a call points to the action whose key was
pressed. A pass destroys the gateways whose URI no longer decodes and reads the actions of
a campaign anew that is not running, whoever points to them.

* `reload_intact`: no pointer is left to a destroyed gateway or action in a run in which no
  pass takes a gateway from a campaign that it does not read or from an action that it does
  not read, and none reads the actions of a campaign anew while a call points to one.
* `reload_dangles`: both can happen, and `on_call_end` follows the pointer.
-/

namespace Autodialer

variable {s s' t t' u : Sys} {e : Event} {d : DestId} {c : CallId} {cp : CampId} {dest : Destination}
  {camp camp' : Campaign} {call call' : Call} {a : ActionId} {action : Action} {g : GatewayId}
  {gateway : Gateway} {snap : Snapshot} {now : Time} {env : AllocEnv} {ans : CallId → Addr → Prop}
  {h : List (Sys × Event)}

/-! ## The property -/

/-- The gateways of the campaign are in the list. -/
structure Anchored (list : List GatewayId) (camp : Campaign) : Prop where
  gateway : ∀ g, camp.gateway = some g → g ∈ list
  pbxGateway : ∀ g, camp.pbxGateway = some g → g ∈ list

/-- The gateways of the actions are in the list. -/
def Backed (s : Sys) : Prop :=
  ∀ a action g, s.actions.get a = some action → action.gateway = some g → g ∈ s.gatewayList

/-- The call points to an action of its campaign. -/
def Picked (s : Sys) (call : Call) : Prop :=
  ∃ a d dest camp, call.action = some a ∧ call.arg = some d ∧ s.book.dests.get d = some dest ∧
    s.book.camps.get dest.cp = some camp ∧ a ∈ camp.actions

/-- No pointer to a destroyed gateway or action is left, and `on_call_end` follows none. -/
structure Intact (s : Sys) : Prop where
  campaigns : EveryCamp (Anchored s.gatewayList) s.book
  actions : Backed s
  calls : ∀ c call, s.media.calls.get c = some call → call.eventReceived = true → Picked s call
  followed : ∀ d now env o, s.enabled (.destTimer d now env) = true → o = .gateway ∨ o = .action →
    s.run (.destTimer d now env) ≠ .error (.dangling o)

/-! ## The conditions on the passes -/

/-- The pass reads a row of the campaign. -/
def Rereads (snap : Snapshot) (camp : Campaign) : Prop :=
  ∃ rows, snap.campaigns = some rows ∧ ∃ row ∈ rows, row.id = camp.campaignId

/-- The pass reads a row that ends the campaign. -/
def Destroys (snap : Snapshot) (camp : Campaign) : Prop :=
  ∃ rows, snap.campaigns = some rows ∧ ∃ row ∈ rows, row.id = camp.campaignId ∧
    3 < row.status % 2 ^ 8 ∧ camp.processl = []

/-- The pass reads the actions of the campaign anew if it does not end it. -/
def Reloads (snap : Snapshot) (camp : Campaign) : Prop :=
  snap.campaigns.isSome = true ∧ camp.isRunning = false ∧ rowsFor snap.calls camp ≠ none

/-- A pass destroys a gateway that a campaign without a row points to, or an action that the
pass leaves. -/
def LosesGateway (s : Sys) (e : Event) : Prop :=
  ∃ snap rows g gateway, e = .pull snap ∧ snap.gateways = some rows ∧ s.Offers g gateway ∧
    s.Loses rows gateway.gatewayId ∧
    ((∃ cp camp, s.book.camps.get cp = some camp ∧
        (camp.gateway = some g ∨ camp.pbxGateway = some g) ∧ ¬ Rereads snap camp) ∨
      ∃ a action, s.actions.get a = some action ∧ action.gateway = some g ∧
        ∀ cp camp, s.book.camps.get cp = some camp → a ∈ camp.actions →
          ¬ Destroys snap camp ∧ ¬ Reloads snap camp)

/-- A pass reads the actions of a campaign anew while a call of the campaign points to one. -/
def FlushesAction (s : Sys) (e : Event) : Prop :=
  ∃ snap c call d dest camp, e = .pull snap ∧ snap.gateways.isSome = true ∧
    s.media.calls.get c = some call ∧ call.eventReceived = true ∧ call.arg = some d ∧
    s.book.dests.get d = some dest ∧ s.book.camps.get dest.cp = some camp ∧ Reloads snap camp

/-! ## The rows of the campaigns -/

/-- A row is about the campaign with its id. -/
theorem pullCampaign_row {row : CampaignRow} (inv : Inv ans s) (distinct : DistinctIds s.book)
    (live : s.book.camps.get cp = some camp) (run : pullCampaign s row = .ok s') :
    (row.id ≠ camp.campaignId ∧ s'.book.camps.get cp = some camp) ∨
      (row.id = camp.campaignId ∧ readCampaign s cp row = .ok s') := by
  have mem : cp ∈ s.services := (inv.rostered.mem cp).mpr ⟨camp, live⟩
  have differs : (∀ cp ∈ s.services, ∃ camp, s.book.camps.get cp = some camp ∧
      camp.campaignId ≠ row.id) → row.id ≠ camp.campaignId := by
    intro others
    obtain ⟨found, liveFound, other⟩ := others cp mem
    cases live.symm.trans liveFound
    exact other.symm
  rcases pullCampaign_cases run with ⟨rfl, -, others⟩ | ⟨cp', -, ⟨found, liveFound, isRow⟩, run⟩ |
    ⟨-, others, run⟩
  · exact .inl ⟨differs others, live⟩
  · rcases eq_or_ne cp cp' with rfl | ne
    · cases live.symm.trans liveFound
      exact .inr ⟨isRow.symm, run⟩
    · obtain ⟨_, -, -, kept⟩ := readCampaign_camps run
      refine .inl ⟨fun same => ne ?_, (kept cp ne).trans live⟩
      exact distinct cp cp' camp found live liveFound (same.symm.trans isRow.symm)
  · obtain ⟨_, -, -, kept⟩ := readCampaign_camps run
    have ne := Heap.ne_next live
    exact .inl ⟨differs others, (kept cp ne).trans (Heap.get_alloc_of_live live)⟩

theorem readCampaign_anchored {row : CampaignRow} (run : readCampaign s cp row = .ok s')
    (live' : s'.book.camps.get cp = some camp') : Anchored s.gatewayList camp' := by
  rcases readCampaign_origin run live' with ⟨ne, -⟩ | ⟨-, _, _, _, -, found, foundPbx, rfl⟩
  · exact absurd rfl ne
  · exact ⟨findGateway_pure found, findGateway_pure foundPbx⟩

/-- What is known in the loop over the rows of the campaigns. -/
structure Reading (ans : CallId → Addr → Prop) (s t : Sys) : Prop where
  inv : Inv ans t
  distinct : DistinctIds t.book
  list : t.gatewayList = s.gatewayList

theorem Reading.step {row : CampaignRow} (reading : Reading ans s t)
    (run : pullCampaign t row = .ok t') : Reading ans s t' where
  inv := reading.inv.campaign run
  distinct := (pullCampaign_enrolled reading.inv run).distinct reading.distinct
  list := (pullCampaign_gateways run).2.trans reading.list

/-- After the rows the gateways of a campaign are in the list, unless it is an old one without
a row. -/
theorem pullCampaigns_anchored {rows : List CampaignRow} (inv : Inv ans s)
    (distinct : DistinctIds s.book) (run : pullCampaigns s rows = .ok s')
    (live' : s'.book.camps.get cp = some camp') :
    Anchored s.gatewayList camp' ∨
      (s.book.camps.get cp = some camp' ∧ ∀ row ∈ rows, row.id ≠ camp'.campaignId) := by
  have account := Fallible.foldlM_rule (I := fun rest t => Reading ans s t ∧
      ∀ camp', t.book.camps.get cp = some camp' → Anchored s.gatewayList camp' ∨
        (s.book.camps.get cp = some camp' ∧ ∀ row ∈ rows, row.id = camp'.campaignId → row ∈ rest))
    ?_ ⟨⟨inv, distinct, rfl⟩, fun camp' live => .inr ⟨live, fun row mem _ => mem⟩⟩ run
  · refine (account.2 camp' live').imp_right fun ⟨old, unread⟩ => ⟨old, fun row mem same => ?_⟩
    exact absurd (unread row mem same) List.not_mem_nil
  · rintro row rest t t' ⟨reading, known⟩ run
    refine ⟨reading.step run, fun camp' live' => ?_⟩
    cases live : t.book.camps.get cp with
    | some camp =>
      rcases pullCampaign_row reading.inv reading.distinct live run with ⟨other, kept⟩ | ⟨-, run⟩
      · cases kept.symm.trans live'
        refine (known camp' live).imp_right fun ⟨old, unread⟩ => ⟨old, fun row' mem same => ?_⟩
        rcases List.mem_cons.mp (unread row' mem same) with rfl | mem
        · exact absurd same other
        · exact mem
      · exact .inl (reading.list ▸ readCampaign_anchored run live')
    | none =>
      rcases pullCampaign_cases run with ⟨rfl, -⟩ | ⟨cp', -, ⟨found, liveFound, -⟩, run⟩ | ⟨-, -, run⟩
      · cases live.symm.trans live'
      · have ne : cp ≠ cp' := by
          rintro rfl
          cases live.symm.trans liveFound
        obtain ⟨_, -, -, kept⟩ := readCampaign_camps run
        cases ((kept cp ne).trans live).symm.trans live'
      · rcases eq_or_ne cp t.book.camps.next with rfl | ne
        · exact .inl (reading.list ▸ readCampaign_anchored (s := t.createCamp) run live')
        · obtain ⟨_, -, -, kept⟩ := readCampaign_camps run
          rcases createCamp_camps ((kept cp ne).symm.trans live') with ⟨new, -⟩ | ⟨-, old⟩
          · exact absurd new ne
          · cases live.symm.trans old

/-- The id, the lists and whether it runs are as before. -/
structure SameWork (camp camp' : Campaign) : Prop where
  campaignId : camp'.campaignId = camp.campaignId
  actions : camp'.actions = camp.actions
  destinations : camp'.destinations = camp.destinations
  processl : camp'.processl = camp.processl
  isRunning : camp'.isRunning = camp.isRunning

@[refl] theorem SameWork.refl (camp : Campaign) : SameWork camp camp := ⟨rfl, rfl, rfl, rfl, rfl⟩

theorem SameWork.reloads (same : SameWork camp camp') (isSome : snap.campaigns.isSome = true) :
    Reloads snap camp ↔ camp'.isRunning = false ∧ rowsFor snap.calls camp' ≠ none := by
  unfold Reloads rowsFor
  rw [and_iff_right isSome, same.isRunning, same.destinations, same.campaignId]

theorem SameWork.read {row : CampaignRow} {gateway pbxGateway : Option GatewayId}
    (same : SameWork camp camp') (isRow : row.id = camp.campaignId) :
    SameWork camp ((camp'.readHead row).readTail row gateway pbxGateway) :=
  ⟨isRow, same.actions, same.destinations, same.processl, same.isRunning⟩

theorem pullCampaigns_work {rows : List CampaignRow} (run : pullCampaigns s rows = .ok s')
    (live : s.book.camps.get cp = some camp) (live' : s'.book.camps.get cp = some camp') :
    SameWork camp camp' :=
  (pullCampaigns_camp (P := SameWork camp) run live (.refl camp)
    (fun _ _ _ _ _ isRow _ _ same => same.read isRow) camp' live').2

/-- A campaign that is ended takes its actions along. -/
theorem readCampaign_ends {row : CampaignRow} (live : s.book.camps.get cp = some camp)
    (mem : a ∈ camp.actions) (run : readCampaign s cp row = .ok s') :
    s'.actions.get a = none ∨ (¬ (3 < row.status % 2 ^ 8 ∧ camp.processl = []) ∧
      ∃ gateway pbxGateway, s'.book.camps.get cp =
        some ((camp.readHead row).readTail row gateway pbxGateway)) := by
  obtain ⟨_, live₀, ⟨-, -, gone⟩ | ⟨goes, gateway, pbxGateway, rfl⟩⟩ := readCampaign_cases run
  · obtain ⟨head, t, liveHead, flushed, rfl⟩ := memDerefCampaign_cases gone
    have isHead : head = camp.readHead row := by
      simpa [Sys.setCamp, live] using liveHead.symm
    left
    show (flushActions t.actions head.actions).get a = none
    rw [flushActions_get, isHead]
    exact if_pos mem
  · cases live.symm.trans live₀
    exact .inr ⟨goes, gateway, pbxGateway, by simp [Sys.setCamp, live]⟩

/-- After the rows the actions of a campaign are destroyed, or it is still there and no row has
ended it. -/
theorem pullCampaigns_acts {rows : List CampaignRow} (inv : Inv ans s)
    (distinct : DistinctIds s.book) (live : s.book.camps.get cp = some camp) (mem : a ∈ camp.actions)
    (old : a < s.actions.next) (run : pullCampaigns s rows = .ok s') :
    s.actions.Unwritten s'.actions ∧ (s'.actions.get a = none ∨
      ((∃ camp', s'.book.camps.get cp = some camp' ∧ SameWork camp camp') ∧
        ∀ row ∈ rows, row.id = camp.campaignId →
          ¬ (3 < row.status % 2 ^ 8 ∧ camp.processl = []))) := by
  have account := Fallible.foldlM_rule (I := fun rest t => Reading ans s t ∧
      s.actions.Unwritten t.actions ∧ (t.actions.get a = none ∨
      ((∃ camp', t.book.camps.get cp = some camp' ∧ SameWork camp camp') ∧
        ∀ row ∈ rows, row.id = camp.campaignId → 3 < row.status % 2 ^ 8 ∧ camp.processl = [] →
          row ∈ rest)))
    ?_ ⟨⟨inv, distinct, rfl⟩, .refl _, .inr ⟨⟨camp, live, .refl camp⟩, fun row mem _ _ => mem⟩⟩ run
  · refine ⟨account.2.1, account.2.2.imp_right fun ⟨there, unread⟩ => ⟨there, ?_⟩⟩
    exact fun row mem isRow ends => absurd (unread row mem isRow ends) List.not_mem_nil
  · rintro row rest t t' ⟨reading, unwritten, known⟩ run
    have step := pullCampaign_unwritten run
    refine ⟨reading.step run, unwritten.trans step, ?_⟩
    rcases known with gone | ⟨⟨camp', live', same⟩, unread⟩
    · exact .inl (step.dead (Nat.lt_of_lt_of_le old unwritten.1) gone)
    · -- the row is not one of those still to come that end the campaign
      have later : (row.id = camp.campaignId → ¬ (3 < row.status % 2 ^ 8 ∧ camp.processl = [])) →
          ∀ row ∈ rows, row.id = camp.campaignId → 3 < row.status % 2 ^ 8 ∧ camp.processl = [] →
            row ∈ rest := by
        intro goes row' mem' isRow' ends'
        rcases List.mem_cons.mp (unread row' mem' isRow' ends') with rfl | mem'
        · exact absurd ends' (goes isRow')
        · exact mem'
      rcases pullCampaign_row reading.inv reading.distinct live' run with ⟨other, kept⟩ | ⟨isRow, run⟩
      · refine .inr ⟨⟨camp', kept, same⟩, later fun isRow => absurd ?_ other⟩
        rw [isRow, same.campaignId]
      · rcases readCampaign_ends live' (same.actions ▸ mem) run with gone |
          ⟨goes, gateway, pbxGateway, kept⟩
        · exact .inl gone
        · rw [same.campaignId] at isRow
          rw [same.processl] at goes
          exact .inr ⟨⟨_, kept, same.read isRow⟩, later fun _ => goes⟩

/-! ## The services -/

/-- A campaign that is not running loses its actions. -/
theorem pullServices_acts {calls : Nat → Option (List CallRow)}
    {actions : Nat → Option (List ActionRow)} {l : List CampId}
    (run : l.foldlM (pullService calls actions) s = .ok s')
    (live : s.book.camps.get cp = some camp) (listed : cp ∈ l) (mem : a ∈ camp.actions)
    (old : a < s.actions.next) (stopped : camp.isRunning = false)
    (found : rowsFor calls camp ≠ none) : s'.actions.get a = none := by
  have account := Fallible.foldlM_rule (I := fun rest t => s.actions.Unwritten t.actions ∧
      (t.actions.get a = none ∨ (t.book.camps.get cp = some camp ∧ cp ∈ rest)))
    ?_ ⟨.refl _, .inr ⟨live, listed⟩⟩ run
  · exact account.2.resolve_right fun later => absurd later.2 List.not_mem_nil
  · rintro cp' rest t t' ⟨unwritten, known⟩ run
    have step := pullService_unwritten run
    have below : a < t.actions.next := Nat.lt_of_lt_of_le old unwritten.1
    refine ⟨unwritten.trans step, ?_⟩
    rcases known with gone | ⟨live', later⟩
    · exact .inl (step.dead below gone)
    · rcases eq_or_ne cp cp' with rfl | ne
      · obtain ⟨_, live₀, ⟨-, passed⟩ | ⟨-, _, acts, _, -, loaded, rfl⟩⟩ := pullService_cases run
        · cases live'.symm.trans live₀
          exact absurd passed (not_or.mpr ⟨by simp [stopped], found⟩)
        · cases live'.symm.trans live₀
          exact .inl ((loaded.kept a below).trans (if_pos mem))
      · obtain ⟨_, -, -, others⟩ := pullService_camps run
        exact .inr ⟨(others cp ne).trans live', (List.mem_cons.mp later).resolve_left ne⟩

/-- The services pass over a campaign that the pass does not reload. -/
theorem pullServices_work {l : List CampId} (isSome : snap.campaigns.isSome = true)
    (run : l.foldlM (pullService snap.calls snap.actions) s = .ok s')
    (work : ∀ camp', s.book.camps.get cp = some camp' → SameWork camp camp')
    (passed : ¬ Reloads snap camp) (live' : s'.book.camps.get cp = some camp') :
    SameWork camp camp' := by
  refine Fallible.foldlM_rule
    (I := fun _ t => ∀ camp', t.book.camps.get cp = some camp' → SameWork camp camp')
    ?_ work run camp' live'
  intro cp' _ t t' work run camp' live'
  rcases pullService_origin run live' with live | ⟨rfl, old, rows, _, live, stopped, found, -⟩
  · exact work camp' live
  · refine absurd (((work old live).reloads isSome).mpr ⟨stopped, ?_⟩) passed
    rw [found]
    exact nofun

theorem pullServices_anchored {calls : Nat → Option (List CallRow)}
    {actions : Nat → Option (List ActionRow)} {l : List CampId} {list : List GatewayId}
    (run : l.foldlM (pullService calls actions) s = .ok s')
    (anchored : EveryCamp (Anchored list) s.book) : EveryCamp (Anchored list) s'.book := by
  refine Fallible.foldlM_rule (I := fun _ t => EveryCamp (Anchored list) t.book) ?_ anchored run
  intro cp' _ t t' anchored run cp camp' live'
  rcases pullService_origin run live' with live | ⟨-, camp, _, _, live, -, -, rfl⟩
  · exact anchored cp camp' live
  · exact ⟨(anchored cp' camp live).gateway, (anchored cp' camp live).pbxGateway⟩

/-! ## The pass -/

theorem pullGateways_keeps {rows : List GatewayRow} (catalogued : Catalogued s)
    (run : pullGateways s rows = .ok t) (mem : g ∈ s.gatewayList)
    (kept : ∀ gateway, s.Offers g gateway → ¬ s.Loses rows gateway.gatewayId) :
    g ∈ t.gatewayList := by
  obtain ⟨gateway, live⟩ := catalogued.live g mem
  obtain ⟨_, offers, -⟩ := pullGateways_offers catalogued run ⟨mem, live⟩ (kept gateway ⟨mem, live⟩)
  exact offers.1

theorem pull_anchored (inv : Inv ans s) (distinct : DistinctIds s.book) (catalogued : Catalogued s)
    (anchored : EveryCamp (Anchored s.gatewayList) s.book) (keeps : ¬ LosesGateway s (.pull snap))
    (run : pullGroups s snap = .ok s') : EveryCamp (Anchored s'.gatewayList) s'.book := by
  rcases pullGroups_cases run with ⟨-, rfl⟩ | ⟨rows, t, hasRows, pulled, rest⟩
  · exact anchored
  · -- a gateway is lost only where the row of the campaign is read after that
    have unread : ∀ cp camp, s.book.camps.get cp = some camp → ¬ Rereads snap camp →
        Anchored t.gatewayList camp := by
      intro cp camp live other
      have kept : ∀ g, camp.gateway = some g ∨ camp.pbxGateway = some g → ∀ gateway,
          s.Offers g gateway → ¬ s.Loses rows gateway.gatewayId :=
        fun g points gateway offers lost => keeps ⟨snap, rows, g, gateway, rfl, hasRows, offers, lost,
          .inl ⟨cp, camp, live, points, other⟩⟩
      exact
        { gateway := fun g points => pullGateways_keeps catalogued pulled
            ((anchored cp camp live).gateway g points) (kept g (.inl points))
          pbxGateway := fun g points => pullGateways_keeps catalogued pulled
            ((anchored cp camp live).pbxGateway g points) (kept g (.inr points)) }
    have book : t.book = s.book := pullGateways_book pulled
    rcases rest with ⟨failed, rfl⟩ | ⟨campRows, u, hasCamps, campaigns, services⟩
    · intro cp camp live
      rw [book] at live
      refine unread cp camp live fun ⟨_, answered, _⟩ => ?_
      rw [failed] at answered
      cases answered
    · have list : s'.gatewayList = t.gatewayList := by
        rcases pullGroups_gateways run with ⟨none, -⟩ | ⟨_, _, hasRows', pulled', -, list⟩
        · cases none.symm.trans hasRows
        · cases hasRows'.symm.trans hasRows
          cases pulled'.symm.trans pulled
          exact list
      rw [list]
      refine pullServices_anchored services fun cp camp live => ?_
      rcases pullCampaigns_anchored (inv.gateways pulled) (by rw [book]; exact distinct)
        campaigns live with read | ⟨old, noRow⟩
      · exact read
      · rw [book] at old
        refine unread cp camp old fun ⟨_, answered, row, mem, isRow⟩ => ?_
        cases answered.symm.trans hasCamps
        exact noRow row mem isRow

/-- A pass destroys the actions of a campaign that it ends or reloads. -/
theorem pull_flushes (inv : Inv ans s) (distinct : DistinctIds s.book)
    (live : s.book.camps.get cp = some camp) (mem : a ∈ camp.actions)
    (hasRows : snap.gateways.isSome = true) (flushed : Destroys snap camp ∨ Reloads snap camp)
    (run : pullGroups s snap = .ok s') : s'.actions.get a = none := by
  rcases pullGroups_cases run with ⟨none, -⟩ | ⟨rows, t, -, pulled, rest⟩
  · rw [none] at hasRows
    cases hasRows
  · have book := pullGateways_book pulled
    have actions := pullGateways_actions pulled
    have isSome : snap.campaigns.isSome = true := by
      rcases flushed with ⟨_, answered, -⟩ | ⟨isSome, -⟩
      · rw [answered]
        rfl
      · exact isSome
    rcases rest with ⟨failed, -⟩ | ⟨campRows, u, hasCamps, campaigns, services⟩
    · rw [failed] at isSome
      cases isSome
    · have old : a < t.actions.next := by
        obtain ⟨action, liveAction⟩ := Option.isSome_iff_exists.mp (inv.keyed.live cp camp a live mem)
        rw [actions]
        exact Heap.lt_next liveAction
      rw [← book] at live distinct
      have invT := inv.gateways pulled
      obtain ⟨unwritten, gone | ⟨⟨camp', live', same⟩, goes⟩⟩ :=
        pullCampaigns_acts invT distinct live mem old campaigns
      · have later : u.actions.Unwritten s'.actions :=
          Fallible.foldlM_rule (I := fun _ v => u.actions.Unwritten v.actions)
            (fun _ _ _ _ unwritten run => unwritten.trans (pullService_unwritten run)) (.refl _)
            services
        exact later.dead (Nat.lt_of_lt_of_le old unwritten.1) gone
      · -- the campaign has survived its rows, so it is reloaded with the services
        rcases flushed with ⟨_, answered, row, memRow, isRow, ends⟩ | reloads
        · cases answered.symm.trans hasCamps
          exact absurd ends (goes row memRow isRow)
        · obtain ⟨stopped, found⟩ := (same.reloads isSome).mp reloads
          have listed := ((invT.campaigns campaigns).rostered.mem cp).mpr ⟨camp', live'⟩
          exact pullServices_acts services live' listed
            (same.actions ▸ mem) (Nat.lt_of_lt_of_le old unwritten.1) stopped found

/-- The actions that a pass makes have gateways of its list. -/
theorem pull_targets (run : pullGroups s snap = .ok s') (new : s.actions.next ≤ a)
    (live : s'.actions.get a = some action) (isGateway : action.gateway = some g) :
    g ∈ s'.gatewayList := by
  have none : s.actions.get a ≠ some action := by
    rw [s.actions.fresh a new]
    exact nofun
  rcases pullGroups_cases run with ⟨-, rfl⟩ | ⟨rows, t, -, pulled, rest⟩
  · exact absurd live none
  · rw [← pullGateways_actions pulled] at none new
    rcases rest with ⟨-, rfl⟩ | ⟨campRows, u, -, campaigns, services⟩
    · exact absurd live none
    · have read := Fallible.foldlM_rule (I := fun _ u => t.actions.next ≤ u.actions.next ∧
          u.actions.get a ≠ some action)
        (fun _ _ _ _ ⟨above, none⟩ run =>
          have ⟨next, fewer⟩ := pullCampaign_acts run
          ⟨Nat.le_trans above (Nat.le_of_eq next.symm), fun live => none (fewer a action live)⟩)
        ⟨Nat.le_refl _, none⟩ campaigns
      have account := Fallible.foldlM_rule (I := fun _ v => v.gatewayList = u.gatewayList ∧
          t.actions.next ≤ v.actions.next ∧ (v.actions.get a = some action → g ∈ u.gatewayList))
        (fun _ _ v v' ⟨list, above, target⟩ run => by
          have unwritten := pullService_unwritten run
          refine ⟨(pullService_gateways run).2.trans list, Nat.le_trans above unwritten.1,
            fun live => ?_⟩
          rcases Nat.lt_or_ge a v.actions.next with old | new
          · exact target (unwritten.2 a action old live)
          · rw [← list]
            exact pullService_targets run new live isGateway)
        ⟨rfl, read.1, fun live => absurd live read.2⟩ services
      rw [account.1]
      exact account.2.2 live

theorem pull_backed (inv : Inv ans s) (distinct : DistinctIds s.book) (catalogued : Catalogued s)
    (backed : Backed s) (keeps : ¬ LosesGateway s (.pull snap)) (run : pullGroups s snap = .ok s') :
    Backed s' := by
  intro a action g live isGateway
  rcases Nat.lt_or_ge a s.actions.next with old | new
  · have before : s.actions.get a = some action := (pull_unwritten run).2 a action old live
    rcases pullGroups_gateways run with ⟨-, rfl⟩ | ⟨rows, t, hasRows, pulled, -, list⟩
    · exact backed a action g before isGateway
    · rw [list]
      refine pullGateways_keeps catalogued pulled (backed a action g before isGateway)
        fun gateway offers lost => keeps ⟨snap, rows, g, gateway, rfl, hasRows, offers, lost,
          .inr ⟨a, action, before, isGateway, fun cp camp liveCamp mem => ?_⟩⟩
      rw [← not_or]
      intro flushed
      have gone := pull_flushes inv distinct liveCamp mem (by rw [hasRows]; rfl) flushed run
      cases gone.symm.trans live
  · exact pull_targets run new live isGateway

/-- A campaign that the pass does not reload keeps its actions. -/
theorem pull_keepsActions (run : pullGroups s snap = .ok s') (live : s.book.camps.get cp = some camp)
    (passed : ¬ (snap.gateways.isSome = true ∧ Reloads snap camp))
    (live' : s'.book.camps.get cp = some camp') : camp'.actions = camp.actions := by
  rcases pullGroups_cases run with ⟨-, rfl⟩ | ⟨rows, t, hasRows, pulled, rest⟩
  · cases live.symm.trans live'
    rfl
  · rw [← pullGateways_book pulled] at live
    rcases rest with ⟨-, rfl⟩ | ⟨campRows, u, hasCamps, campaigns, services⟩
    · cases live.symm.trans live'
      rfl
    · exact (pullServices_work (by rw [hasCamps]; rfl) services
        (fun camp' live' => pullCampaigns_work campaigns live live')
        (fun reloads => passed ⟨by rw [hasRows]; rfl, reloads⟩) live').actions

/-! ## The step -/

theorem anchored_settings {list : List GatewayId} (anchored : Anchored list camp)
    (same : SameSettings camp camp') : Anchored list camp' := by
  obtain ⟨_, _, _, _, rfl⟩ := same
  exact ⟨anchored.gateway, anchored.pbxGateway⟩

theorem step_anchored (inv : Inv ans s) (distinct : DistinctIds s.book) (catalogued : Catalogued s)
    (anchored : EveryCamp (Anchored s.gatewayList) s.book) (keeps : ¬ LosesGateway s e)
    (step : dialer.step s e s') : EveryCamp (Anchored s'.gatewayList) s'.book := by
  cases main : e.isMain with
  | true =>
    intro cp camp' live'
    obtain ⟨camp, live, same⟩ := mainStep_steady inv main step cp camp' live'
    rw [(mainStep_config inv main step).gatewayList]
    exact anchored_settings (anchored cp camp live) same
  | false =>
    obtain ⟨snap, rfl, run⟩ := pass_of_step step main
    exact pull_anchored inv distinct catalogued anchored keeps run

theorem step_backed (inv : Inv ans s) (distinct : DistinctIds s.book) (catalogued : Catalogued s)
    (backed : Backed s) (keeps : ¬ LosesGateway s e) (step : dialer.step s e s') : Backed s' := by
  cases main : e.isMain with
  | true =>
    have same := mainStep_config inv main step
    unfold Backed
    rw [same.actions, same.gatewayList]
    exact backed
  | false =>
    obtain ⟨snap, rfl, run⟩ := pass_of_step step main
    exact pull_backed inv distinct catalogued backed keeps run

theorem CallWrite.picked (write : CallWrite s c call e call')
    (picked : call.eventReceived = true → Picked s call) (pressed : call'.eventReceived = true) :
    Picked s call' := by
  cases write with
  | pressed _ _ _ isArg liveDest liveCamp mem =>
    exact ⟨_, _, _, _, rfl, isArg, liveDest, liveCamp, mem⟩
  | _ => exact picked pressed

theorem step_picked (inv : Inv ans s) (inv' : Inv.Any s')
    (picked : ∀ c call, s.media.calls.get c = some call → call.eventReceived = true → Picked s call)
    (keeps : ¬ FlushesAction s e) (step : dialer.step s e s') :
    ∀ c call, s'.media.calls.get c = some call → call.eventReceived = true → Picked s' call := by
  intro c call live' pressed
  have before : Picked s call := by
    rcases step_calls inv step live' with ⟨old, live, write⟩ | ⟨-, isNew⟩
    · exact write.picked (picked c old live) pressed
    · cases isNew with
      | main => cases pressed
      | leg => cases pressed
  obtain ⟨a, d, dest, camp, isAction, isArg, liveDest, liveCamp, mem⟩ := before
  obtain ⟨d', dest', camp', isArg', liveDest', liveCamp'⟩ := inv'.arg_live live'
  cases isArg.symm.trans isArg'
  obtain ⟨-, onCp⟩ := (step_onward inv step).same d dest dest' liveDest liveDest'
  refine ⟨a, d, dest', camp', isAction, isArg, liveDest', liveCamp', ?_⟩
  rw [onCp] at liveCamp'
  cases main : e.isMain with
  | true =>
    obtain ⟨old, liveOld, _, _, _, _, rfl⟩ := mainStep_steady inv main step dest.cp camp' liveCamp'
    cases liveCamp.symm.trans liveOld
    exact mem
  | false =>
    obtain ⟨snap, rfl, run⟩ := pass_of_step step main
    rw [pull_keepsActions run liveCamp (fun ⟨hasRows, reloads⟩ => keeps ⟨snap, c, call, d, dest, camp,
      rfl, hasRows, (pull_frees run).left c call live', pressed, isArg, liveDest, liveCamp, reloads⟩)
      liveCamp']
    exact mem

/-! ## The handler -/

/-- A pointer to a destroyed gateway or action is followed. -/
def IsStale (fault : Fault) : Prop := ∃ o, (o = .gateway ∨ o = .action) ∧ fault = .dangling o

theorem isStale_spares : Spares IsStale where
  call := fun ⟨_, isObj, eq⟩ => by cases eq; cases isObj <;> contradiction
  destination := fun ⟨_, isObj, eq⟩ => by cases eq; cases isObj <;> contradiction
  campaign := fun ⟨_, isObj, eq⟩ => by cases eq; cases isObj <;> contradiction
  wild := fun ⟨_, _, eq⟩ => by cases eq
  nested := fun ⟨_, _, eq⟩ => by cases eq

theorem not_isStale_null (o : Obj) : ¬ IsStale (.null o) := fun ⟨_, _, eq⟩ => by cases eq

/-- The pointers lead to gateways and actions that are there. -/
structure Sturdy (s : Sys) (camp : Campaign) (call : Call) : Prop where
  catalogued : Catalogued s
  backed : Backed s
  anchored : Anchored s.gatewayList camp
  action : call.eventReceived = true → ∃ a action, call.action = some a ∧
    s.actions.get a = some action

theorem Sturdy.gateway_avoids {o : Option GatewayId} {α : Type} {f : Gateway → Exec α}
    (sturdy : Sturdy s camp call) (listed : ∀ g, o = some g → g ∈ s.gatewayList)
    (rest : ∀ gateway, Fallible.Avoids IsStale (f gateway)) :
    Fallible.Avoids IsStale (do
      let g ← nonNull .gateway o
      let gateway ← load .gateway s.gateways g
      f gateway) := by
  refine .bind (.get? (not_isStale_null _) _) fun g isGateway => ?_
  obtain ⟨gateway, live⟩ := sturdy.catalogued.live g (listed g (nonNull_eq_ok.mp isGateway))
  rw [load_eq_ok.mpr live]
  exact rest gateway

theorem Sturdy.action_avoids {α : Type} {f : Gateway → Option String → Exec α}
    (sturdy : Sturdy s camp call) (pressed : call.eventReceived = true)
    (rest : ∀ gateway tel, Fallible.Avoids IsStale (f gateway tel)) :
    Fallible.Avoids IsStale (do
      let a ← nonNull .action call.action
      let action ← load .action s.actions a
      let g ← nonNull .gateway action.gateway
      let gateway ← load .gateway s.gateways g
      f gateway action.dest) := by
  obtain ⟨a, action, isAction, live⟩ := sturdy.action pressed
  rw [isAction, nonNull_some, Fallible.ok_bind, load_eq_ok.mpr live, Fallible.ok_bind]
  exact sturdy.gateway_avoids (fun g => sturdy.backed a action g live) fun gateway => rest gateway _

theorem Sturdy.forwards (sturdy : Sturdy s camp call)
    (liveCamp : s.book.camps.get dest.cp = some camp) :
    Fallible.Avoids IsStale (forwardTarget s dest call) := by
  unfold forwardTarget
  cases pressed : call.eventReceived with
  | true => exact sturdy.action_avoids pressed fun _ _ => .pure _
  | false =>
    rw [if_neg Bool.false_ne_true, Sys.loadCamp, load_eq_ok.mpr liveCamp, Fallible.ok_bind]
    exact sturdy.gateway_avoids sturdy.anchored.pbxGateway fun _ => .pure _

theorem Sturdy.records (sturdy : Sturdy s camp call) :
    Fallible.Avoids IsStale (recordTarget s camp call) := by
  unfold recordTarget
  cases pressed : call.eventReceived with
  | true => exact sturdy.action_avoids pressed fun _ _ => .pure _
  | false =>
    rw [if_neg Bool.false_ne_true]
    exact sturdy.gateway_avoids sturdy.anchored.gateway fun _ => .pure _

theorem intact_of (inv : Inv ans s) (catalogued : Catalogued s)
    (anchored : EveryCamp (Anchored s.gatewayList) s.book) (backed : Backed s)
    (picked : ∀ c call, s.media.calls.get c = some call → call.eventReceived = true → Picked s call) :
    Intact s := by
  refine ⟨anchored, backed, picked, fun d now env o enabled isObj failed => ?_⟩
  obtain ⟨dest, live, armed⟩ := pending_dest enabled
  obtain ⟨c, call, has, liveCall⟩ := inv.supervised_call live armed
  have sturdy : ∀ camp, s.book.camps.get dest.cp = some camp →
      Sturdy (s.disarmDest d) camp call := by
    intro camp liveCamp
    refine ⟨catalogued.congr rfl rfl, backed, anchored dest.cp camp liveCamp, fun pressed => ?_⟩
    obtain ⟨a, _, dest', camp', isAction, -, -, liveCamp', mem⟩ := picked c call liveCall pressed
    obtain ⟨action, liveAction⟩ :=
      Option.isSome_iff_exists.mp (inv.keyed.live dest'.cp camp' a liveCamp' mem)
    exact ⟨a, action, isAction, liveAction⟩
  exact onCallEnd_avoids (s := s.disarmDest d) isStale_spares (dests_disarmDest live) has liveCall
    (fun camp liveCamp _ _ => (sturdy camp liveCamp).forwards liveCamp)
    (fun camp liveCamp _ _ => (sturdy camp liveCamp).records) (.dangling o) failed ⟨o, isObj, rfl⟩

/-! ## Runs -/

/-- No pointer to a destroyed gateway or action is left in a run whose passes destroy neither a
gateway that is still pointed to after them nor an action that a call points to. -/
theorem reload_intact (run : dialer.Execution h s) (gateways : ∀ x ∈ h, ¬ LosesGateway x.1 x.2)
    (actions : ∀ x ∈ h, ¬ FlushesAction x.1 x.2) : Intact s := by
  obtain ⟨inv, -, catalogued, anchored, backed, picked⟩ := run.induct
    (C := fun s e => ¬ LosesGateway s e ∧ ¬ FlushesAction s e)
    (I := fun _ s => Inv.Any s ∧ DistinctIds s.book ∧ Catalogued s ∧
      EveryCamp (Anchored s.gatewayList) s.book ∧ Backed s ∧
      ∀ c call, s.media.calls.get c = some call → call.eventReceived = true → Picked s call)
    (fun x mem => ⟨gateways x mem, actions x mem⟩)
    (fun _ ⟨n, audioPath, _, isBoot⟩ => by
      subst isBoot
      exact ⟨.boot n audioPath, fun _ _ _ _ live => (by cases live), .boot n audioPath,
        fun _ _ live => (by cases live), fun _ _ _ live => (by cases live),
        fun _ _ live => (by cases live)⟩)
    fun _ s e _ _ ⟨inv, distinct, catalogued, anchored, backed, picked⟩ step ⟨keepsG, keepsA⟩ => by
      have inv' := step_inv_hears inv (.anything s e) step
      exact ⟨inv', step_distinct inv distinct step, step_catalogued inv catalogued step,
        step_anchored inv distinct catalogued anchored keepsG step,
        step_backed inv distinct catalogued backed keepsG step,
        step_picked inv inv' picked keepsA step⟩
  exact intact_of inv catalogued anchored backed picked

/-- The step is no pass, or its rows leave every gateway and all campaigns are running. -/
def sparing (x : Sys × Event) : Bool :=
  match x.2 with
  | .pull snap => snap.gateways.all (fun rows => x.1.gatewayList.all fun g =>
      (x.1.gateways.get g).all fun gateway =>
        rows.inits.all fun first => (x.1.uriAfter first gateway.gatewayId).isSome) &&
      (List.range x.1.book.camps.next).all fun cp => (x.1.book.camps.get cp).all Campaign.isRunning
  | _ => true

theorem conditions_of_sparing {x : Sys × Event} (test : sparing x = true) :
    ¬ LosesGateway x.1 x.2 ∧ ¬ FlushesAction x.1 x.2 := by
  obtain ⟨s, e⟩ := x
  constructor
  · rintro ⟨snap, rows, g, gateway, rfl, hasRows, ⟨mem, live⟩, ⟨first, isFirst, lost⟩, -⟩
    have all := (Bool.and_eq_true_iff.mp test).1
    rw [hasRows, Option.all_some, List.all_eq_true] at all
    have here := all g mem
    rw [live, Option.all_some, List.all_eq_true] at here
    have left := here first ((List.mem_inits first rows).mpr isFirst)
    rw [lost] at left
    cases left
  · rintro ⟨snap, c, call, d, dest, camp, rfl, -, -, -, -, -, liveCamp, -, stopped, -⟩
    have running := List.all_eq_true.mp (Bool.and_eq_true_iff.mp test).2 dest.cp
      (List.mem_range.mpr (Heap.lt_next liveCamp))
    rw [liveCamp, Option.all_some, stopped] at running
    cases running

/-- A campaign that plays its audio file; the key 1 forwards its calls. -/
def keyed (status : Nat) : Snapshot :=
  { oneCampaign with
    campaigns := some [{
      id := 1, frequency := 2, fileName := some "offer.gsm", status := status, gatewayId := 1 }]
    actions := fun _ => some [{ keyPress := 1, action := 0, actionData := some "1,200" }] }

/-- The contact answers at 105 and presses the key, and the call is forwarded. -/
def keyForwarded : List Event :=
  [.pull (keyed 2), .message 100 fun _ => {},
    .establish 0 { answer := { raddr := 55 }, now := 105 },
    .rtp 0 ([0x80, 101] ++ List.replicate 10 0 ++ [1, 0x80, 0, 0]), .destTimer 0 106 {}]

/-- A pass comes while the call is forwarded. -/
theorem reload_intact_forwarded : ∃ h s, dialer.Execution h s ∧
    (s.media.calls.get 0).any (fun call => call.eventReceived && call.forwarded) = true ∧
    Intact s := by
  obtain ⟨h, s, run, test⟩ := Lts.replay_exists SysInit Sys.next (s := Sys.boot 4 "/audio")
    (keyForwarded ++ [.pull (keyed 2)])
    (fun h s => (s.media.calls.get 0).any (fun call => call.eventReceived && call.forwarded) &&
      h.all sparing) ⟨4, "/audio", by decide, rfl⟩ (by decide)
  obtain ⟨forwarded, all⟩ := Bool.and_eq_true_iff.mp test
  have conditions := fun x mem => conditions_of_sparing (List.all_eq_true.mp all x mem)
  exact ⟨h, s, run, forwarded, reload_intact run (fun x mem => (conditions x mem).1)
    fun x mem => (conditions x mem).2⟩

/-- The URI of this gateway, `sip: @:;prefix=;codec=0`, does not decode. -/
def blankGateway : GatewayColumns where
  id := 1
  ip := []
  port := []
  user := " ".toList
  password := []
  dialPrefix := []
  codec := []

/-- The columns of the gateway are blank now, and the campaign has no row. -/
def lostGateway : Snapshot :=
  { shortCalls with gateways := some [blankGateway.toRow], campaigns := some [] }

/-- The campaign is paused while its call is forwarded, and its actions are read anew. -/
def pausedWhileForwarded : List Event :=
  keyForwarded ++ [.pull (keyed 3), .campTimer 0 110 fun _ => {}, .pull (keyed 3), .close 0 false 0]

/-- The gateway of a campaign is destroyed before its call is forwarded there; the action of a
call is destroyed before its forwarding is recorded. -/
theorem reload_dangles :
    (∃ h s, dialer.Execution h s ∧ s.enabled (.destTimer 0 106 {}) = true ∧
      s.run (.destTimer 0 106 {}) = .error (.dangling .gateway)) ∧
    ∃ h s, dialer.Execution h s ∧ s.enabled (.destTimer 0 111 {}) = true ∧
      s.run (.destTimer 0 111 {}) = .error (.dangling .action) := by
  constructor
  · obtain ⟨h, s, run, test⟩ := Lts.replay_exists SysInit Sys.next (s := Sys.boot 4 "/audio")
      (answeredShort ++ [.pull lostGateway])
      (fun _ s => s.enabled (.destTimer 0 106 {}) &&
        Fallible.fault? (s.run (.destTimer 0 106 {})) = some (.dangling .gateway))
      ⟨4, "/audio", by decide, rfl⟩ (by decide)
    obtain ⟨enabled, fault⟩ := Bool.and_eq_true_iff.mp test
    exact ⟨h, s, run, enabled, Fallible.fault?_eq_some.mp (of_decide_eq_true fault)⟩
  · obtain ⟨h, s, run, test⟩ := Lts.replay_exists SysInit Sys.next (s := Sys.boot 4 "/audio")
      pausedWhileForwarded
      (fun _ s => s.enabled (.destTimer 0 111 {}) &&
        Fallible.fault? (s.run (.destTimer 0 111 {})) = some (.dangling .action))
      ⟨4, "/audio", by decide, rfl⟩ (by decide)
    obtain ⟨enabled, fault⟩ := Bool.and_eq_true_iff.mp test
    exact ⟨h, s, run, enabled, Fallible.fault?_eq_some.mp (of_decide_eq_true fault)⟩

end Autodialer
