import Autodialer.Loading
import Autodialer.Statements

/-!
# Contacts and their rows

Every contact was loaded from a row of the table, for the campaign that the row
names. Campaigns have distinct ids, so a contact that is loaded once is there
once in the whole process.

* `worldStep_listed`: every step of both threads keeps the contacts listed.
* `Listed.unique`: there is one destination for each row.
* `step_ids`: a campaign keeps its id.
-/

namespace Autodialer

variable {w w' : World} {e : WorldEvent} {s s' : Sys} {b b' : Book} {cp : CampId}
  {camp camp' : Campaign} {calls : List CallRecord} {ans : CallId → Addr → Prop}

/-- The contacts of `b` have rows in the table, under the ids of their campaigns, and these
ids have 32 bits. -/
structure Listed (calls : List CallRecord) (b : Book) : Prop where
  widths : ∀ cp camp, b.camps.get cp = some camp → camp.campaignId < 2 ^ 32
  campaigns : ∀ cp cp' camp camp', b.camps.get cp = some camp → b.camps.get cp' = some camp' →
    camp.campaignId = camp'.campaignId → cp = cp'
  contacts : ∀ d dest camp, b.dests.get d = some dest → b.camps.get dest.cp = some camp →
    ∃ r ∈ calls, r.id = dest.destId ∧ r.campaignId = camp.campaignId

/-- The campaigns of `b'` are campaigns of `b` with their ids, and perhaps a new one
with a new id. -/
def Enrolled (b b' : Book) : Prop :=
  ∀ cp camp', b'.camps.get cp = some camp' →
    (∃ camp, b.camps.get cp = some camp ∧ camp'.campaignId = camp.campaignId) ∨
    (cp = b.camps.next ∧ camp'.campaignId < 2 ^ 32 ∧
      ∀ cp camp, b.camps.get cp = some camp → camp.campaignId ≠ camp'.campaignId)

theorem Enrolled.steady (steady : Steady b b') : Enrolled b b' := by
  intro cp camp' live
  obtain ⟨camp, old, _, _, _, _, rfl⟩ := steady cp camp' live
  exact .inl ⟨camp, old, rfl⟩

/-- No two campaigns have the same id. -/
def DistinctIds (b : Book) : Prop :=
  ∀ cp cp' camp camp', b.camps.get cp = some camp → b.camps.get cp' = some camp' →
    camp.campaignId = camp'.campaignId → cp = cp'

theorem Enrolled.distinct (enrolled : Enrolled b b') (distinct : DistinctIds b) :
    DistinctIds b' := by
  intro cp cp' camp camp' live live' same
  rcases enrolled cp camp live with ⟨old, liveOld, id⟩ | ⟨new, -, other⟩ <;>
    rcases enrolled cp' camp' live' with ⟨old', liveOld', id'⟩ | ⟨new', -, other'⟩
  · exact distinct cp cp' old old' liveOld liveOld' (id ▸ id' ▸ same)
  · exact absurd (id ▸ same) (other' cp old liveOld)
  · exact absurd (id' ▸ same.symm) (other cp' old' liveOld')
  · rw [new, new']

theorem Listed.empty : Listed calls {} where
  widths _ _ live := by cases live
  campaigns _ _ _ _ live := by cases live
  contacts _ _ _ live := by cases live

theorem Listed.step (listed : Listed calls b) (partition : Partition b) (fewer : Fewer b b')
    (enrolled : Enrolled b b') : Listed calls b' where
  widths cp camp' live' := by
    rcases enrolled cp camp' live' with ⟨camp, live, id⟩ | ⟨-, width, -⟩
    · rw [id]
      exact listed.widths cp camp live
    · exact width
  campaigns := enrolled.distinct listed.campaigns
  contacts d dest' camp' live' liveCamp' := by
    obtain ⟨dest, live, sameId, sameCamp⟩ := fewer.same d dest' live'
    obtain ⟨_, camp, -, -, liveCamp, -⟩ := partition.linked d dest live
    rw [sameId]
    rw [sameCamp] at liveCamp'
    rcases enrolled dest.cp camp' liveCamp' with ⟨old, liveOld, id⟩ | ⟨new, -⟩
    · rw [id]
      exact listed.contacts d dest old live liveOld
    · exact absurd new (Nat.ne_of_lt (Heap.lt_next liveCamp))

/-- A longer table. -/
theorem Listed.mono {calls' : List CallRecord} (listed : Listed calls b)
    (more : ∀ r ∈ calls, ∃ r' ∈ calls', r'.id = r.id ∧ r'.campaignId = r.campaignId) :
    Listed calls' b where
  widths := listed.widths
  campaigns := listed.campaigns
  contacts d dest camp live liveCamp := by
    obtain ⟨r, mem, id, campaign⟩ := listed.contacts d dest camp live liveCamp
    obtain ⟨r', mem', id', campaign'⟩ := more r mem
    exact ⟨r', mem', id'.trans id, campaign'.trans campaign⟩

/-- `%d` prints the id of a contact as its row has it. -/
theorem Listed.printed {d : DestId} {dest : Destination} (listed : Listed calls b)
    (partition : Partition b) (live : b.dests.get d = some dest) :
    toInt32 dest.destId = dest.destId := by
  obtain ⟨_, camp, -, -, liveCamp, -⟩ := partition.linked d dest live
  obtain ⟨r, -, id, -⟩ := listed.contacts d dest camp live liveCamp
  exact toInt32_of_lt (id ▸ of_decide_eq_true r.idIsInt)

/-- Two destinations for one row are the same destination. -/
theorem Listed.unique {d d' : DestId} {dest dest' : Destination} (listed : Listed calls b)
    (partition : Partition b) (ids : (calls.map CallRecord.id).Nodup) (noTwice : NoTwice b)
    (live : b.dests.get d = some dest) (live' : b.dests.get d' = some dest')
    (same : dest.destId = dest'.destId) : d = d' := by
  obtain ⟨_, camp, -, -, liveCamp, -⟩ := partition.linked d dest live
  obtain ⟨_, camp', -, -, liveCamp', -⟩ := partition.linked d' dest' live'
  obtain ⟨r, mem, id, campaign⟩ := listed.contacts d dest camp live liveCamp
  obtain ⟨r', mem', id', campaign'⟩ := listed.contacts d' dest' camp' live' liveCamp'
  have oneRow : r = r' :=
    List.inj_on_of_nodup_map ids mem mem' (id.trans (same.trans id'.symm))
  have oneCampaign : dest.cp = dest'.cp :=
    listed.campaigns _ _ camp camp' liveCamp liveCamp'
      (campaign.symm.trans ((congrArg _ oneRow).trans campaign'))
  exact noTwice d d' dest dest' live live' oneCampaign same

/-! ## The pass -/

theorem readCampaign_ids {row : CampaignRow} {cp' : CampId} {camp' : Campaign}
    (run : readCampaign s cp row = .ok s') (live : s'.book.camps.get cp' = some camp') :
    ∃ camp, s.book.camps.get cp' = some camp ∧
      camp'.campaignId = if cp' = cp then row.id else camp.campaignId := by
  rcases readCampaign_origin run live with ⟨ne, old⟩ | ⟨rfl, camp, _, _, old, -, -, rfl⟩
  · exact ⟨camp', old, (if_neg ne).symm⟩
  · exact ⟨camp, old, (if_pos rfl).symm⟩

theorem pullCampaign_enrolled {row : CampaignRow} (inv : Inv ans s)
    (run : pullCampaign s row = .ok s') : Enrolled s.book s'.book := by
  intro cp' camp' live
  rcases pullCampaign_cases run with ⟨rfl, -⟩ | ⟨cp, -, ⟨found, liveFound, isRow⟩, run⟩ |
    ⟨-, others, run⟩
  · exact .inl ⟨camp', live, rfl⟩
  · obtain ⟨camp, old, id⟩ := readCampaign_ids run live
    refine .inl ⟨camp, old, id.trans ?_⟩
    split
    next same =>
      subst same
      obtain rfl := Option.some.inj (old.symm.trans liveFound)
      exact isRow.symm
    next => rfl
  · obtain ⟨camp, old, id⟩ := readCampaign_ids run live
    rcases createCamp_camps old with ⟨new, -⟩ | ⟨not, created⟩
    · rw [if_pos new] at id
      refine .inr ⟨new, id ▸ of_decide_eq_true row.idIsUInt32, fun cp camp live => ?_⟩
      obtain ⟨same, liveSame, other⟩ := others cp ((inv.rostered.mem cp).mpr ⟨camp, live⟩)
      obtain rfl := Option.some.inj (live.symm.trans liveSame)
      rw [id]
      exact other
    · rw [if_neg not] at id
      exact .inl ⟨camp, created, id⟩

theorem pullService_ids {select : Nat → Option (List CallRow)}
    {actions : Nat → Option (List ActionRow)} {cp' : CampId} {camp' : Campaign}
    (run : pullService select actions s cp = .ok s') (live : s'.book.camps.get cp' = some camp') :
    ∃ camp, s.book.camps.get cp' = some camp ∧ camp'.campaignId = camp.campaignId := by
  rcases pullService_origin run live with old | ⟨rfl, camp, _, _, old, -, -, rfl⟩
  · exact ⟨camp', old, rfl⟩
  · exact ⟨camp, old, rfl⟩

theorem pullService_distinct {select : Nat → Option (List CallRow)}
    {actions : Nat → Option (List ActionRow)} (distinct : DistinctIds s.book)
    (run : pullService select actions s cp = .ok s') : DistinctIds s'.book := by
  intro cp₁ cp₂ camp₁ camp₂ live₁ live₂ same
  obtain ⟨old₁, liveOld₁, id₁⟩ := pullService_ids run live₁
  obtain ⟨old₂, liveOld₂, id₂⟩ := pullService_ids run live₂
  exact distinct cp₁ cp₂ old₁ old₂ liveOld₁ liveOld₂ (id₁ ▸ id₂ ▸ same)

/-- A row has the id that is asked for, not only one that `%d` prints as it. -/
theorem mem_selectCalls {id : Nat} {row : CallRow} (mem : row ∈ selectCalls calls id)
    (width : id < 2 ^ 32) :
    ∃ r ∈ calls, r.id = row.id ∧ r.campaignId = id ∧ r.callDuration = 0 := by
  obtain ⟨r, isSelected, rfl⟩ := List.mem_map.mp mem
  obtain ⟨isRecord, where_⟩ := List.mem_filter.mp isSelected
  rw [Bool.and_eq_true, decide_eq_true_eq, decide_eq_true_eq] at where_
  obtain ⟨zero, printed⟩ := where_
  have isInt := of_decide_eq_true r.campaignIsInt
  rw [toInt32, Int.bmod_def] at printed
  exact ⟨r, isRecord, rfl, by omega, zero⟩

/-- A service loads contacts that are in the table. -/
theorem pullService_listed {ok : Bool} {actions : Nat → Option (List ActionRow)}
    (listed : Listed w.calls w.sys.book) (run : pullService (w.selected ok) actions w.sys cp = .ok s') :
    Listed w.calls s'.book where
  widths cp' camp' live' := by
    obtain ⟨camp, live, id⟩ := pullService_ids run live'
    rw [id]
    exact listed.widths cp' camp live
  campaigns := pullService_distinct listed.campaigns run
  contacts d dest camp' live liveCamp := by
    obtain ⟨camp, liveOld, id⟩ := pullService_ids run liveCamp
    rw [id]
    rcases pullService_dests run live with old | ⟨-, camp₀, rows, liveCamp₀, -, found, row, mem, isRow⟩
    · exact listed.contacts d dest camp old liveOld
    · have onCp : dest.cp = cp := by rw [isRow]; rfl
      have isId : dest.destId = row.id := by rw [isRow]; rfl
      rw [onCp] at liveOld
      obtain rfl := Option.some.inj (liveOld.symm.trans liveCamp₀)
      unfold rowsFor at found
      split at found
      next =>
        obtain ⟨-, -, rfl⟩ := selected_some found
        obtain ⟨r, isRecord, sameId, campaign, -⟩ :=
          mem_selectCalls mem (listed.widths _ _ liveCamp₀)
        exact ⟨r, isRecord, sameId.trans isId.symm, campaign⟩
      next =>
        cases found
        cases mem

/-! ## Steps -/

theorem worldStep_listed (inv : Inv.Any w.sys) (listed : Listed w.calls w.sys.book)
    (step : world.step w e w') : Listed w'.calls w'.sys.book := by
  cases worldStep_cases step with
  | main main taken =>
    exact listed.step inv.partition (mainStep_fewer inv main taken)
      (.steady (mainStep_steady inv main taken))
  | sync =>
    refine listed.mono fun r mem => ⟨_, List.mem_map.mpr ⟨r, mem, rfl⟩, rfl, rfl⟩
  | gateways _ run =>
    exact Fallible.foldlM_rule (I := fun _ t => Listed w.calls t.book)
      (fun row _ t t' listed run => by rw [pullGateway_frame run]; exact listed) listed run
  | campaigns _ run =>
    have account := Fallible.foldlM_rule (I := fun _ t => Inv.Any t ∧ Listed w.calls t.book)
      (fun row _ t t' ⟨inv, listed⟩ run => ⟨inv.campaign run,
        listed.step inv.partition (pullCampaign_fewer run) (pullCampaign_enrolled inv run)⟩)
      ⟨inv, listed⟩ run
    exact account.2
  | service _ run => exact pullService_listed (w := w) listed run
  | passed => exact listed
  | woken => exact listed
  | inserted => exact listed.mono fun r mem => ⟨r, List.mem_append_left _ mem, rfl, rfl⟩

theorem step_distinct {e : Event} (inv : Inv ans s) (distinct : DistinctIds s.book)
    (step : dialer.step s e s') : DistinctIds s'.book := by
  cases main : e.isMain with
  | true => exact (Enrolled.steady (mainStep_steady inv main step)).distinct distinct
  | false =>
    obtain ⟨snap, rfl, run⟩ := pass_of_step step main
    have pass : Inv ans s' ∧ DistinctIds s'.book := by
      refine pullGroups_rule (I := fun t => Inv ans t ∧ DistinctIds t.book) ?_ ?_ ?_
        ⟨inv, distinct⟩ run
      · rintro t row t' ⟨inv, distinct⟩ run
        refine ⟨inv.gateway run, ?_⟩
        rw [pullGateway_frame run]
        exact distinct
      · rintro t row t' ⟨inv, distinct⟩ run
        exact ⟨inv.campaign run, (pullCampaign_enrolled inv run).distinct distinct⟩
      · rintro calls actions t cp t' ⟨inv, distinct⟩ - run
        exact ⟨inv.service run, pullService_distinct distinct run⟩
    exact pass.2

/-! ## What a pass makes of a campaign -/

/-- A row rewrites the campaign that has its id and leaves the others alone. -/
theorem pullCampaign_at {row : CampaignRow} (run : pullCampaign s row = .ok s')
    (old : cp < s.book.camps.next) (live' : s'.book.camps.get cp = some camp') :
    s.book.camps.get cp = some camp' ∨ ∃ camp gateway pbxGateway,
      s.book.camps.get cp = some camp ∧ camp.campaignId = row.id ∧
      findGateway s row.gatewayId s.gatewayList = .ok gateway ∧
      findGateway s row.pbxGatewayId s.gatewayList = .ok pbxGateway ∧
      camp' = (camp.readHead row).readTail row gateway pbxGateway := by
  rcases pullCampaign_cases run with ⟨rfl, -⟩ | ⟨cp', -, ⟨camp, live, isRow⟩, run⟩ | ⟨-, -, run⟩
  · exact .inl live'
  · rcases readCampaign_origin run live' with
      ⟨-, live₀⟩ | ⟨rfl, _, gateway, pbxGateway, live₀, found, foundPbx, read⟩
    · exact .inl live₀
    · cases live.symm.trans live₀
      exact .inr ⟨camp, gateway, pbxGateway, live, isRow, found, foundPbx, read⟩
  · obtain ⟨_, -, -, others⟩ := readCampaign_camps run
    have ne : cp ≠ s.book.camps.next := Nat.ne_of_lt old
    rcases createCamp_camps ((others cp ne).symm.trans live') with ⟨new, -⟩ | ⟨-, kept⟩
    · exact absurd new ne
    · exact .inl kept

/-- The rows of a campaign, read after those of the gateways. -/
theorem pullCampaigns_camp {P : Campaign → Prop} {rows : List CampaignRow}
    (run : pullCampaigns s rows = .ok s') (live : s.book.camps.get cp = some camp) (start : P camp)
    (read : ∀ row ∈ rows, ∀ old gateway pbxGateway, row.id = camp.campaignId →
      findGateway s row.gatewayId s.gatewayList = .ok gateway →
      findGateway s row.pbxGatewayId s.gatewayList = .ok pbxGateway → P old →
      P ((old.readHead row).readTail row gateway pbxGateway)) :
    ∀ camp', s'.book.camps.get cp = some camp' → camp'.campaignId = camp.campaignId ∧ P camp' := by
  have account := Fallible.foldlM_rule (I := fun rest t => s.book.camps.Later t.book.camps ∧
      (t.gateways = s.gateways ∧ t.gatewayList = s.gatewayList) ∧ (∀ row ∈ rest, row ∈ rows) ∧
      ∀ camp', t.book.camps.get cp = some camp' → camp'.campaignId = camp.campaignId ∧ P camp')
    ?_ ⟨.refl _, ⟨rfl, rfl⟩, fun _ mem => mem, fun camp' live' => ?_⟩ run
  · exact account.2.2.2
  · rintro row rest t t' ⟨later, ⟨gateways, list⟩, within, same⟩ run
    obtain ⟨keptGateways, keptList⟩ := pullCampaign_gateways run
    refine ⟨later.trans (pullCampaign_later run), ⟨keptGateways.trans gateways, keptList.trans list⟩,
      fun row mem => within row (List.mem_cons_of_mem _ mem), fun camp' live' => ?_⟩
    have old : cp < t.book.camps.next := Nat.lt_of_lt_of_le (Heap.lt_next live) later.1
    rcases pullCampaign_at run old live' with kept |
      ⟨found, gateway, pbxGateway, liveFound, isRow, isGateway, isPbx, rfl⟩
    · exact same camp' kept
    · obtain ⟨id, holds⟩ := same found liveFound
      rw [findGateway_congr gateways, list] at isGateway isPbx
      have isCamp : row.id = camp.campaignId := isRow.symm.trans id
      exact ⟨isCamp, read row (within row List.mem_cons_self) found gateway pbxGateway isCamp
        isGateway isPbx holds⟩
  · cases live.symm.trans live'
    exact ⟨rfl, start⟩

/-- The invariant rule of a pass for one campaign: its rows are read with the gateways that
are there after the rows of the gateways, and it may be given contacts and actions. -/
theorem pull_camp {snap : Snapshot} {P : Campaign → Prop} (run : pullGroups s snap = .ok s')
    (live : s.book.camps.get cp = some camp) (start : P camp)
    (read : ∀ gateways rows t, snap.gateways = some gateways → snap.campaigns = some rows →
      pullGateways s gateways = .ok t → ∀ row ∈ rows, ∀ old gateway pbxGateway,
      row.id = camp.campaignId → findGateway t row.gatewayId t.gatewayList = .ok gateway →
      findGateway t row.pbxGatewayId t.gatewayList = .ok pbxGateway → P old →
      P ((old.readHead row).readTail row gateway pbxGateway))
    (reload : ∀ old ds l, P old → P { old with destinations := ds, actions := l })
    (live' : s'.book.camps.get cp = some camp') : camp'.campaignId = camp.campaignId ∧ P camp' := by
  rcases pullGroups_cases run with ⟨-, rfl⟩ | ⟨gateways, t, hasGateways, pulled, rest⟩
  · cases live.symm.trans live'
    exact ⟨rfl, start⟩
  · have liveT : t.book.camps.get cp = some camp := by rw [pullGateways_book pulled, live]
    rcases rest with ⟨-, rfl⟩ | ⟨rows, u, hasRows, campaigns, services⟩
    · cases liveT.symm.trans live'
      exact ⟨rfl, start⟩
    · have middle := pullCampaigns_camp campaigns liveT start
        (read gateways rows t hasGateways hasRows pulled)
      refine Fallible.foldlM_rule (I := fun _ v => ∀ camp', v.book.camps.get cp = some camp' →
        camp'.campaignId = camp.campaignId ∧ P camp') ?_ middle services camp' live'
      intro cp' _ v v' same run camp' live'
      rcases pullService_origin run live' with kept | ⟨rfl, old, _, l, liveOld, -, -, rfl⟩
      · exact same camp' kept
      · obtain ⟨id, holds⟩ := same old liveOld
        exact ⟨id, reload old _ l holds⟩

/-! ## The campaigns that the rows leave -/

/-- The row of a campaign that is there is read into it. -/
theorem pullCampaign_own (inv : Inv ans s) (distinct : DistinctIds s.book)
    (live : s.book.camps.get cp = some camp) (isRow : row.id = camp.campaignId)
    (run : pullCampaign s row = .ok s') : readCampaign s cp row = .ok s' := by
  have listed : cp ∈ s.services := (inv.rostered.mem cp).mpr ⟨camp, live⟩
  have known : ¬ ∀ cp ∈ s.services, ∃ camp, s.book.camps.get cp = some camp ∧
      camp.campaignId ≠ row.id := by
    intro others
    obtain ⟨camp', live', other⟩ := others cp listed
    cases live.symm.trans live'
    exact other isRow.symm
  rcases pullCampaign_cases run with ⟨-, -, others⟩ | ⟨cp', -, ⟨camp', live', isRow'⟩, read⟩ |
    ⟨-, others, -⟩
  · exact absurd others known
  · obtain rfl := distinct cp cp' camp camp' live live' (isRow.symm.trans isRow'.symm)
    exact read
  · exact absurd others known

/-- The row of another campaign leaves this one alone. -/
theorem pullCampaign_other (live : s.book.camps.get cp = some camp)
    (notRow : row.id ≠ camp.campaignId) (run : pullCampaign s row = .ok s') :
    s'.book.camps.get cp = some camp := by
  rcases pullCampaign_cases run with ⟨rfl, -⟩ | ⟨cp', -, ⟨camp', live', isRow⟩, read⟩ | ⟨-, -, read⟩
  · exact live
  · have ne : cp ≠ cp' := by
      rintro rfl
      cases live.symm.trans live'
      exact notRow isRow.symm
    obtain ⟨-, -, -, others⟩ := readCampaign_camps read
    exact (others cp ne).trans live
  · obtain ⟨-, -, -, others⟩ := readCampaign_camps read
    exact (others cp (Heap.ne_next live)).trans (Heap.get_alloc_of_live live)

/-- What a pass relies on between two rows. -/
structure BetweenRows (ans : CallId → Addr → Prop) (s : Sys) : Prop where
  inv : Inv ans s
  distinct : DistinctIds s.book

theorem BetweenRows.next (between : BetweenRows ans s) (run : pullCampaign s row = .ok s') :
    BetweenRows ans s' :=
  ⟨between.inv.campaign run, (pullCampaign_enrolled between.inv run).distinct between.distinct⟩

/-- What the loop over the services looks at in a campaign: whether it is running, and whether there
is something on its two lists. -/
structure Standing where
  isRunning : Bool
  loaded : Bool
  busy : Bool
deriving DecidableEq, Repr

def Campaign.standing (camp : Campaign) : Standing where
  isRunning := camp.isRunning
  loaded := !camp.destinations.isEmpty
  busy := !camp.processl.isEmpty

/-- The standing of the campaign with this id; `none` if there is no such campaign. -/
def Sys.standingOf (s : Sys) (id : Nat) : Option Standing :=
  s.services.findSome? fun cp => (s.book.camps.get cp).bind fun camp =>
    if camp.campaignId = id then some camp.standing else none

/-- What a row leaves of the campaign with this id. -/
def CampaignRow.mirror (id : Nat) (standing : Option Standing) (row : CampaignRow) :
    Option Standing :=
  if row.id = id then
    match standing with
    | some standing =>
      if 3 < row.status % 2 ^ 8 ∧ standing.busy = false then none else some standing
    | none =>
      if row.status = 2 then some { isRunning := false, loaded := false, busy := false } else none
  else standing

/-- The standing that the rows leave to the campaign with this id. -/
def Sys.standingAfter (s : Sys) (rows : List CampaignRow) (id : Nat) : Option Standing :=
  rows.foldl (CampaignRow.mirror id) (s.standingOf id)

theorem standingOf_eq_none {id : Nat} (between : BetweenRows ans s) : s.standingOf id = none ↔
    ∀ cp camp, s.book.camps.get cp = some camp → camp.campaignId ≠ id := by
  constructor
  · intro unknown cp camp live isId
    have listed : cp ∈ s.services := (between.inv.rostered.mem cp).mpr ⟨camp, live⟩
    have here := List.findSome?_eq_none_iff.mp unknown cp listed
    rw [live, Option.bind_some, if_pos isId] at here
    cases here
  · intro other
    refine List.findSome?_eq_none_iff.mpr fun cp _ => ?_
    cases live : s.book.camps.get cp with
    | none => rfl
    | some camp => exact if_neg (other cp camp live)

theorem standingOf_some {id : Nat} {standing : Standing} (known : s.standingOf id = some standing) :
    ∃ cp camp, s.book.camps.get cp = some camp ∧ camp.campaignId = id ∧
      camp.standing = standing := by
  obtain ⟨cp, -, here⟩ := List.exists_of_findSome?_eq_some known
  obtain ⟨camp, live, isStanding⟩ := Option.bind_eq_some_iff.mp here
  split at isStanding
  next isId => exact ⟨cp, camp, live, isId, Option.some.inj isStanding⟩
  next => cases isStanding

theorem BetweenRows.standingOf {id : Nat} (between : BetweenRows ans s)
    (live : s.book.camps.get cp = some camp) (isId : camp.campaignId = id) :
    s.standingOf id = some camp.standing := by
  cases known : s.standingOf id with
  | none => exact absurd isId ((standingOf_eq_none between).mp known cp camp live)
  | some standing =>
    obtain ⟨cp', camp', live', isId', rfl⟩ := standingOf_some known
    obtain rfl := between.distinct cp cp' camp camp' live live' (isId.trans isId'.symm)
    cases live.symm.trans live'
    rfl

/-- After its row a campaign has the id of the row, and every other one was there before. -/
theorem pullCampaign_origin {row : CampaignRow} (run : pullCampaign s row = .ok s')
    (live' : s'.book.camps.get cp = some camp') :
    camp'.campaignId = row.id ∨ s.book.camps.get cp = some camp' := by
  rcases pullCampaign_cases run with ⟨rfl, -⟩ | ⟨cp', -, -, read⟩ | ⟨-, -, read⟩
  · exact .inr live'
  · rcases readCampaign_origin read live' with ⟨-, live⟩ | ⟨rfl, _, _, _, -, -, -, rfl⟩
    · exact .inr live
    · exact .inl rfl
  · rcases readCampaign_origin read live' with ⟨ne, live⟩ | ⟨rfl, _, _, _, -, -, -, rfl⟩
    · rcases createCamp_camps live with ⟨new, -⟩ | ⟨-, live⟩
      · exact absurd new ne
      · exact .inr live
    · exact .inl rfl

/-- The row of another campaign. -/
theorem pullCampaign_standing_other {row : CampaignRow} {id : Nat} (between : BetweenRows ans s)
    (run : pullCampaign s row = .ok s') (notRow : row.id ≠ id) :
    s'.standingOf id = s.standingOf id := by
  have after := between.next run
  cases known : s.standingOf id with
  | none =>
    rw [standingOf_eq_none after]
    intro cp camp' live' isId
    rcases pullCampaign_origin run live' with isRow | live
    · exact notRow (isRow.symm.trans isId)
    · exact (standingOf_eq_none between).mp known cp camp' live isId
  | some standing =>
    obtain ⟨cp, camp, live, isId, rfl⟩ := standingOf_some known
    exact after.standingOf (pullCampaign_other live (by rwa [isId]) run) isId

/-- A row that is read into a campaign leaves it as it is, or destroys it. -/
theorem readCampaign_standing {row : CampaignRow} (after : BetweenRows ans s')
    (live : s.book.camps.get cp = some camp) (read : readCampaign s cp row = .ok s')
    (only : ∀ cp' camp', s'.book.camps.get cp' = some camp' → camp'.campaignId = row.id → cp' = cp) :
    s'.standingOf row.id =
      if 3 < row.status % 2 ^ 8 ∧ camp.standing.busy = false then none else some camp.standing := by
  obtain ⟨found, liveFound, place, -⟩ := readCampaign_camps read
  cases live.symm.trans liveFound
  have free : camp.standing.busy = false ↔ camp.processl = [] := by simp [Campaign.standing]
  rcases place with ⟨stopped, empty, dead⟩ | ⟨stays, gateway, pbxGateway, live'⟩
  · rw [if_pos ⟨stopped, free.mpr empty⟩, standingOf_eq_none after]
    intro cp' camp' live' isId
    obtain rfl := only cp' camp' live' isId
    cases dead.symm.trans live'
  · rw [if_neg fun ⟨stopped, idle⟩ => stays ⟨stopped, free.mp idle⟩]
    have isRow : ((camp.readHead row).readTail row gateway pbxGateway).campaignId = row.id := rfl
    have standing := after.standingOf live' isRow
    exact standing

/-- One row. -/
theorem pullCampaign_standing {row : CampaignRow} (between : BetweenRows ans s)
    (run : pullCampaign s row = .ok s') (id : Nat) :
    s'.standingOf id = row.mirror id (s.standingOf id) := by
  have after := between.next run
  unfold CampaignRow.mirror
  by_cases isId : row.id = id
  case neg => rw [if_neg isId, pullCampaign_standing_other between run isId]
  subst isId
  rw [if_pos rfl]
  have unknown : (∀ cp ∈ s.services, ∃ camp, s.book.camps.get cp = some camp ∧
      camp.campaignId ≠ row.id) → s.standingOf row.id = none := by
    intro others
    refine (standingOf_eq_none between).mpr fun cp camp live => ?_
    obtain ⟨found, liveFound, other⟩ := others cp ((between.inv.rostered.mem cp).mpr ⟨camp, live⟩)
    cases live.symm.trans liveFound
    exact other
  rcases pullCampaign_cases run with ⟨rfl, idle, others⟩ | ⟨cp, -, ⟨camp, live, isRow⟩, read⟩ |
    ⟨active, others, read⟩
  · rw [unknown others]
    exact (if_neg idle).symm
  · rw [between.standingOf live isRow]
    refine readCampaign_standing after live read fun cp' camp' live' isRow' => ?_
    rcases readCampaign_origin read live' with ⟨-, old⟩ | ⟨same, -⟩
    · exact between.distinct cp' cp camp' camp old live (isRow'.trans isRow.symm)
    · exact same
  · rw [unknown others]
    have live : s.createCamp.book.camps.get s.book.camps.next = some {} :=
      Heap.get_alloc_next _ _
    rw [readCampaign_standing after live read fun cp' camp' live' isRow' => ?_, active]
    · rfl
    · rcases readCampaign_origin read live' with ⟨ne, old⟩ | ⟨same, -⟩
      · rcases createCamp_camps old with ⟨new, -⟩ | ⟨-, old⟩
        · exact new
        · exact absurd isRow' ((standingOf_eq_none between).mp (unknown others) cp' camp' old)
      · exact same

theorem pullCampaigns_standing {rows : List CampaignRow} (between : BetweenRows ans s)
    (run : pullCampaigns s rows = .ok s') (id : Nat) :
    s'.standingOf id = s.standingAfter rows id := by
  have account := Fallible.foldlM_rule
    (I := fun rest t => BetweenRows ans t ∧ t.standingAfter rest id = s.standingAfter rows id)
    (fun row rest t t' ⟨between, same⟩ run => by
      refine ⟨between.next run, ?_⟩
      rw [Sys.standingAfter, pullCampaign_standing between run]
      exact same)
    ⟨between, rfl⟩ run
  exact account.2

/-! ## Reachable states -/

theorem distinct_ids (reach : dialer.Reachable s) : DistinctIds s.book := by
  have account : Inv.Any s ∧ DistinctIds s.book := by
    refine reach.invariant (I := fun s => Inv.Any s ∧ DistinctIds s.book) ?_ ?_
    · rintro s ⟨n, audioPath, -, rfl⟩
      exact ⟨.boot n audioPath, fun _ _ _ _ live => by cases live⟩
    · rintro s e t ⟨inv, distinct⟩ step
      exact ⟨step_inv_hears inv (.anything s e) step, step_distinct inv distinct step⟩
  exact account.2

/-- The rows of the campaigns are read in a state like the one the pass starts from. -/
theorem reads_between (reach : dialer.Reachable s) {gateways : List GatewayRow}
    (pulled : pullGateways s gateways = .ok t) :
    t.book = s.book ∧ ∃ ans, BetweenRows ans t := by
  obtain ⟨ans, inv⟩ := reachable_inv reach
  have book := pullGateways_book pulled
  refine ⟨book, ans, ?_, ?_⟩
  · exact inv.gateways pulled
  · rw [book]
    exact distinct_ids reach

/-- A campaign keeps its id. -/
theorem step_ids {e : Event} (inv : Inv ans s) (step : dialer.step s e s')
    (live : s.book.camps.get cp = some camp) (live' : s'.book.camps.get cp = some camp') :
    camp'.campaignId = camp.campaignId := by
  cases main : e.isMain with
  | true =>
    obtain ⟨old, liveOld, _, _, _, _, rfl⟩ := mainStep_steady inv main step cp camp' live'
    cases live.symm.trans liveOld
    rfl
  | false =>
    obtain ⟨snap, rfl, run⟩ := pass_of_step step main
    refine (pull_camp (P := fun _ => True) run live trivial ?_ (fun _ _ _ => id) live').1
    exact fun _ _ _ _ _ _ _ _ _ _ _ _ _ _ => id

end Autodialer
