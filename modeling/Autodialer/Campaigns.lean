import Autodialer.Contacts

/-!
# Campaigns through a run

The main loop changes nothing of a campaign but its two lists, its timer and
whether it is running; a pass rewrites its settings from its row and leaves
timer and running alone.

* `mainStep_steady`: the main loop keeps the settings of the campaigns.
* `startFakeCalling_camps`, `readCampaign_camps`, `pullService_camps`: what
  becomes of each campaign.
* `step_everyCamp`: what survives every write to a campaign holds of all.
-/

namespace Autodialer

variable {s s' : Sys} {b b' b'' : Book} {d : DestId} {cp : CampId} {dest : Destination}
  {camp camp' : Campaign} {now : Time} {ans : CallId → Addr → Prop}

/-! ## Relations between books -/

/-- The campaigns of `b'` are those of `b`, with perhaps other lists. -/
def Relisted (b b' : Book) : Prop :=
  ∀ cp, ∃ ds ps, b'.camps.get cp =
    (b.camps.get cp).map fun camp => { camp with destinations := ds, processl := ps }

/-- Only the lists of the campaign, and whether it runs, differ. -/
def SameSettings (camp camp' : Campaign) : Prop :=
  ∃ ds ps isRunning tmr, camp' =
    { camp with destinations := ds, processl := ps, isRunning := isRunning, tmr := tmr }

/-- Every campaign of `b'` is one of `b` with the same settings. -/
def Steady (b b' : Book) : Prop :=
  ∀ cp camp', b'.camps.get cp = some camp' →
    ∃ camp, b.camps.get cp = some camp ∧ SameSettings camp camp'

namespace Relisted

theorem of_camps (same : b'.camps = b.camps) : Relisted b b' := by
  intro cp
  rw [same]
  exact (Rearranged.refl b).camps cp

@[refl] theorem refl (b : Book) : Relisted b b := of_camps rfl

theorem trans (first : Relisted b b') (second : Relisted b' b'') : Relisted b b'' := by
  intro cp
  obtain ⟨ds, ps, eq⟩ := first cp
  obtain ⟨ds', ps', eq'⟩ := second cp
  exact ⟨ds', ps', by rw [eq', eq, Option.map_map]; rfl⟩

theorem rearranged (change : Rearranged b b') : Relisted b b' := change.camps

theorem remove (b : Book) (d : DestId) : Relisted b (b.remove d) :=
  (rearranged (Rearranged.unlink b d)).trans (of_camps rfl)

theorem camp_of (change : Relisted b b') (live : b.camps.get cp = some camp) :
    ∃ ds ps, b'.camps.get cp = some { camp with destinations := ds, processl := ps } := by
  obtain ⟨ds, ps, eq⟩ := change cp
  exact ⟨ds, ps, by rw [eq, live]; rfl⟩

theorem of_camp (change : Relisted b b') (live : b'.camps.get cp = some camp') :
    ∃ camp ds ps, b.camps.get cp = some camp ∧
      camp' = { camp with destinations := ds, processl := ps } := by
  obtain ⟨ds, ps, eq⟩ := change cp
  rw [live] at eq
  obtain ⟨camp, old, same⟩ := Option.map_eq_some_iff.mp eq.symm
  exact ⟨camp, ds, ps, old, same.symm⟩

end Relisted

namespace Steady

theorem relisted (change : Relisted b b') : Steady b b' := by
  intro cp camp' live
  obtain ⟨camp, ds, ps, old, rfl⟩ := change.of_camp live
  exact ⟨camp, old, ds, ps, camp.isRunning, camp.tmr, rfl⟩

@[refl] theorem refl (b : Book) : Steady b b := relisted (.refl b)

theorem trans (first : Steady b b') (second : Steady b' b'') : Steady b b'' := by
  intro cp camp'' live
  obtain ⟨camp', live', _, _, _, _, rfl⟩ := second cp camp'' live
  obtain ⟨camp, old, _, _, _, _, rfl⟩ := first cp camp' live'
  exact ⟨camp, old, _, _, _, _, rfl⟩

theorem flags {f : Campaign → Campaign} (flags : Flags f) : Steady b (b.setCamp cp f) := by
  intro cp' camp' live
  rw [Book.camps_setCamp, Heap.get_modify] at live
  split at live
  · obtain ⟨camp, old, rfl⟩ := Option.map_eq_some_iff.mp live
    obtain ⟨isRunning, tmr, eq⟩ := flags camp
    exact ⟨camp, old, camp.destinations, camp.processl, isRunning, tmr, eq⟩
  · exact refl b cp' camp' live

end Steady

/-! ## The main loop -/

theorem DialResult.relisted {env : DialEnv} {destroyed : Bool}
    (result : DialResult s now env d dest s' destroyed) : Relisted s.book s'.book := by
  cases result with
  | skipped => exact Relisted.refl _
  | destroyed => exact Relisted.remove _ d
  | undone => exact Relisted.of_camps rfl
  | placed => exact Relisted.of_camps rfl

theorem EndResult.relisted {env : AllocEnv} {c : CallId} {call : Call}
    (result : EndResult s now env d dest c call s') : Relisted s.book s'.book := by
  cases result with
  | rearmed _ rules =>
    rw [rules.frame]
    exact Relisted.of_camps rfl
  | destroyed => exact Relisted.remove _ d
  | requeued =>
    have idle : Relisted s.book (s.book.setDest d fun dest => { dest with call := none }) :=
      .of_camps rfl
    exact idle.trans (.rearranged (Rearranged.moveTo _ d _))

/-- A tick says of its campaign whether it runs and arms its timer if so. It
changes nothing but the lists of the others. -/
theorem startFakeCalling_camps {env : DestId → DialEnv}
    (run : startFakeCalling s cp now env = .ok s') :
    ∃ camp, s.book.camps.get cp = some camp ∧
      (∃ ds ps, s'.book.camps.get cp = some (if camp.campaignStatus = 2 then
        { camp with destinations := ds, processl := ps, tmr := true }
        else { camp with destinations := ds, processl := ps, isRunning := false })) ∧
      ∀ cp', cp' ≠ cp → ∃ ds ps, s'.book.camps.get cp' =
        (s.book.camps.get cp').map fun camp => { camp with destinations := ds, processl := ps } := by
  obtain ⟨camp, live, ⟨other, rfl⟩ | ⟨active, book, camp', t, filled, -, dialled, rfl⟩⟩ :=
    startFakeCalling_cases run
  · refine ⟨camp, live, ⟨camp.destinations, camp.processl, ?_⟩, fun cp' ne => ?_⟩
    · simp [Sys.setCamp, live, other]
    · rw [Sys.setCamp, Book.camps_setCamp, Heap.get_modify_ne ne]
      exact Relisted.refl s.book cp'
  · have filled : Relisted s.book book := .rearranged (fillProcessl_rearranged filled)
    obtain ⟨_, change⟩ := dialLoop_rule (I := fun _ t => Relisted s.book t.book)
      (fun _ _ _ _ _ _ _ change _ result => change.trans result.relisted) filled dialled
    obtain ⟨ds, ps, after⟩ := change.camp_of live
    refine ⟨camp, live, ⟨ds, ps, ?_⟩, fun cp' ne => ?_⟩
    · simp [Sys.setCamp, after, active]
    · rw [Sys.setCamp, Book.camps_setCamp, Heap.get_modify_ne ne]
      exact change cp'

theorem startFakeCalling_steady {env : DestId → DialEnv}
    (run : startFakeCalling s cp now env = .ok s') : Steady s.book s'.book :=
  startFakeCalling_rule (I := fun t => Steady s.book t.book)
    (fun _ _ steady flags => steady.trans (.flags flags))
    (fun _ steady filled => steady.trans (.relisted (.rearranged (fillProcessl_rearranged filled))))
    (fun _ _ _ _ _ _ steady _ result => steady.trans (.relisted result.relisted))
    (Steady.refl _) run

theorem mainStep_steady {e : Event} (inv : Inv ans s) (main : e.isMain = true)
    (step : dialer.step s e s') : Steady s.book s'.book := by
  cases step_cases step with
  | pulled => cases main
  | @ticked _ cp _ _ _ _ ticks run =>
    obtain ⟨f, msgq, torn, lost, flags, rfl⟩ := ticks.state
    have starts : Steady s.book (s.book.setCamp cp f) := .flags flags
    exact starts.trans (startFakeCalling_steady run)
  | @supervised d _ _ _ _ live armed run =>
    obtain ⟨c, call, -, -, result⟩ := inv.supervised_cases live armed run
    have disarmed : Steady s.book (s.disarmDest d).book := .relisted (.of_camps rfl)
    exact disarmed.trans (.relisted result.relisted)
  | calledBack => exact Steady.refl _
  | lost => exact Steady.refl _

/-- The gateways and the actions are as before. -/
structure SameConfig (s s' : Sys) : Prop where
  gateways : s'.gateways = s.gateways
  gatewayList : s'.gatewayList = s.gatewayList
  actions : s'.actions = s.actions

theorem DialResult.config {env : DialEnv} {destroyed : Bool}
    (result : DialResult s now env d dest s' destroyed) : SameConfig s s' := by
  cases result <;> exact ⟨rfl, rfl, rfl⟩

theorem EndResult.config {env : AllocEnv} {c : CallId} {call : Call}
    (result : EndResult s now env d dest c call s') : SameConfig s s' := by
  cases result with
  | rearmed _ rules =>
    rw [rules.frame]
    exact ⟨rfl, rfl, rfl⟩
  | destroyed => exact ⟨rfl, rfl, rfl⟩
  | requeued => exact ⟨rfl, rfl, rfl⟩

/-- The main loop touches neither the gateways nor the actions. -/
theorem mainStep_config {e : Event} (inv : Inv ans s) (main : e.isMain = true)
    (step : dialer.step s e s') : SameConfig s s' := by
  cases step_cases step with
  | pulled => cases main
  | @ticked _ cp _ _ t _ ticks run =>
    obtain ⟨f, msgq, torn, lost, -, state⟩ := ticks.state
    have starts : SameConfig s t := by
      rw [state]
      exact ⟨rfl, rfl, rfl⟩
    exact startFakeCalling_rule (I := fun u => SameConfig s u)
      (fun _ _ same _ => ⟨same.gateways, same.gatewayList, same.actions⟩)
      (fun _ same _ => ⟨same.gateways, same.gatewayList, same.actions⟩)
      (fun _ _ _ _ _ _ same _ result =>
        have dialled := result.config
        ⟨dialled.gateways.trans same.gateways, dialled.gatewayList.trans same.gatewayList,
          dialled.actions.trans same.actions⟩)
      starts run
  | @supervised d _ _ _ _ live armed run =>
    obtain ⟨_, _, -, -, result⟩ := inv.supervised_cases live armed run
    have same := result.config
    exact ⟨same.gateways, same.gatewayList, same.actions⟩
  | calledBack => exact ⟨rfl, rfl, rfl⟩
  | lost => exact ⟨rfl, rfl, rfl⟩

/-! ## The pass -/

/-- A row rewrites its campaign or ends it, and leaves the others alone. -/
theorem readCampaign_camps {row : CampaignRow} (run : readCampaign s cp row = .ok s') :
    ∃ camp, s.book.camps.get cp = some camp ∧
      ((3 < row.status % 2 ^ 8 ∧ camp.processl = [] ∧ s'.book.camps.get cp = none) ∨
        (¬ (3 < row.status % 2 ^ 8 ∧ camp.processl = []) ∧ ∃ gateway pbxGateway,
          s'.book.camps.get cp = some ((camp.readHead row).readTail row gateway pbxGateway))) ∧
      ∀ cp', cp' ≠ cp → s'.book.camps.get cp' = s.book.camps.get cp' := by
  obtain ⟨camp, live, ⟨stopped, noCalls, run⟩ | ⟨going, gateway, pbxGateway, rfl⟩⟩ :=
    readCampaign_cases run
  · obtain ⟨_, t, -, flushed, rfl⟩ := memDerefCampaign_cases run
    obtain ⟨-, camps, -⟩ := flushDests_book flushed
    refine ⟨camp, live, .inl ⟨stopped, noCalls, Heap.get_free_self _ _⟩, fun cp' ne => ?_⟩
    refine (Heap.get_free_ne ne).trans ?_
    rw [camps]
    exact Heap.get_modify_ne ne
  · refine ⟨camp, live, .inr ⟨going, gateway, pbxGateway, ?_⟩, fun cp' ne => ?_⟩
    · simp [Sys.setCamp, live]
    · exact Heap.get_modify_ne ne

/-- A campaign after a row: another one as it was, or the one of the row as the row has it. -/
theorem readCampaign_origin {row : CampaignRow} {cp' : CampId} {camp' : Campaign}
    (run : readCampaign s cp row = .ok s') (live' : s'.book.camps.get cp' = some camp') :
    (cp' ≠ cp ∧ s.book.camps.get cp' = some camp') ∨
      (cp' = cp ∧ ∃ camp gateway pbxGateway, s.book.camps.get cp = some camp ∧
        findGateway s row.gatewayId s.gatewayList = .ok gateway ∧
        findGateway s row.pbxGatewayId s.gatewayList = .ok pbxGateway ∧
        camp' = (camp.readHead row).readTail row gateway pbxGateway) := by
  rcases eq_or_ne cp' cp with rfl | ne
  · obtain ⟨camp, live, ⟨-, -, gone⟩ | ⟨-, gateway, pbxGateway, found, foundPbx, rfl⟩⟩ :=
      readCampaign_finds run
    · obtain ⟨_, _, -, -, rfl⟩ := memDerefCampaign_cases gone
      cases (Heap.get_free_self _ _).symm.trans live'
    · refine .inr ⟨rfl, camp, gateway, pbxGateway, live, found, foundPbx, ?_⟩
      simpa [Sys.setCamp, live] using live'.symm
  · obtain ⟨_, -, -, others⟩ := readCampaign_camps run
    exact .inl ⟨ne, (others cp' ne).symm.trans live'⟩

/-- The loaded contacts are put at the end of the list of destinations. -/
theorem loadContacts_camps (cp : CampId) (rows : List CallRow) (b : Book) (cp' : CampId) :
    (rows.foldl (loadContact cp) b).camps.get cp' =
      if cp' = cp then (b.camps.get cp').map fun camp =>
        { camp with destinations := camp.destinations ++ List.range' b.dests.next rows.length }
      else b.camps.get cp' := by
  induction rows generalizing b with
  | nil =>
    split
    · cases live : b.camps.get cp' <;> simp [live]
    · rfl
  | cons row rest ih =>
    have first : loadContact cp b row = _ := listAppend_alloc b (.destinations cp) rfl
    rw [List.foldl_cons, ih, loadContact_dests, Heap.next_alloc, List.length_cons, List.range'_succ,
      first, Book.camps_setCamp, Heap.get_modify]
    by_cases here : cp' = cp
    · simp [here, Ring.cp, Campaign.edit, Function.comp_def]
    · simp [here, Ring.cp]

/-- A service is given contacts and actions and a start message, or is passed over. -/
theorem pullService_camps {calls : Nat → Option (List CallRow)}
    {actions : Nat → Option (List ActionRow)} (run : pullService calls actions s cp = .ok s') :
    ∃ camp, s.book.camps.get cp = some camp ∧
      ((s' = s ∧ (camp.isRunning = true ∨ rowsFor calls camp = none)) ∨
        (camp.isRunning = false ∧ s'.msgq = s.msgq ++ [(camp.campaignId, cp)] ∧
          ∃ rows l, rowsFor calls camp = some rows ∧ s'.book.camps.get cp = some { camp with
            destinations := camp.destinations ++ List.range' s.book.dests.next rows.length
            actions := l })) ∧
      ∀ cp', cp' ≠ cp → s'.book.camps.get cp' = s.book.camps.get cp' := by
  obtain ⟨camp, live, ⟨rfl, passed⟩ | ⟨stopped, rows, acts, l, found, -, rfl⟩⟩ :=
    pullService_cases run
  · exact ⟨camp, live, .inl ⟨rfl, passed⟩, fun _ _ => rfl⟩
  · refine ⟨camp, live, .inr ⟨stopped, rfl, rows, l, found, ?_⟩, fun cp' ne => ?_⟩
    · refine (Heap.get_modify_self ..).trans ?_
      rw [loadContacts_camps, if_pos rfl, live]
      rfl
    · refine (Heap.get_modify_ne ne).trans ?_
      rw [loadContacts_camps, if_neg ne]

/-- A campaign after a service was visited: as it was, or the one visited with what was loaded
into it. -/
theorem pullService_origin {calls : Nat → Option (List CallRow)}
    {actions : Nat → Option (List ActionRow)} {cp' : CampId} {camp' : Campaign}
    (run : pullService calls actions s cp = .ok s') (live' : s'.book.camps.get cp' = some camp') :
    s.book.camps.get cp' = some camp' ∨
      (cp' = cp ∧ ∃ camp rows l, s.book.camps.get cp = some camp ∧ camp.isRunning = false ∧
        rowsFor calls camp = some rows ∧ camp' = { camp with
          destinations := camp.destinations ++ List.range' s.book.dests.next rows.length
          actions := l }) := by
  obtain ⟨camp, live, here, others⟩ := pullService_camps run
  rcases eq_or_ne cp' cp with rfl | ne
  · rcases here with ⟨rfl, -⟩ | ⟨stopped, -, rows, l, found, loaded⟩
    · exact .inl live'
    · exact .inr ⟨rfl, camp, rows, l, live, stopped, found,
        Option.some.inj (live'.symm.trans loaded)⟩
  · exact .inl ((others cp' ne).symm.trans live')

/-! ## What holds of every campaign -/

/-- Every campaign has the property. -/
def EveryCamp (P : Campaign → Prop) (b : Book) : Prop :=
  ∀ cp camp, b.camps.get cp = some camp → P camp

/-- The property holds of a new campaign and survives every write to one. -/
structure Persistent (P : Campaign → Prop) : Prop where
  new : P {}
  row : ∀ camp row gateway pbxGateway, P camp →
    P ((camp.readHead row).readTail row gateway pbxGateway)
  settings : ∀ camp camp', SameSettings camp camp' → P camp → P camp'
  actions : ∀ camp l, P camp → P { camp with actions := l }

section Persistent

variable {P : Campaign → Prop}

theorem EveryCamp.steady (every : EveryCamp P b) (persistent : Persistent P)
    (steady : Steady b b') : EveryCamp P b' := by
  intro cp camp' live
  obtain ⟨camp, old, same⟩ := steady cp camp' live
  exact persistent.settings camp camp' same (every cp camp old)

theorem readCampaign_everyCamp {row : CampaignRow} (persistent : Persistent P)
    (every : EveryCamp P s.book) (run : readCampaign s cp row = .ok s') : EveryCamp P s'.book := by
  intro cp' camp' live'
  rcases readCampaign_origin run live' with ⟨-, live⟩ | ⟨-, camp, _, _, live, -, -, rfl⟩
  · exact every cp' camp' live
  · exact persistent.row camp row _ _ (every cp camp live)

theorem pullCampaign_everyCamp {row : CampaignRow} (persistent : Persistent P)
    (every : EveryCamp P s.book) (run : pullCampaign s row = .ok s') : EveryCamp P s'.book := by
  rcases pullCampaign_cases run with ⟨rfl, -⟩ | ⟨cp, -, -, run⟩ | ⟨-, -, run⟩
  · exact every
  · exact readCampaign_everyCamp persistent every run
  · refine readCampaign_everyCamp persistent (fun cp camp live => ?_) run
    rcases createCamp_camps live with ⟨-, rfl⟩ | ⟨-, live⟩
    · exact persistent.new
    · exact every cp camp live

theorem pullService_everyCamp {calls : Nat → Option (List CallRow)}
    {actions : Nat → Option (List ActionRow)} (persistent : Persistent P)
    (every : EveryCamp P s.book) (run : pullService calls actions s cp = .ok s') :
    EveryCamp P s'.book := by
  intro cp' camp' live'
  rcases pullService_origin run live' with live | ⟨-, camp, rows, l, live, -, -, rfl⟩
  · exact every cp' camp' live
  · have listed : P { camp with
        destinations := camp.destinations ++ List.range' s.book.dests.next rows.length } :=
      persistent.settings camp _ ⟨_, camp.processl, camp.isRunning, camp.tmr, rfl⟩
        (every cp camp live)
    exact persistent.actions _ l listed

/-- Every step keeps what is persistent. -/
theorem step_everyCamp {e : Event} (persistent : Persistent P) (inv : Inv ans s)
    (every : EveryCamp P s.book) (step : dialer.step s e s') : EveryCamp P s'.book := by
  cases main : e.isMain with
  | true => exact every.steady persistent (mainStep_steady inv main step)
  | false =>
    cases e with
    | pull snap =>
      obtain ⟨-, run⟩ := step_iff.mp step
      refine pullGroups_rule (I := fun t => EveryCamp P t.book) ?_ ?_ ?_ every run
      · intro t row t' every run
        rw [pullGateway_frame run]
        exact every
      · intro t row t' every run
        exact pullCampaign_everyCamp persistent every run
      · intro calls actions t cp t' every _ run
        exact pullService_everyCamp persistent every run
    | _ => cases main

theorem EveryCamp.empty : EveryCamp P {} := fun _ _ live => by cases live

end Persistent

end Autodialer
