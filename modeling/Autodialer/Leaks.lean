import Autodialer.CallLimit
import Autodialer.Campaigns
import Autodialer.PassEnds

/-!
# Nothing leaks

The program frees its objects by hand: a list is flushed with the object that owns it, and what is
on no list is never freed. In a reachable state every live object is found from the two lists of
the process: campaigns from `services`, contacts and actions from their campaign, calls from their
contact, PBX legs from their main call, gateways from `gateways`.

* `step_onLists`: a step leaves no action and no gateway off its list.
* `nothing_leaks`: the account of all live objects.
-/

namespace Autodialer

variable {s s' t : Sys} {b b' b'' : Book} {e : Event} {cp : CampId} {camp : Campaign}
  {ans : CallId → Addr → Prop}

/-- Every live action is on the list of a campaign, once, and every live gateway is in the list of
the gateways. -/
structure OnLists (s : Sys) : Prop where
  action : ∀ a action, s.actions.get a = some action →
    ∃ cp camp, s.book.camps.get cp = some camp ∧ a ∈ camp.actions
  once : ∀ cp camp, s.book.camps.get cp = some camp → camp.actions.Nodup
  gateway : ∀ g gateway, s.gateways.get g = some gateway → g ∈ s.gatewayList

/-- The same campaigns, with the same actions. -/
def SameActions (b b' : Book) : Prop :=
  ∀ cp, (b'.camps.get cp).map Campaign.actions = (b.camps.get cp).map Campaign.actions

namespace SameActions

theorem of_camps (same : b'.camps = b.camps) : SameActions b b' := fun cp => by rw [same]

theorem trans (first : SameActions b b') (second : SameActions b' b'') : SameActions b b'' :=
  fun cp => (second cp).trans (first cp)

theorem relisted (change : Relisted b b') : SameActions b b' := by
  intro cp
  obtain ⟨ds, ps, eq⟩ := change cp
  rw [eq, Option.map_map]
  rfl

theorem setCamp {f : Campaign → Campaign} (same : ∀ camp, (f camp).actions = camp.actions) :
    SameActions b (b.setCamp cp f) := by
  intro cp'
  rw [Book.camps_setCamp, Heap.get_modify]
  split
  · rw [Option.map_map]
    exact congrArg (Option.map · _) (funext same)
  · rfl

/-- Each campaign is there as before, with its actions. -/
theorem back (same : SameActions b b') (live : b'.camps.get cp = some camp) :
    ∃ camp₀, b.camps.get cp = some camp₀ ∧ camp₀.actions = camp.actions := by
  have eq := same cp
  rw [live] at eq
  exact Option.map_eq_some_iff.mp eq.symm

theorem forth (same : SameActions b b') (live : b.camps.get cp = some camp) :
    ∃ camp', b'.camps.get cp = some camp' ∧ camp'.actions = camp.actions := by
  have eq := same cp
  rw [live] at eq
  exact Option.map_eq_some_iff.mp eq

end SameActions

theorem startFakeCalling_actions {now : Time} {env : DestId → DialEnv}
    (run : startFakeCalling s cp now env = .ok s') : SameActions s.book s'.book := by
  obtain ⟨camp, live, ⟨ds, ps, eq⟩, others⟩ := startFakeCalling_camps run
  intro cp'
  by_cases here : cp' = cp
  · subst here
    rw [eq, live]
    split <;> rfl
  · obtain ⟨ds', ps', eq'⟩ := others cp' here
    rw [eq', Option.map_map]
    rfl

/-- The main loop gives no campaign other actions. -/
theorem mainStep_actions (inv : Inv ans s) (main : e.isMain = true) (step : dialer.step s e s') :
    SameActions s.book s'.book := by
  cases step_cases step with
  | pulled => cases main
  | @ticked _ cp _ _ _ _ ticks run =>
    obtain ⟨f, msgq, torn, lost, flags, rfl⟩ := ticks.state
    have starts : SameActions s.book (s.book.setCamp cp f) := .setCamp fun camp => by
      obtain ⟨_, _, eq⟩ := flags camp
      rw [eq]
    exact starts.trans (startFakeCalling_actions run)
  | @supervised d _ _ _ _ live armed run =>
    obtain ⟨c, call, -, -, result⟩ := inv.supervised_cases live armed run
    have disarmed : SameActions s.book (s.disarmDest d).book := .of_camps rfl
    exact disarmed.trans (.relisted result.relisted)
  | calledBack => exact .of_camps rfl
  | lost => exact .of_camps rfl

namespace OnLists

theorem boot (n : Nat) (audioPath : String) : OnLists (Sys.boot n audioPath) where
  action _ _ live := by cases live
  once _ _ live := by cases live
  gateway _ _ live := by cases live

theorem congr (onLists : OnLists s) (same : SameActions s.book s'.book)
    (config : SameConfig s s') : OnLists s' where
  action a action live := by
    obtain ⟨cp, camp, liveCamp, mem⟩ := onLists.action a action (config.actions ▸ live)
    obtain ⟨camp', liveCamp', eq⟩ := same.forth liveCamp
    exact ⟨cp, camp', liveCamp', eq ▸ mem⟩
  once cp camp live := by
    obtain ⟨camp₀, live₀, eq⟩ := same.back live
    exact eq ▸ onLists.once cp camp₀ live₀
  gateway g gateway live := by
    rw [config.gatewayList]
    exact onLists.gateway g gateway (config.gateways ▸ live)

/-! ## The parts of a pass -/

theorem pullGateway {row : GatewayRow} (onLists : OnLists s) (catalogued : Catalogued s)
    (run : Autodialer.pullGateway s row = .ok s') : OnLists s' := by
  have frame := pullGateway_frame run
  refine ⟨by rw [frame]; exact onLists.action, by rw [frame]; exact onLists.once, ?_⟩
  clear frame
  intro g gateway live
  cases pullGateway_cases catalogued run with
  | same => exact onLists.gateway g gateway live
  | changed =>
    change Heap.get (Heap.modify _ _ _) g = _ at live
    rw [Heap.get_modify] at live
    split at live
    · obtain ⟨old, liveOld, -⟩ := Option.map_eq_some_iff.mp live
      exact onLists.gateway g old liveOld
    · exact onLists.gateway g gateway live
  | @destroyed g₀ _ _ _ _ =>
    change Heap.get (Heap.free _ g₀) g = _ at live
    rw [Heap.get_free] at live
    split at live
    next => cases live
    next ne => exact (List.mem_erase_of_ne ne).mpr (onLists.gateway g gateway live)
  | created =>
    change Heap.get (Heap.alloc _ _) g = _ at live
    rw [Heap.get_alloc] at live
    split at live
    next isNew => exact List.mem_append_right _ (List.mem_singleton.mpr isNew)
    next => exact List.mem_append_left _ (onLists.gateway g gateway live)
  | refused =>
    change Heap.get (Heap.free (Heap.alloc _ _) _) g = _ at live
    rw [Heap.get_free, Heap.get_alloc] at live
    split at live
    · cases live
    · exact onLists.gateway g gateway live

theorem createCamp (onLists : OnLists s) : OnLists s.createCamp where
  action a action live := by
    obtain ⟨cp, camp, liveCamp, mem⟩ := onLists.action a action live
    exact ⟨cp, camp, Heap.get_alloc_of_live liveCamp, mem⟩
  once cp camp live := by
    rcases createCamp_camps live with ⟨-, rfl⟩ | ⟨-, live⟩
    · exact List.nodup_nil
    · exact onLists.once cp camp live
  gateway := onLists.gateway

/-- A campaign is destroyed with all of its actions. -/
theorem destroyCamp (onLists : OnLists s) (inv : Inv ans s)
    (run : memDerefCampaign s cp = .ok s') : OnLists s' := by
  obtain ⟨-, camps⟩ := memDerefCampaign_book inv.partition run
  obtain ⟨camp, t, live, flushed, eq⟩ := memDerefCampaign_cases run
  have frame := flushDests_frame flushed
  have actions : s'.actions = flushActions s.actions camp.actions := by rw [eq, frame]
  have gateways : s'.gateways = s.gateways := by rw [eq, frame]
  have gatewayList : s'.gatewayList = s.gatewayList := by rw [eq, frame]
  refine ⟨fun a action liveAction => ?_, fun cp' camp' live' => ?_, ?_⟩
  · rw [actions, flushActions_get] at liveAction
    split at liveAction
    next => cases liveAction
    next other =>
      obtain ⟨cp', camp', live', mem⟩ := onLists.action a action liveAction
      have ne : cp' ≠ cp := by
        rintro rfl
        obtain rfl := Option.some.inj (live.symm.trans live')
        exact other mem
      exact ⟨cp', camp', by rw [camps, if_neg ne]; exact live', mem⟩
  · rw [camps] at live'
    split at live'
    · cases live'
    · exact onLists.once cp' camp' live'
  · rw [gateways, gatewayList]
    exact onLists.gateway

theorem readCampaign {row : CampaignRow} (onLists : OnLists s) (inv : Inv ans s)
    (run : Autodialer.readCampaign s cp row = .ok s') : OnLists s' := by
  obtain ⟨_, -, ⟨-, -, run⟩ | ⟨-, _, _, rfl⟩⟩ := readCampaign_cases run
  · have head : OnLists (s.setCamp cp fun camp => camp.readHead row) :=
      onLists.congr (.setCamp fun _ => rfl) ⟨rfl, rfl, rfl⟩
    exact head.destroyCamp (inv.setCamp fun _ => ⟨rfl, rfl, rfl⟩) run
  · exact onLists.congr (.setCamp fun _ => rfl) ⟨rfl, rfl, rfl⟩

theorem pullCampaign {row : CampaignRow} (onLists : OnLists s) (inv : Inv ans s)
    (run : Autodialer.pullCampaign s row = .ok s') : OnLists s' := by
  rcases pullCampaign_cases run with ⟨rfl, -⟩ | ⟨cp, -, -, run⟩ | ⟨-, -, run⟩
  · exact onLists
  · exact onLists.readCampaign inv run
  · exact onLists.createCamp.readCampaign inv.createCamp run

end OnLists

/-- The campaign `cp` has new actions in the place of `old`, each once, and no other action is
made. -/
structure Renewed (s : Sys) (cp : CampId) (old : List ActionId) (s' : Sys) (camp : Campaign) :
    Prop where
  live : s'.book.camps.get cp = some camp
  nodup : camp.actions.Nodup
  before : ∀ a ∈ camp.actions, a < s'.actions.next
  action : ∀ a action, s'.actions.get a = some action →
    a ∈ camp.actions ∨ (a ∉ old ∧ s.actions.get a = some action)
  others : ∀ cp', cp' ≠ cp → s'.book.camps.get cp' = s.book.camps.get cp'

theorem Renewed.loadAction {row : ActionRow} {old : List ActionId}
    (renewed : Renewed s cp old t camp) (run : loadAction cp t row = .ok s') : ∃ camp', Renewed s cp old s' camp' := by
  obtain ⟨action, -, -, rfl⟩ := loadAction_cases run
  refine ⟨{ camp with actions := camp.actions ++ [t.actions.next] }, ?_, ?_, ?_, ?_, ?_⟩
  · simp [Sys.setCamp, renewed.live]
  · refine renewed.nodup.append (List.nodup_singleton _) fun a mem isNew => ?_
    obtain rfl := List.mem_singleton.mp isNew
    exact Nat.lt_irrefl _ (renewed.before _ mem)
  · intro a mem
    show a < t.actions.next + 1
    rcases List.mem_append.mp mem with mem | isNew
    · exact Nat.lt_succ_of_lt (renewed.before a mem)
    · rw [List.mem_singleton.mp isNew]
      exact Nat.lt_succ_self _
  · intro a action' live
    change (t.actions.alloc action).get a = _ at live
    rw [Heap.get_alloc] at live
    split at live
    next isNew => exact .inl (List.mem_append_right _ (List.mem_singleton.mpr isNew))
    next => exact (renewed.action a action' live).imp (List.mem_append_left _) id
  · intro cp' ne
    rw [← renewed.others cp' ne]
    exact Heap.get_modify_ne ne

theorem reloadActions_renewed {old : Campaign} {rows : Option (List ActionRow)}
    (live : s.book.camps.get cp = some camp) (run : reloadActions s cp old rows = .ok s') :
    ∃ camp', Renewed s cp old.actions s' camp' := by
  obtain ⟨rows, -, run⟩ := Fallible.bind_eq_ok.mp run
  refine Fallible.foldlM_rule (I := fun _ t => ∃ camp', Renewed s cp old.actions t camp')
    (fun _ _ _ _ ⟨_, renewed⟩ run => renewed.loadAction run) ?_ run
  refine ⟨{ camp with actions := [] }, ?_, List.nodup_nil, nofun, ?_, ?_⟩
  · simp [Sys.setCamp, live]
  · intro a action liveAction
    change (flushActions s.actions old.actions).get a = _ at liveAction
    rw [flushActions_get] at liveAction
    split at liveAction
    next => cases liveAction
    next other => exact .inr ⟨other, liveAction⟩
  · intro cp' ne
    exact Heap.get_modify_ne ne

namespace OnLists

theorem renewed {old : List ActionId} (onLists : OnLists s) (renewed : Renewed s cp old s' camp)
    (live : ∃ camp₀, s.book.camps.get cp = some camp₀ ∧ camp₀.actions = old)
    (gateways : s'.gateways = s.gateways) (gatewayList : s'.gatewayList = s.gatewayList) :
    OnLists s' where
  action a action liveAction := by
    rcases renewed.action a action liveAction with mem | ⟨notOld, before⟩
    · exact ⟨cp, camp, renewed.live, mem⟩
    · obtain ⟨cp', camp', live', mem⟩ := onLists.action a action before
      have ne : cp' ≠ cp := by
        rintro rfl
        obtain ⟨camp₀, live₀, rfl⟩ := live
        obtain rfl := Option.some.inj (live₀.symm.trans live')
        exact notOld mem
      exact ⟨cp', camp', (renewed.others cp' ne).trans live', mem⟩
  once cp' camp' live' := by
    by_cases here : cp' = cp
    · subst here
      obtain rfl := Option.some.inj (renewed.live.symm.trans live')
      exact renewed.nodup
    · exact onLists.once cp' camp' ((renewed.others cp' here).symm.trans live')
  gateway g gateway liveGateway := by
    rw [gatewayList]
    exact onLists.gateway g gateway (gateways ▸ liveGateway)

theorem pullService {calls : Nat → Option (List CallRow)} {actions : Nat → Option (List ActionRow)}
    (onLists : OnLists s) (run : Autodialer.pullService calls actions s cp = .ok s') :
    OnLists s' := by
  have same := pullService_gateways run
  obtain ⟨camp, live, run⟩ := Fallible.bind_eq_ok.mp run
  have live := load_eq_ok.mp live
  split at run
  next =>
    cases run
    exact onLists
  next =>
    split at run
    next =>
      cases run
      exact onLists
    next rows _ =>
      obtain ⟨t, reloaded, run⟩ := Fallible.bind_eq_ok.mp run
      cases run
      have contacts : SameActions s.book (rows.foldl (loadContact cp) s.book) := by
        intro cp'
        rw [loadContacts_camps]
        split
        · rw [Option.map_map]
          rfl
        · rfl
      have loaded : OnLists { s with book := rows.foldl (loadContact cp) s.book } :=
        onLists.congr contacts ⟨rfl, rfl, rfl⟩
      obtain ⟨camp₀, live₀, eq⟩ := contacts.forth live
      obtain ⟨camp', renewed⟩ := reloadActions_renewed live₀ reloaded
      have done := loaded.renewed renewed ⟨camp₀, live₀, eq⟩ same.1 same.2
      exact ⟨done.action, done.once, done.gateway⟩

end OnLists

theorem pullGateways_onLists {rows : List GatewayRow} (catalogued : Catalogued s)
    (onLists : OnLists s) (run : pullGateways s rows = .ok s') : OnLists s' := by
  refine (Fallible.foldlM_rule (I := fun _ t => Catalogued t ∧ OnLists t) ?_
    ⟨catalogued, onLists⟩ run).2
  rintro row _ t t' ⟨catalogued, onLists⟩ run
  obtain ⟨_, _, mirrored⟩ := pullGateway_mirrored catalogued run
  exact ⟨mirrored.catalogued catalogued, onLists.pullGateway catalogued run⟩

theorem pull_onLists {snap : Snapshot} (inv : Inv ans s) (catalogued : Catalogued s)
    (onLists : OnLists s) (run : pullGroups s snap = .ok s') : OnLists s' := by
  rcases pullGroups_cases run with ⟨-, rfl⟩ | ⟨gateways, t, -, first, rest⟩
  · exact onLists
  have onLists := pullGateways_onLists catalogued onLists first
  rcases rest with ⟨-, rfl⟩ | ⟨rows, u, -, second, run⟩
  · exact onLists
  have inv := inv.gateways first
  have read : Inv ans u ∧ OnLists u :=
    Fallible.foldlM_rule (I := fun _ t => Inv ans t ∧ OnLists t)
      (fun _ _ _ _ ⟨inv, onLists⟩ run => ⟨inv.campaign run, onLists.pullCampaign inv run⟩)
      ⟨inv, onLists⟩ second
  exact Fallible.foldlM_rule (I := fun _ t => OnLists t)
    (fun _ _ _ _ onLists run => onLists.pullService run) read.2 run

theorem step_onLists (inv : Inv ans s) (catalogued : Catalogued s) (onLists : OnLists s)
    (step : dialer.step s e s') : OnLists s' := by
  cases main : e.isMain with
  | true => exact onLists.congr (mainStep_actions inv main step) (mainStep_config inv main step)
  | false =>
    obtain ⟨snap, rfl, run⟩ := pass_of_step step main
    exact pull_onLists inv catalogued onLists run

theorem reachable_onLists (reach : dialer.Reachable s) : OnLists s := by
  have account : Inv (fun _ _ => True) s ∧ Catalogued s ∧ OnLists s := by
    refine reach.invariant
      (I := fun s => Inv (fun _ _ => True) s ∧ Catalogued s ∧ OnLists s) ?_ ?_
    · rintro s ⟨n, audioPath, -, rfl⟩
      exact ⟨.boot n audioPath, .boot n audioPath, .boot n audioPath⟩
    · rintro s e t ⟨inv, catalogued, onLists⟩ step
      exact ⟨step_inv_hears inv (.anything s e) step, step_catalogued inv catalogued step,
        step_onLists inv catalogued onLists step⟩
  exact account.2.2

/-! ## The account -/

/-- What `mem_zalloc` makes for the dialer. -/
inductive Object
  | camp (cp : CampId)
  | dest (d : DestId)
  | call (c : CallId)
  | action (a : ActionId)
  | gateway (g : GatewayId)

namespace Sys

/-- The object has been made and not been freed. -/
def Live (s : Sys) : Object → Prop
  | .camp cp => (s.book.camps.get cp).isSome
  | .dest d => (s.book.dests.get d).isSome
  | .call c => (s.media.calls.get c).isSome
  | .action a => (s.actions.get a).isSome
  | .gateway g => (s.gateways.get g).isSome

/-- The destructor of the owner frees the object; what no object owns is on one of the two lists
that the process flushes when it ends. -/
inductive Owns (s : Sys) : Option Object → Object → Prop
  | camp {cp : CampId} : cp ∈ s.services → Owns s none (.camp cp)
  | gateway {g : GatewayId} : g ∈ s.gatewayList → Owns s none (.gateway g)
  | dest {cp : CampId} {camp : Campaign} {d : DestId} : s.book.camps.get cp = some camp →
      d ∈ camp.destinations ++ camp.processl → Owns s (some (.camp cp)) (.dest d)
  | action {cp : CampId} {camp : Campaign} {a : ActionId} : s.book.camps.get cp = some camp →
      a ∈ camp.actions → Owns s (some (.camp cp)) (.action a)
  | call {d : DestId} {dest : Destination} {c : CallId} : s.book.dests.get d = some dest →
      dest.call = some c → Owns s (some (.dest d)) (.call c)
  | leg {c leg : CallId} {call : Call} : s.media.calls.get c = some call →
      call.pbxCall = some leg → Owns s (some (.call c)) (.call leg)

/-- The object is found from the lists of the process. -/
inductive Found (s : Sys) : Object → Prop
  | root {o : Object} : s.Owns none o → Found s o
  | owned {p o : Object} : Found s p → s.Owns (some p) o → Found s o

end Sys

/-- What is owned is live. -/
theorem Sys.Owns.live {p : Option Object} {o : Object} (inv : Inv ans s) (catalogued : Catalogued s)
    (owns : s.Owns p o) : s.Live o := by
  cases owns with
  | camp mem =>
    obtain ⟨camp, live⟩ := (inv.rostered.mem _).mp mem
    exact Option.isSome_iff_exists.mpr ⟨camp, live⟩
  | gateway mem =>
    obtain ⟨gateway, live⟩ := catalogued.live _ mem
    exact Option.isSome_iff_exists.mpr ⟨gateway, live⟩
  | dest live mem =>
    rcases List.mem_append.mp mem with mem | mem
    · obtain ⟨dest, liveDest, -⟩ := inv.partition.on_destinations live mem
      exact Option.isSome_iff_exists.mpr ⟨dest, liveDest⟩
    · obtain ⟨dest, liveDest, -⟩ := inv.partition.on_processl live mem
      exact Option.isSome_iff_exists.mpr ⟨dest, liveDest⟩
  | action live mem => exact inv.keyed.live _ _ _ live mem
  | @call d dest c live has =>
    obtain ⟨call, liveCall, -⟩ := inv.sound.owned d c ((owner_of_live live).trans has)
    exact Option.isSome_iff_exists.mpr ⟨call, liveCall⟩
  | @leg c leg call live has =>
    obtain ⟨-, legCall, liveLeg, -⟩ := inv.sound.leg c call leg live has
    exact Option.isSome_iff_exists.mpr ⟨legCall, liveLeg⟩

/-- What is live is found. -/
theorem Sys.Live.found {o : Object} (inv : Inv ans s) (onLists : OnLists s) (live : s.Live o) :
    s.Found o := by
  have foundCamp : ∀ cp camp, s.book.camps.get cp = some camp → s.Found (.camp cp) :=
    fun cp camp live => .root (.camp ((inv.rostered.mem cp).mpr ⟨camp, live⟩))
  have foundDest : ∀ d dest, s.book.dests.get d = some dest → s.Found (.dest d) := by
    intro d dest live
    obtain ⟨r, camp, -, within, liveCamp, mem⟩ := inv.partition.linked d dest live
    refine .owned (foundCamp _ camp liveCamp) (.dest liveCamp (List.mem_append.mpr ?_))
    cases r with
    | destinations => exact .inl mem
    | processl => exact .inr mem
  have foundMain : ∀ d c, s.book.owner d = some c → s.Found (.call c) := by
    intro d c owned
    obtain ⟨dest, live, has⟩ := owner_eq_some owned
    exact .owned (foundDest d dest live) (.call live has)
  cases o with
  | camp cp =>
    obtain ⟨camp, live⟩ := Option.isSome_iff_exists.mp live
    exact foundCamp cp camp live
  | dest d =>
    obtain ⟨dest, live⟩ := Option.isSome_iff_exists.mp live
    exact foundDest d dest live
  | call c =>
    obtain ⟨call, live⟩ := Option.isSome_iff_exists.mp live
    obtain ⟨d, -, ⟨-, owned⟩ | isLeg⟩ := inv.sound.role c call live
    · exact foundMain d c owned
    · obtain ⟨main, mainCall, owned, liveMain, has⟩ := isLeg.main
      exact .owned (foundMain d main owned) (.leg liveMain has)
  | action a =>
    obtain ⟨action, live⟩ := Option.isSome_iff_exists.mp live
    obtain ⟨cp, camp, liveCamp, mem⟩ := onLists.action a action live
    exact .owned (foundCamp cp camp liveCamp) (.action liveCamp mem)
  | gateway g =>
    obtain ⟨gateway, live⟩ := Option.isSome_iff_exists.mp live
    exact .root (.gateway (onLists.gateway g gateway live))

/-- Nothing has two owners. -/
theorem Sys.Owns.unique {p q : Option Object} {o : Object} (inv : Inv ans s) (owns : s.Owns p o)
    (owns' : s.Owns q o) : p = q := by
  have onCamp : ∀ {cp camp d}, s.book.camps.get cp = some camp →
      d ∈ camp.destinations ++ camp.processl →
      ∃ dest, s.book.dests.get d = some dest ∧ dest.cp = cp := by
    intro cp camp d live mem
    rcases List.mem_append.mp mem with mem | mem
    · obtain ⟨dest, liveDest, onCp, -⟩ := inv.partition.on_destinations live mem
      exact ⟨dest, liveDest, onCp⟩
    · obtain ⟨dest, liveDest, onCp, -⟩ := inv.partition.on_processl live mem
      exact ⟨dest, liveDest, onCp⟩
  have notLeg : ∀ {c call leg d dest}, s.media.calls.get c = some call →
      call.pbxCall = some leg → s.book.dests.get d = some dest → dest.call ≠ some leg := by
    intro c call leg d dest live has liveDest isCall
    obtain ⟨-, legCall, liveLeg, pbx, -⟩ := inv.sound.leg c call leg live has
    have main := inv.sound.arg_of_owned ((owner_of_live liveDest).trans isCall) liveLeg
    rw [pbx] at main
    cases main.1
  cases owns with
  | camp => cases owns'; rfl
  | gateway => cases owns'; rfl
  | dest live mem =>
    cases owns' with
    | dest live' mem' =>
      obtain ⟨dest, liveDest, rfl⟩ := onCamp live mem
      obtain ⟨dest', liveDest', rfl⟩ := onCamp live' mem'
      obtain rfl := Option.some.inj (liveDest.symm.trans liveDest')
      rfl
  | action live mem =>
    cases owns' with
    | action live' mem' => rw [inv.keyed.apart _ _ _ _ _ live live' mem mem']
  | call live has =>
    cases owns' with
    | call live' has' =>
      rw [inv.sound.owner_unique ((owner_of_live live).trans has)
        ((owner_of_live live').trans has')]
    | leg live' has' => exact absurd has (notLeg live' has' live)
  | leg live has =>
    cases owns' with
    | call live' has' => exact absurd has' (notLeg live has live')
    | leg live' has' => rw [inv.sound.leg_unique live has live' has']

theorem Inv.lists_nodup (inv : Inv ans s) (live : s.book.camps.get cp = some camp) :
    (camp.destinations ++ camp.processl).Nodup := by
  refine (inv.partition.nodup cp camp (.destinations cp) live rfl).append
    (inv.partition.nodup cp camp (.processl cp) live rfl) fun d onDestinations onProcessl => ?_
  obtain ⟨dest, liveDest, -, on⟩ := inv.partition.on_destinations live onDestinations
  obtain ⟨dest', liveDest', -, on'⟩ := inv.partition.on_processl live onProcessl
  obtain rfl := Option.some.inj (liveDest.symm.trans liveDest')
  cases on.symm.trans on'

/-- **Nothing leaks.** In a reachable state the objects that are live are those that are found from
the lists of the process; each has one owner and is on the list of its owner once. -/
theorem nothing_leaks (reach : dialer.Reachable s) :
    (∀ o, s.Live o ↔ s.Found o) ∧ (∀ p q o, s.Owns p o → s.Owns q o → p = q) ∧
    s.services.Nodup ∧ s.gatewayList.Nodup ∧ ∀ cp camp, s.book.camps.get cp = some camp →
      (camp.destinations ++ camp.processl).Nodup ∧ camp.actions.Nodup := by
  obtain ⟨ans, inv⟩ := reachable_inv reach
  have catalogued := reachable_catalogued reach
  have onLists := reachable_onLists reach
  refine ⟨fun o => ⟨fun live => live.found inv onLists, fun found => ?_⟩,
    fun p q o owns owns' => owns.unique inv owns', inv.rostered.nodup, catalogued.nodup,
    fun cp camp live => ⟨inv.lists_nodup live, onLists.once cp camp live⟩⟩
  cases found with
  | root owns => exact owns.live inv catalogued
  | owned _ owns => exact owns.live inv catalogued

theorem nothing_leaks_dialled : ∃ s, dialer.Reachable s ∧ s.Live (.call 0) ∧
    (∀ o, s.Live o ↔ s.Found o) ∧ ∀ p q o, s.Owns p o → s.Owns q o → p = q := by
  obtain ⟨h, s, run, live⟩ := Lts.replay_exists SysInit Sys.next (s := Sys.boot 4 "/audio")
    [.pull oneCampaign, .message 100 fun _ => {}] (fun _ s => (s.media.calls.get 0).isSome)
    ⟨4, "/audio", by decide, rfl⟩ (by decide)
  have account := nothing_leaks (s := s) ⟨h, run⟩
  exact ⟨s, ⟨h, run⟩, live, account.1, account.2.1⟩

end Autodialer
