import Autodialer.Campaigns
import Autodialer.Database

/-!
# Both threads together

`worldStep_cases` is the inversion of a step of the process with its database.
Each of them keeps the invariant of the process, which is about the process
between the queries of a pass as much as before and after it.

* `world_inv`: the invariant of the process holds throughout every run.
* `worldStep_dests`: a step loads contacts from the table, or creates none.
* `pass_run`: a pass that nothing interrupts is the pass of `pullGroups`.
-/

namespace Autodialer

variable {w w' : World} {e : WorldEvent} {s : Sys}

/-! ## Steps -/

/-- What the event `e` can do to `w`. -/
inductive WorldResult (w : World) : WorldEvent → World → Prop
  | main {e : Event} {sys : Sys} : e.isMain = true → dialer.step w.sys e sys →
      WorldResult w (.main e) { w with sys := sys }
  | sync {e : SyncEvent} {pc pc' : SyncPc} {db : Db Sql} : w.pc = .sync pc →
      dbSync w.sys.db pc e = some (db, pc') → WorldResult w (.sync e) (w.synced db pc')
  | gateways {rows : List GatewayRow} {sys : Sys} : w.pc = .gateways →
      pullGateways w.sys rows = .ok sys →
      WorldResult w (.gateways (some rows)) { w with sys := sys, pc := .campaigns }
  | campaigns {rows : List CampaignRow} {sys : Sys} : w.pc = .campaigns →
      pullCampaigns w.sys rows = .ok sys →
      WorldResult w (.campaigns (some rows)) { w with sys := sys, pc := .services sys.services }
  | service {cp : CampId} {ok : Bool} {actions : Option (List ActionRow)} {rest : List CampId}
      {sys : Sys} :
      w.pc = .services (cp :: rest) →
      pullService (w.selected ok) (fun _ => w.answer actions) w.sys cp = .ok sys →
      WorldResult w (.service ok actions) { w with sys := sys, pc := .services rest }
  /-- A query on `gateway` or `campaigns` has failed. -/
  | passed {e : WorldEvent} : w.pc = .gateways ∨ w.pc = .campaigns → WorldResult w e w.passed
  | woken : w.pc = .services [] → WorldResult w .wake { w with pc := .sync .idle }
  | inserted {r : CallRecord} : r.id ∉ w.calls.map CallRecord.id →
      WorldResult w (.insert r) { w with calls := w.calls ++ [r] }

theorem answer_some {α : Type} {rows : Option α} {x : α} (found : w.answer rows = some x) :
    w.sys.db.con = .connected ∧ rows = some x := by
  unfold World.answer at found
  split at found
  next connected => exact ⟨connected, found⟩
  next => cases found

theorem selected_some {ok : Bool} {id : Nat} {rows : List CallRow}
    (found : w.selected ok id = some rows) :
    w.sys.db.con = .connected ∧ ok = true ∧ rows = selectCalls w.calls id := by
  obtain ⟨connected, found⟩ := answer_some found
  cases ok with
  | false => cases found
  | true => exact ⟨connected, rfl, (Option.some.inj found).symm⟩

theorem worldStep_cases (step : world.step w e w') : WorldResult w e w' := by
  replace step : w.next e = some w' := step
  cases e with
  | main e =>
    rw [World.next] at step
    split at step
    next main =>
      obtain ⟨sys, taken, rfl⟩ := Option.map_eq_some_iff.mp step
      exact .main main taken
    next => cases step
  | sync e =>
    cases here : w.pc with
    | sync pc =>
      simp only [World.next, here] at step
      obtain ⟨⟨db, pc'⟩, taken, rfl⟩ := Option.map_eq_some_iff.mp step
      exact .sync here taken
    | _ => simp [World.next, here] at step
  | gateways rows =>
    rw [World.next] at step
    split at step
    next here =>
      split at step
      next =>
        cases step
        exact .passed (.inl here)
      next rows' found =>
        obtain ⟨sys, taken, rfl⟩ := Option.map_eq_some_iff.mp step
        obtain ⟨-, rfl⟩ := answer_some found
        exact .gateways here (Fallible.toOption_eq_some.mp taken)
    next => cases step
  | campaigns rows =>
    rw [World.next] at step
    split at step
    next here =>
      split at step
      next =>
        cases step
        exact .passed (.inr here)
      next rows' found =>
        obtain ⟨sys, taken, rfl⟩ := Option.map_eq_some_iff.mp step
        obtain ⟨-, rfl⟩ := answer_some found
        exact .campaigns here (Fallible.toOption_eq_some.mp taken)
    next => cases step
  | service ok actions =>
    rcases here : w.pc with _ | _ | _ | ⟨_ | ⟨cp, rest⟩⟩
    case services.cons =>
      simp only [World.next, here] at step
      obtain ⟨sys, taken, rfl⟩ := Option.map_eq_some_iff.mp step
      exact .service here (Fallible.toOption_eq_some.mp taken)
    all_goals simp [World.next, here] at step
  | wake =>
    rw [World.next] at step
    split at step
    next here =>
      cases step
      exact .woken here
    next => cases step
  | insert r =>
    rw [World.next] at step
    split at step
    next => cases step
    next fresh =>
      cases step
      exact .inserted fresh

/-! ## The invariant of the process -/

/-- The invariant, whoever has answered. -/
abbrev Inv.Any (s : Sys) : Prop := Inv (fun _ _ => True) s

theorem Inv.withDb {ans : CallId → Addr → Prop} {db : Db Sql} (inv : Inv ans s) :
    Inv ans { s with db := db } :=
  inv.callback inv.sound inv.phase

theorem worldStep_inv (inv : Inv.Any w.sys) (step : world.step w e w') : Inv.Any w'.sys := by
  cases worldStep_cases step with
  | main _ taken => exact step_inv_hears inv (.anything _ _) taken
  | sync => exact inv.withDb
  | gateways _ run =>
    exact inv.gateways run
  | campaigns _ run =>
    exact inv.campaigns run
  | service _ run => exact inv.service run
  | passed => exact inv
  | woken => exact inv
  | inserted => exact inv

theorem worldInit_inv (init : WorldInit w) : Inv.Any w.sys := by
  obtain ⟨⟨n, audioPath, -, boot⟩, -, -⟩ := init
  rw [boot]
  exact Inv.boot n audioPath

/-- The invariant of the process holds throughout every run of both threads. -/
theorem world_inv (reach : world.Reachable w) : Inv.Any w.sys :=
  reach.invariant (I := fun w => Inv.Any w.sys) (fun _ init => worldInit_inv init)
    (fun _ _ _ => worldStep_inv)

/-! ## Contacts and campaigns -/

/-- A step creates no destinations, or it loads contacts from the table. -/
theorem worldStep_dests (inv : Inv.Any w.sys) (step : world.step w e w') :
    Fewer w.sys.book w'.sys.book ∨ ∃ cp rows, Loads w cp e rows ∧
      w'.sys.book.dests = (rows.foldl (loadContact cp) w.sys.book).dests := by
  cases worldStep_cases step with
  | main main taken => exact .inl (mainStep_fewer inv main taken)
  | sync => exact .inl (.refl _)
  | gateways _ run =>
    refine .inl (Fallible.foldlM_rule (I := fun _ t => Fewer w.sys.book t.book)
      (fun row _ t t' fewer run => ?_) (.refl _) run)
    rw [pullGateway_frame run]
    exact fewer
  | campaigns _ run =>
    exact .inl (Fallible.foldlM_rule (I := fun _ t => Fewer w.sys.book t.book)
      (fun _ _ _ _ fewer run => fewer.trans (pullCampaign_fewer run)) (.refl _) run)
  | @service cp ok actions rest sys here run =>
    obtain ⟨camp, live, ⟨rfl, -⟩ | ⟨stopped, rows, acts, l, found, -, rfl⟩⟩ := pullService_cases run
    · exact .inl (.refl _)
    · unfold rowsFor at found
      split at found
      next empty =>
        obtain ⟨connected, rfl, rfl⟩ := selected_some found
        exact .inr ⟨cp, _, .service here connected live stopped (List.isEmpty_iff.mp empty), rfl⟩
      next =>
        cases found
        exact .inl (.of_dests rfl)
  | passed => exact .inl (.refl _)
  | woken => exact .inl (.refl _)
  | inserted => exact .inl (.refl _)

/-! ## A pass without interruptions -/

/-- The services one after the other. -/
theorem services_run {ok : Bool} {actions : Nat → Option (List ActionRow)} {rest : List CampId}
    {s s' : Sys} (db : s.db = w.sys.db) (connected : w.sys.db.con = .connected)
    (run : rest.foldlM (pullService (w.selected ok) actions) s = .ok s') :
    ∃ h, world.Run { w with sys := s, pc := .services rest } h
      { w with sys := s', pc := .services [] } := by
  induction rest generalizing s with
  | nil =>
    obtain rfl := Fallible.pure_eq_ok.mp run
    exact ⟨[], Lts.Run.nil⟩
  | cons cp rest ih =>
    rw [List.foldlM_cons] at run
    obtain ⟨t, first, run⟩ := Fallible.bind_eq_ok.mp run
    obtain ⟨h, others⟩ := ih ((pullService_db first).trans db) run
    obtain ⟨camp, live, -⟩ := pullService_cases first
    generalize now : ({ w with sys := s, pc := .services (cp :: rest) } : World) = v
    have pc : v.pc = .services (cp :: rest) := by rw [← now]
    have sys : v.sys = s := by rw [← now]
    have selected : v.selected ok = w.selected ok := by
      funext id
      simp [World.selected, World.answer, ← now, db]
    have answer : v.answer (actions camp.campaignId) = actions camp.campaignId := by
      simp [World.answer, sys, db, connected]
    have same : pullService (w.selected ok) (fun _ => actions camp.campaignId) s cp = .ok t :=
      (pullService_actions _ actions live).trans first
    have step : world.step v (.service ok (actions camp.campaignId))
        { w with sys := t, pc := .services rest } := by
      show World.next _ _ = _
      simp only [World.next, pc, sys, selected, answer, same]
      rw [← now]
      rfl
    exact ⟨_, (Lts.Run.single step).append others⟩

/-- A pass of `pullGroups` over an open connection is a run of the database thread
in which the main loop takes no step. -/
theorem pass_run {snap : Snapshot} {ok : Bool} {s' : Sys} (here : w.pc = .gateways)
    (connected : w.sys.db.con = .connected) (calls : snap.calls = w.selected ok)
    (run : pullGroups w.sys snap = .ok s') :
    ∃ h, world.Run w h { w with sys := s', pc := .services [] } := by
  unfold pullGroups at run
  cases gateways : snap.gateways with
  | none =>
    rw [gateways] at run
    obtain rfl := Fallible.pure_eq_ok.mp run
    have step : world.step w (.gateways none) w.passed := by
      show World.next _ _ = _
      simp [World.next, World.answer, here]
    exact ⟨_, Lts.Run.single step⟩
  | some rows =>
    rw [gateways] at run
    obtain ⟨t, first, run⟩ := Fallible.bind_eq_ok.mp run
    have db : t.db = w.sys.db := pullGateways_db first
    have step : world.step w (.gateways (some rows)) { w with sys := t, pc := .campaigns } := by
      show World.next _ _ = _
      simp [World.next, World.answer, here, connected, first, Except.toOption]
    cases campaigns : snap.campaigns with
    | none =>
      rw [campaigns] at run
      obtain rfl := Fallible.pure_eq_ok.mp run
      have last : world.step { w with sys := t, pc := .campaigns } (.campaigns none)
          { w with sys := t, pc := .services [] } := by
        show World.next _ _ = _
        simp [World.next, World.answer, World.passed]
      exact ⟨_, (Lts.Run.single step).snoc last⟩
    | some rows' =>
      rw [campaigns] at run
      obtain ⟨u, second, run⟩ := Fallible.bind_eq_ok.mp run
      have db' : u.db = w.sys.db := (pullCampaigns_db second).trans db
      have next : world.step { w with sys := t, pc := .campaigns } (.campaigns (some rows'))
          { w with sys := u, pc := .services u.services } := by
        show World.next _ _ = _
        simp [World.next, World.answer, db, connected, second, Except.toOption]
      rw [calls] at run
      obtain ⟨h, others⟩ := services_run db' connected run
      exact ⟨_, ((Lts.Run.single step).snoc next).append others⟩

end Autodialer
