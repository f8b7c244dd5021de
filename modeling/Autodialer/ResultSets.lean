import Autodialer.Lib.Logging
import Autodialer.Listing
import Autodialer.PassEnds

/-!
# The result sets of a pass

`pullOps` is `pull_groups` with a log of its calls to the MySQL library: which result sets it
obtains, reads and frees.

* `pullOps_result`: without its log it is `pullGroups`.
* `serviceOps_actions`: the result set of the actions is read, null or not.
* `handled_once_iff`: every result set is handled once exactly if no campaign gets as far as its
  actions.
-/

namespace Autodialer

open Fallible

variable {s s' u : Sys} {cp : CampId} {camp : Campaign} {snap : Snapshot} {ans : CallId → Addr → Prop}
  {calls : Nat → Option (List CallRow)} {actions : Nat → Option (List ActionRow)}

/-! ## The pass with its log -/

/-- A result set, by the query that it answers. -/
inductive ResultSet
  | gateways
  | campaigns
  | contacts (cp : CampId)
  | actions (cp : CampId)
deriving DecidableEq, Repr

/-- A call to the library, with the result set it returns or is passed; `none` is NULL. -/
inductive MysqlOp
  | getResults (res : Option ResultSet)
  | fetchRow (res : Option ResultSet)
  | freeResult (res : Option ResultSet)
deriving DecidableEq, Repr

/-- `while (row = mysql_fetch_row(res))` on a result set with these rows. -/
def fetchRows {α : Type} (res : ResultSet) (body : Sys → α → Exec Sys) :
    List α → Sys → Logging MysqlOp Fault Sys
  | [], s => do
    Logging.tell (.fetchRow res)
    pure s
  | row :: rest, s => do
    Logging.tell (.fetchRow res)
    let s ← Logging.lift (body s row)
    fetchRows res body rest s

/-- The contacts of a service; no state is the `continue` after a failed query. -/
def contactOps (calls : Nat → Option (List CallRow)) (s : Sys) (cp : CampId) (camp : Campaign) :
    Logging MysqlOp Fault (Option Sys) :=
  if camp.destinations.isEmpty then do
    Logging.tell (.getResults ((calls camp.campaignId).map fun _ => .contacts cp))
    match calls camp.campaignId with
    | none => pure none
    | some rows => do
      let s ← fetchRows (.contacts cp)
        (fun s row => .ok { s with book := loadContact cp s.book row }) rows s
      Logging.tell (.freeResult (some (.contacts cp)))
      pure (some s)
  else pure (some s)

/-- The actions of a service. The result set is not freed. -/
def actionOps (s : Sys) (cp : CampId) (camp : Campaign) (rows : Option (List ActionRow)) :
    Logging MysqlOp Fault Sys := do
  let s := { s with actions := flushActions s.actions camp.actions }.setCamp cp fun camp =>
    { camp with actions := [] }
  Logging.tell (.getResults (rows.map fun _ => .actions cp))
  match rows with
  | none => do
    Logging.tell (.fetchRow none)
    Logging.lift (.error (.null .result))
  | some rows => fetchRows (.actions cp) (loadAction cp) rows s

/-- The body of the loop over the services. -/
def serviceOps (calls : Nat → Option (List CallRow)) (actions : Nat → Option (List ActionRow))
    (s : Sys) (cp : CampId) : Logging MysqlOp Fault Sys := do
  let camp ← Logging.lift (s.loadCamp cp)
  if camp.isRunning then pure s
  else do
    match ← contactOps calls s cp camp with
    | none => pure s
    | some s => do
      let s ← actionOps s cp camp (actions camp.campaignId)
      pure { s with msgq := s.msgq ++ [(camp.campaignId, cp)] }

def servicesOps (calls : Nat → Option (List CallRow)) (actions : Nat → Option (List ActionRow)) :
    List CampId → Sys → Logging MysqlOp Fault Sys
  | [], s => pure s
  | cp :: rest, s => do
    let s ← serviceOps calls actions s cp
    servicesOps calls actions rest s

/-- The part of `pull_groups` behind the loop over the gateways. -/
def campaignsOps (snap : Snapshot) (s : Sys) : Logging MysqlOp Fault Sys := do
  Logging.tell (.getResults (snap.campaigns.map fun _ => .campaigns))
  match snap.campaigns with
  | none => pure s
  | some campaigns => do
    let s ← fetchRows .campaigns pullCampaign campaigns s
    Logging.tell (.freeResult (some .campaigns))
    servicesOps snap.calls snap.actions s.services s

/-- `pull_groups` -/
def pullOps (s : Sys) (snap : Snapshot) : Logging MysqlOp Fault Sys := do
  Logging.tell (.getResults (snap.gateways.map fun _ => .gateways))
  match snap.gateways with
  | none => pure s
  | some gateways => do
    let s ← fetchRows .gateways pullGateway gateways s
    Logging.tell (.freeResult (some .gateways))
    campaignsOps snap s

/-! ## Without the log -/

theorem fetchRows_result {α : Type} (res : ResultSet) (body : Sys → α → Exec Sys) (rows : List α)
    (s : Sys) : (fetchRows res body rows s).result = rows.foldlM body s := by
  induction rows generalizing s with
  | nil => rfl
  | cons row rest ih =>
    rw [fetchRows, Logging.result_tell_bind, Logging.result_bind, Logging.result_lift, List.foldlM_cons]
    exact bind_congr ih

theorem loadContacts_result (cp : CampId) (rows : List CallRow) (s : Sys) :
    rows.foldlM (fun s row => (.ok { s with book := loadContact cp s.book row } : Exec Sys)) s =
      .ok { s with book := rows.foldl (loadContact cp) s.book } := by
  induction rows generalizing s with
  | nil => rfl
  | cons row rest ih =>
    rw [List.foldlM_cons, ok_bind]
    exact ih _

theorem contactOps_result (calls : Nat → Option (List CallRow)) (s : Sys) (cp : CampId)
    (camp : Campaign) : (contactOps calls s cp camp).result =
      .ok ((rowsFor calls camp).map fun rows =>
        { s with book := rows.foldl (loadContact cp) s.book }) := by
  unfold contactOps rowsFor
  split
  · rw [Logging.result_tell_bind]
    cases calls camp.campaignId with
    | none => rfl
    | some rows =>
      dsimp only
      rw [Logging.result_bind, fetchRows_result, loadContacts_result, ok_bind]
      rfl
  · rfl

theorem actionOps_result (s : Sys) (cp : CampId) (camp : Campaign)
    (rows : Option (List ActionRow)) :
    (actionOps s cp camp rows).result = reloadActions s cp camp rows := by
  unfold actionOps reloadActions
  rw [Logging.result_tell_bind]
  cases rows with
  | none => rfl
  | some rows => exact fetchRows_result _ _ _ _

theorem serviceOps_result (calls : Nat → Option (List CallRow))
    (actions : Nat → Option (List ActionRow)) (s : Sys) (cp : CampId) :
    (serviceOps calls actions s cp).result = pullService calls actions s cp := by
  unfold serviceOps pullService
  rw [Logging.result_bind, Logging.result_lift]
  refine bind_congr fun camp => ?_
  split
  · rfl
  · rw [Logging.result_bind, contactOps_result, ok_bind]
    have query : (if camp.destinations.isEmpty then calls camp.campaignId else some []) =
        rowsFor calls camp := rfl
    rw [query]
    cases rowsFor calls camp with
    | none => rfl
    | some rows =>
      dsimp only [Option.map_some]
      rw [Logging.result_bind, actionOps_result]
      rfl

theorem servicesOps_result (calls : Nat → Option (List CallRow))
    (actions : Nat → Option (List ActionRow)) (l : List CampId) (s : Sys) :
    (servicesOps calls actions l s).result = l.foldlM (pullService calls actions) s := by
  induction l generalizing s with
  | nil => rfl
  | cons cp rest ih =>
    rw [servicesOps, Logging.result_bind, serviceOps_result, List.foldlM_cons]
    exact bind_congr ih

/-- Without its log the pass is that of `pullGroups`. -/
theorem pullOps_result (s : Sys) (snap : Snapshot) : (pullOps s snap).result = pullGroups s snap := by
  unfold pullOps pullGroups
  rw [Logging.result_tell_bind]
  cases snap.gateways with
  | none => rfl
  | some gateways =>
    dsimp only
    rw [Logging.result_bind, fetchRows_result]
    refine bind_congr fun t => ?_
    rw [Logging.result_tell_bind, campaignsOps, Logging.result_tell_bind]
    cases snap.campaigns with
    | none => rfl
    | some campaigns =>
      dsimp only
      rw [Logging.result_bind, fetchRows_result]
      refine bind_congr fun u => ?_
      rw [Logging.result_tell_bind, servicesOps_result]

/-! ## The log -/

/-- A loop over the rows does nothing but read them. -/
theorem fetchRows_logs {α : Type} {P : MysqlOp → Prop} {res : ResultSet}
    (fetch : P (.fetchRow (some res))) (body : Sys → α → Exec Sys) (rows : List α) (s : Sys) :
    (fetchRows res body rows s).Logs P := by
  induction rows generalizing s with
  | nil => exact .tell fetch (.pure s)
  | cons row rest ih => exact .tell fetch (.bind (.lift _) ih)

/-- The call is about a result set of the service: the rows of its contacts or its actions, which
are not freed. -/
inductive ServiceOp : MysqlOp → Prop
  | failed : ServiceOp (.getResults none)
  | null : ServiceOp (.fetchRow none)
  | contacts {cp : CampId} : ServiceOp (.getResults (some (.contacts cp)))
  | contact {cp : CampId} : ServiceOp (.fetchRow (some (.contacts cp)))
  | freed {cp : CampId} : ServiceOp (.freeResult (some (.contacts cp)))
  | actions {cp : CampId} : ServiceOp (.getResults (some (.actions cp)))
  | action {cp : CampId} : ServiceOp (.fetchRow (some (.actions cp)))

theorem contactOps_logs (calls : Nat → Option (List CallRow)) (s : Sys) (cp : CampId)
    (camp : Campaign) : (contactOps calls s cp camp).Logs ServiceOp := by
  unfold contactOps
  split
  · cases calls camp.campaignId with
    | none => exact .tell .failed (.pure none)
    | some rows => exact .tell .contacts (.bind (fetchRows_logs .contact _ _ _)
        fun t => .tell .freed (.pure _))
  · exact .pure _

theorem actionOps_logs (s : Sys) (cp : CampId) (camp : Campaign)
    (rows : Option (List ActionRow)) : (actionOps s cp camp rows).Logs ServiceOp := by
  cases rows with
  | none => exact .tell .failed (.tell .null (.lift _))
  | some rows => exact .tell .actions (fetchRows_logs .action _ _ _)

theorem servicesOps_logs (calls : Nat → Option (List CallRow))
    (actions : Nat → Option (List ActionRow)) (l : List CampId) (s : Sys) :
    (servicesOps calls actions l s).Logs ServiceOp := by
  induction l generalizing s with
  | nil => exact .pure s
  | cons cp rest ih =>
    refine .bind (.bind (.lift _) fun camp => ?_) ih
    split
    · exact .pure _
    · refine .bind (contactOps_logs calls s cp camp) fun t => ?_
      cases t with
      | none => exact .pure _
      | some t => exact .bind (actionOps_logs _ _ _ _) fun _ => .pure _

/-- Behind the loop over the gateways their result set is not touched. -/
theorem campaignsOps_logs (snap : Snapshot) (s : Sys) : (campaignsOps snap s).Logs fun op =>
    ¬ (op = .getResults (some .gateways) ∨ op = .freeResult (some .gateways)) := by
  unfold campaignsOps
  cases snap.campaigns with
  | none => exact .tell (by simp) (.pure s)
  | some campaigns =>
    refine .tell (by simp) (.bind (fetchRows_logs (by simp) _ _ _) fun t => .tell (by simp) ?_)
    intro op mem
    cases servicesOps_logs _ _ _ t op mem <;> simp

/-! ## The services -/

/-- The service does not get as far as its actions: it is running, or the query for its contacts
fails. -/
def Skips (calls : Nat → Option (List CallRow)) (camp : Campaign) : Prop :=
  camp.isRunning = true ∨ rowsFor calls camp = none

theorem serviceOps_skip (actions : Nat → Option (List ActionRow))
    (live : s.book.camps.get cp = some camp) (skips : Skips calls camp) :
    (serviceOps calls actions s cp).result = .ok s ∧
      (serviceOps calls actions s cp).Logs (· = .getResults none) := by
  have found : s.loadCamp cp = .ok camp := load_eq_ok.mpr live
  unfold serviceOps
  rw [found, Logging.lift_ok_bind]
  split
  · exact ⟨rfl, .pure s⟩
  next stopped =>
    have none := skips.resolve_left stopped
    unfold rowsFor at none
    split at none
    next empty =>
      rw [contactOps, if_pos empty, none]
      exact ⟨rfl, fun op mem => List.mem_singleton.mp mem⟩
    next => cases none

/-- A service that gets as far as its actions reads their result set, which is null if the query
fails. -/
theorem serviceOps_actions (live : s.book.camps.get cp = some camp) (reaches : ¬ Skips calls camp) :
    .fetchRow none ∈ (serviceOps calls actions s cp).log ∨
      .getResults (some (.actions cp)) ∈ (serviceOps calls actions s cp).log := by
  obtain ⟨stopped, answered⟩ := not_or.mp reaches
  obtain ⟨rows, isRows⟩ := Option.ne_none_iff_exists'.mp answered
  have found : s.loadCamp cp = .ok camp := load_eq_ok.mpr live
  have contacts := contactOps_result calls s cp camp
  rw [isRows] at contacts
  unfold serviceOps
  rw [found, Logging.lift_ok_bind, if_neg stopped, Logging.log_bind_ok contacts]
  rw [Option.map_some]
  cases actions camp.campaignId with
  | none =>
    refine .inl (List.mem_append_right _ (Logging.mem_log_bind ?_))
    exact List.mem_cons_of_mem _ List.mem_cons_self
  | some acts =>
    refine .inr (List.mem_append_right _ (Logging.mem_log_bind ?_))
    exact List.mem_cons_self

/-- All services skip their actions, and nothing is obtained; or one does not. -/
theorem servicesOps_cases (calls : Nat → Option (List CallRow))
    (actions : Nat → Option (List ActionRow)) {l : List CampId}
    (live : ∀ cp ∈ l, ∃ camp, u.book.camps.get cp = some camp) :
    ((∀ cp ∈ l, ∀ camp, u.book.camps.get cp = some camp → Skips calls camp) ∧
        (servicesOps calls actions l u).Logs (· = .getResults none)) ∨
      ((∃ cp ∈ l, ∃ camp, u.book.camps.get cp = some camp ∧ ¬ Skips calls camp) ∧
        (.fetchRow none ∈ (servicesOps calls actions l u).log ∨
          ∃ cp, .getResults (some (.actions cp)) ∈ (servicesOps calls actions l u).log)) := by
  induction l with
  | nil => exact .inl ⟨(fun _ mem => by cases mem), .pure u⟩
  | cons cp rest ih =>
    obtain ⟨camp, here⟩ := live cp List.mem_cons_self
    rcases em (Skips calls camp) with skips | reaches
    · obtain ⟨same, quiet⟩ := serviceOps_skip actions here skips
      have log := Logging.log_bind_ok (f := servicesOps calls actions rest) same
      rcases ih fun cp' mem => live cp' (List.mem_cons_of_mem _ mem) with
        ⟨all, logs⟩ | ⟨⟨cp', mem, other⟩, said⟩
      · refine .inl ⟨fun cp' mem camp' live' => ?_, ?_⟩
        · rcases List.mem_cons.mp mem with rfl | mem
          · cases here.symm.trans live'
            exact skips
          · exact all cp' mem camp' live'
        · intro op mem
          rw [servicesOps, log] at mem
          rcases List.mem_append.mp mem with mem | mem
          · exact quiet op mem
          · exact logs op mem
      · refine .inr ⟨⟨cp', List.mem_cons_of_mem _ mem, other⟩, ?_⟩
        rw [servicesOps, log]
        exact said.imp (List.mem_append_right _)
          (Exists.imp fun _ mem => List.mem_append_right _ mem)
    · refine .inr ⟨⟨cp, List.mem_cons_self, camp, here, reaches⟩, ?_⟩
      exact (serviceOps_actions here reaches).imp Logging.mem_log_bind
        fun mem => ⟨cp, Logging.mem_log_bind mem⟩

/-! ## The whole pass -/

/-- `mysql_fetch_row` is never called with NULL, and every result set is freed once. -/
structure HandledOnce (log : List MysqlOp) : Prop where
  notNull : .fetchRow none ∉ log
  freed : ∀ res, .getResults (some res) ∈ log → log.count (.freeResult (some res)) = 1

/-- No service gets as far as its actions: every campaign that the rows leave is running, or has no
destinations and the query for its contacts fails. -/
def NoneReaches (s : Sys) (snap : Snapshot) : Prop :=
  ∀ rows, snap.gateways.isSome = true → snap.campaigns = some rows →
    ∀ id standing, s.standingAfter rows id = some standing →
      standing.isRunning = true ∨ standing.loaded = false ∧ snap.calls id = none

theorem count_free {ops : List MysqlOp} {res res' : ResultSet}
    (fetches : ∀ op ∈ ops, op = .fetchRow (some res)) :
    ops.count (.freeResult (some res')) = 0 := by
  refine List.count_eq_zero.mpr fun mem => ?_
  cases fetches _ mem

/-- The log of a loop over the rows, and of what comes after it. -/
theorem fetchRows_log {α β : Type} (res : ResultSet) {body : Sys → α → Exec Sys} {rows : List α}
    {t : Sys} (done : rows.foldlM body s = .ok t) (rest : Sys → Logging MysqlOp Fault β) :
    ∃ fetches, (∀ op ∈ fetches, op = .fetchRow (some res)) ∧
      (fetchRows res body rows s >>= rest).log = fetches ++ (rest t).log :=
  ⟨_, fetchRows_logs (P := (· = .fetchRow (some res))) rfl body rows s,
    Logging.log_bind_ok ((fetchRows_result res body rows s).trans done)⟩

/-- A loop over rows whose result set is freed after it changes nothing of what is said here. -/
theorem handledOnce_block {res : ResultSet} {fetches log : List MysqlOp}
    (isFetch : ∀ op ∈ fetches, op = .fetchRow (some res))
    (noGet : .getResults (some res) ∉ log) (noFree : .freeResult (some res) ∉ log) :
    HandledOnce (.getResults (some res) :: (fetches ++ .freeResult (some res) :: log)) ↔
      HandledOnce log := by
  have fetched : ∀ op, (∀ r, op ≠ .fetchRow (some r)) → op ∉ fetches :=
    fun op other mem => other res (isFetch op mem)
  constructor
  · rintro ⟨notNull, freed⟩
    refine ⟨fun mem => notNull ?_, fun res' mem => ?_⟩
    · simp [mem]
    · have ne : res' ≠ res := by
        rintro rfl
        exact noGet mem
      have count := freed res' (by simp [mem])
      rw [List.count_cons_of_ne (by simp), List.count_append, count_free isFetch,
        List.count_cons_of_ne (by simpa using ne.symm), Nat.zero_add] at count
      exact count
  · rintro ⟨notNull, freed⟩
    refine ⟨?_, fun res' mem => ?_⟩
    · have other := fetched (.fetchRow none) (by simp)
      simp [other, notNull]
    · rw [List.count_cons_of_ne (by simp), List.count_append, count_free isFetch, Nat.zero_add]
      rcases eq_or_ne res' res with rfl | ne
      · rw [List.count_cons_self, List.count_eq_zero.mpr noFree]
      · rw [List.count_cons_of_ne (by simpa using ne.symm)]
        refine freed res' ?_
        have other := fetched (.getResults (some res')) (by simp)
        simpa [ne, other] using mem

/-- The same for the part of the pass that starts with the loop. -/
theorem fetchRows_handled {α : Type} {res : ResultSet} {body : Sys → α → Exec Sys} {rows : List α}
    {t : Sys} (done : rows.foldlM body s = .ok t) (rest : Sys → Logging MysqlOp Fault Sys)
    (noGet : .getResults (some res) ∉ (rest t).log) (noFree : .freeResult (some res) ∉ (rest t).log) :
    HandledOnce (.getResults (some res) :: (fetchRows res body rows s >>= fun s => do
      Logging.tell (.freeResult (some res))
      rest s).log) ↔ HandledOnce (rest t).log := by
  obtain ⟨fetches, isFetch, log⟩ := fetchRows_log res done fun s => do
    Logging.tell (.freeResult (some res))
    rest s
  rw [log, Logging.log_tell_bind]
  exact handledOnce_block isFetch noGet noFree

theorem not_handledOnce {log : List MysqlOp}
    (said : .fetchRow none ∈ log ∨ ∃ cp, .getResults (some (.actions cp)) ∈ log)
    (ops : ∀ op ∈ log, ServiceOp op) : ¬ HandledOnce log := by
  rintro ⟨notNull, freed⟩
  rcases said with null | ⟨cp, got⟩
  · exact notNull null
  · have none : log.count (.freeResult (some (.actions cp))) = 0 :=
      List.count_eq_zero.mpr fun mem => by cases ops _ mem
    rw [freed _ got] at none
    cases none

theorem handledOnce_quiet {log : List MysqlOp} (quiet : ∀ op ∈ log, op = .getResults none) :
    HandledOnce log :=
  ⟨fun mem => (by cases quiet _ mem), fun _ mem => (by cases quiet _ mem)⟩

/-- The services handle their result sets exactly if each of them skips its actions. -/
theorem services_handled {l : List CampId}
    (live : ∀ cp ∈ l, ∃ camp, u.book.camps.get cp = some camp) :
    HandledOnce (servicesOps calls actions l u).log ↔
      ∀ cp ∈ l, ∀ camp, u.book.camps.get cp = some camp → Skips calls camp := by
  rcases servicesOps_cases calls actions live with
    ⟨all, quiet⟩ | ⟨⟨cp, mem, camp, here, reaches⟩, said⟩
  · exact iff_of_true (handledOnce_quiet quiet) all
  · exact iff_of_false (not_handledOnce said (servicesOps_logs calls actions l u))
      fun all => reaches (all cp mem camp here)

/-- Whether a service skips its actions can be told from its standing. -/
theorem skips_iff : Skips calls camp ↔ camp.standing.isRunning = true ∨
    camp.standing.loaded = false ∧ calls camp.campaignId = none := by
  unfold Skips rowsFor
  refine or_congr Iff.rfl ?_
  split
  next empty => simp [Campaign.standing, List.isEmpty_iff.mp empty]
  next full => simp [Campaign.standing, full]

theorem campaigns_handled (between : BetweenRows ans s) (catalogued : Catalogued s) :
    HandledOnce (campaignsOps snap s).log ↔ ∀ rows, snap.campaigns = some rows →
      ∀ id standing, s.standingAfter rows id = some standing →
        standing.isRunning = true ∨ standing.loaded = false ∧ snap.calls id = none := by
  unfold campaignsOps
  rw [Logging.log_tell_bind]
  cases snap.campaigns with
  | none =>
    refine iff_of_true (handledOnce_quiet fun op mem => ?_) fun _ some => by cases some
    exact List.mem_singleton.mp mem
  | some rows =>
    obtain ⟨u, read⟩ := (pullCampaigns_avoids between.inv catalogued rows).total
    have after : BetweenRows ans u := foldlM_rule (I := fun _ t => BetweenRows ans t)
      (fun _ _ _ _ between run => between.next run) between read
    have ops := servicesOps_logs snap.calls snap.actions u.services u
    refine (fetchRows_handled read (fun s => servicesOps snap.calls snap.actions s.services s)
      (fun mem => by cases ops _ mem) (fun mem => by cases ops _ mem)).trans ?_
    rw [services_handled fun cp mem => (after.inv.rostered.mem cp).mp mem]
    constructor
    · intro all rows' some id standing known
      cases some
      rw [← pullCampaigns_standing between read] at known
      obtain ⟨cp, camp, live, rfl, rfl⟩ := standingOf_some known
      exact skips_iff.mp (all cp ((after.inv.rostered.mem cp).mpr ⟨camp, live⟩) camp live)
    · intro all cp _ camp live
      refine skips_iff.mpr (all rows rfl _ _ ?_)
      rw [← pullCampaigns_standing between read]
      exact after.standingOf live rfl

/-- In a pass from a reachable state every result set is handled once, and none is read that is
NULL, exactly if no service gets as far as its actions. -/
theorem handled_once_iff (reach : dialer.Reachable s) (snap : Snapshot) :
    HandledOnce (pullOps s snap).log ↔ NoneReaches s snap := by
  have catalogued := reachable_catalogued reach
  unfold pullOps NoneReaches
  rw [Logging.log_tell_bind]
  cases snap.gateways with
  | none =>
    refine iff_of_true (handledOnce_quiet fun op mem => ?_) fun _ some => by cases some
    exact List.mem_singleton.mp mem
  | some gateways =>
    obtain ⟨t, pulled⟩ := (pullGateways_avoids catalogued gateways).total
    obtain ⟨book, ans, between⟩ := reads_between reach pulled
    have same : ∀ rows id, t.standingAfter rows id = s.standingAfter rows id := by
      intro rows id
      rw [Sys.standingAfter, Sys.standingAfter, Sys.standingOf, Sys.standingOf, book,
        pullGateways_services pulled]
    have ops := campaignsOps_logs snap t
    refine (fetchRows_handled pulled (campaignsOps snap) (fun mem => ops _ mem (.inl rfl))
      (fun mem => ops _ mem (.inr rfl))).trans ?_
    rw [campaigns_handled between (pullGateways_catalogued catalogued pulled)]
    simp only [same, Option.isSome_some, forall_const]

/-- A campaign is read; one contact waits, and the query for the actions fails. -/
def failingActions : Snapshot where
  gateways := some []
  campaigns := some [{ id := 1 }]
  calls _ := some [{ id := 7, contactNumber := some "100" }]
  actions _ := none

theorem handled_once_iff_boot : dialer.Reachable (Sys.boot 4 "/audio") ∧
    (HandledOnce (pullOps (Sys.boot 4 "/audio") failingActions).log ↔
      NoneReaches (Sys.boot 4 "/audio") failingActions) := by
  have reach : dialer.Reachable (Sys.boot 4 "/audio") :=
    .of_init ⟨4, "/audio", by decide, rfl⟩
  exact ⟨reach, handled_once_iff reach failingActions⟩

/-- The result of the query for the actions is not looked at before its rows are fetched. -/
theorem null_result_read : ¬ ∀ (s : Sys) (snap : Snapshot), dialer.Reachable s →
    HandledOnce (pullOps s snap).log := by
  intro always
  have reach : dialer.Reachable (Sys.boot 4 "/audio") :=
    .of_init ⟨4, "/audio", by decide, rfl⟩
  exact (always _ failingActions reach).notNull (by decide)

end Autodialer
