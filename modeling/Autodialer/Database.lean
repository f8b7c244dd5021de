import Autodialer.Lib.Pending
import Autodialer.System

/-!
# The process and its database

The table `calls`, and the database thread in its own steps: `db_sync` as in
`queueNext`, then `pull_groups` query by query. Between any two of these steps
the main loop may run. A statement takes effect when it is handed to MySQL; rows
are added to the table by others, and only the program changes them.

`Loads` says which contacts a step loads from the table.
-/

namespace Autodialer

/-- A row of `calls`, as far as the program reads and writes it. Its ids are of type INT,
as `int dest_id` and `%d` take them. -/
structure CallRecord where
  id : Nat
  campaignId : Nat
  contactNumber : Option String := none
  callDuration : Int := 0
  idIsInt : decide (id < 2 ^ 31) = true := by exact @rfl Bool true
  campaignIsInt : decide (campaignId < 2 ^ 31) = true := by exact @rfl Bool true
deriving DecidableEq, Repr

/-- The `call_duration` that a statement writes to the row with this id. The statement
has the id of its contact as `%d` prints it. -/
def Sql.writes (id : Nat) : Sql → Option Int
  | .status _ callDuration _ _ row => if toInt32 row = id then some callDuration else none
  | .final u => if toInt32 u.id = id then some u.callDuration else none
  | .forwarding _ => none

/-- The row after the statements have run. -/
def CallRecord.after (statements : List Sql) (r : CallRecord) : CallRecord :=
  { r with callDuration := Pending.after (Sql.writes r.id) statements r.callDuration }

/-- `SELECT id,contact_number from calls where call_duration = 0 AND campaign_id = %d` -/
def selectCalls (calls : List CallRecord) (campaignId : Nat) : List CallRow :=
  (calls.filter fun r => r.callDuration = 0 && toInt32 campaignId = r.campaignId).map fun r =>
    { id := r.id, contactNumber := r.contactNumber }

/-- Where the database thread is. -/
inductive DbPc
  | sync (pc : SyncPc)
  /-- Before the query on `gateway`. -/
  | gateways
  /-- Before the query on `campaigns`. -/
  | campaigns
  /-- These services are still to be looked at; with none left the thread sleeps. -/
  | services (rest : List CampId)
deriving DecidableEq, Repr

/-- Where it is in `db_sync`. -/
def DbPc.inSync : DbPc → SyncPc
  | .sync pc => pc
  | _ => .idle

structure World where
  sys : Sys
  pc : DbPc := .sync .idle
  calls : List CallRecord

/-- The steps, with the results of the queries in them. -/
inductive WorldEvent
  | main (e : Event)
  | sync (e : SyncEvent)
  | gateways (rows : Option (List GatewayRow))
  | campaigns (rows : Option (List CampaignRow))
  /-- The next service is looked at; `selected` says that the query on `calls`
  succeeds if it is made. -/
  | service (selected : Bool) (actions : Option (List ActionRow))
  /-- `sleep(10)` is over. -/
  | wake
  /-- A contact is added to the table. -/
  | insert (r : CallRecord)

namespace World

/-- A query without a connection has no result. -/
def answer {α : Type} (w : World) (rows : Option α) : Option α :=
  if w.sys.db.con = .connected then rows else none

/-- The result of the query on `calls`. -/
def selected (w : World) (ok : Bool) (campaignId : Nat) : Option (List CallRow) :=
  w.answer (if ok then some (selectCalls w.calls campaignId) else none)

/-- After `db_sync` comes `pull_groups`. The table changes by the statement that has
been handed over, if any. -/
def synced (w : World) (db : Db Sql) (pc : SyncPc) : World where
  sys := { w.sys with db := db }
  pc := if pc = .idle then .gateways else .sync pc
  calls := w.calls.map (CallRecord.after (db.handed.drop w.sys.db.handed.length))

/-- A failed query of `pull_groups` ends the pass. -/
def passed (w : World) : World := { w with pc := .services [] }

def next (w : World) : WorldEvent → Option World
  | .main e =>
    if e.isMain then (w.sys.next e).map fun sys => { w with sys := sys } else none
  | .sync e =>
    match w.pc with
    | .sync pc => (dbSync w.sys.db pc e).map fun (db, pc) => w.synced db pc
    | _ => none
  | .gateways rows =>
    if w.pc = .gateways then
      match w.answer rows with
      | none => some w.passed
      | some rows =>
        (pullGateways w.sys rows).toOption.map fun sys => { w with sys := sys, pc := .campaigns }
    else none
  | .campaigns rows =>
    if w.pc = .campaigns then
      match w.answer rows with
      | none => some w.passed
      | some rows =>
        (pullCampaigns w.sys rows).toOption.map fun sys =>
          { w with sys := sys, pc := .services sys.services }
    else none
  | .service ok actions =>
    match w.pc with
    | .services (cp :: rest) =>
      (pullService (w.selected ok) (fun _ => w.answer actions) w.sys cp).toOption.map fun sys =>
        { w with sys := sys, pc := .services rest }
    | _ => none
  | .wake => if w.pc = .services [] then some { w with pc := .sync .idle } else none
  | .insert r =>
    if r.id ∈ w.calls.map CallRecord.id then none else some { w with calls := w.calls ++ [r] }

end World

/-- The database thread starts with a table whose ids are distinct. -/
def WorldInit (w : World) : Prop :=
  SysInit w.sys ∧ w.pc = .sync .idle ∧ (w.calls.map CallRecord.id).Nodup

/-- The dialer with its database. -/
def world : Lts World WorldEvent := Lts.ofNext WorldInit World.next

/-- With the event the contacts `rows` of the table are loaded for the campaign `cp`. -/
inductive Loads (w : World) (cp : CampId) : WorldEvent → List CallRow → Prop
  | service {rest : List CampId} {actions : Option (List ActionRow)} {camp : Campaign} :
      w.pc = .services (cp :: rest) → w.sys.db.con = .connected →
      w.sys.book.camps.get cp = some camp → camp.isRunning = false → camp.destinations = [] →
      Loads w cp (.service true actions) (selectCalls w.calls camp.campaignId)

end Autodialer
