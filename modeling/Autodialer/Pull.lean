import Autodialer.CallEnd

/-!
# Reading the database (`pull_groups`)

The database thread mirrors the gateways and campaigns of the database, loads
the contacts of campaigns that are not running, and sends each of these a
message that starts it. The rows are taken as `parseInt` leaves their numeric
columns; a query that fails has no rows at all.
-/

namespace Autodialer

/-! ## Rows -/

/-- A row of `gateway`: the URI string built from it, and what `uri_decode` makes
of that string. -/
structure GatewayRow where
  id : Nat
  uristr : String
  sipUri : Option SipUri

/-- A row of `campaigns` with its audio file; `campaign_id` is a `uint32_t`. -/
structure CampaignRow where
  id : Nat
  frequency : Nat := 0
  maxCallDuration : Nat := 0
  fileName : Option String := none
  status : Nat := 2
  timeBetweenRetries : Nat := 0
  maxCallRetry : Nat := 0
  playCount : Nat := 0
  gatewayId : Nat := 0
  pbxGatewayId : Nat := 0
  pbxNumber : Option String := none
  idIsUInt32 : decide (id < 2 ^ 32) = true := by exact @rfl Bool true

/-- A row of `calls` that `pull_groups` selects. -/
structure CallRow where
  id : Nat
  contactNumber : Option String := none

/-- A row of `actions`. -/
structure ActionRow where
  keyPress : Nat
  action : Nat
  actionData : Option String := none

/-- The results of the queries of one pass; `none` is a failed query. -/
structure Snapshot where
  gateways : Option (List GatewayRow)
  campaigns : Option (List CampaignRow)
  calls : Nat → Option (List CallRow)
  actions : Nat → Option (List ActionRow)

/-! ## Strings -/

/-- `str_casecmp(…) == 0`; a null string is equal to a null string only. -/
def strCaseEq : Option String → Option String → Bool
  | none, none => true
  | some s, some t => s.toList.map Char.toLower == t.toList.map Char.toLower
  | _, _ => false

/-- `pl_u32`: 0 if there is a character that is no digit. -/
def plU32 (s : List Char) : Nat :=
  if s.all Char.isDigit then
    s.foldl (fun n c => 10 * n + (c.toNat - '0'.toNat)) 0 % 2 ^ 32
  else 0

/-! ## Gateways -/

def findGateway (s : Sys) (id : Nat) : List GatewayId → Exec (Option GatewayId)
  | [] => pure none
  | g :: rest => do
    let gateway ← load .gateway s.gateways g
    if gateway.gatewayId = id then pure (some g) else findGateway s id rest

/-- A row whose URI does not decode destroys its gateway. -/
def setGatewayUri (s : Sys) (g : GatewayId) (row : GatewayRow) : Sys :=
  match row.sipUri with
  | some uri =>
    { s with gateways := s.gateways.modify g fun gateway =>
        { gateway with uriStr := some row.uristr, sipUri := uri } }
  | none =>
    { s with gateways := s.gateways.free g, gatewayList := s.gatewayList.erase g }

def pullGateway (s : Sys) (row : GatewayRow) : Exec Sys := do
  match ← findGateway s row.id s.gatewayList with
  | some g => do
    let gateway ← load .gateway s.gateways g
    pure (if strCaseEq (some row.uristr) gateway.uriStr then s else setGatewayUri s g row)
  | none =>
    let g := s.gateways.next
    let s := { s with
      gateways := s.gateways.alloc { gatewayId := row.id }
      gatewayList := s.gatewayList ++ [g] }
    pure (setGatewayUri s g row)

/-! ## Campaigns -/

def findCampaign (s : Sys) (id : Nat) : List CampId → Exec (Option CampId)
  | [] => pure none
  | cp :: rest => do
    let camp ← s.loadCamp cp
    if camp.campaignId = id then pure (some cp) else findCampaign s id rest

/-- The elements are unlinked one by one and destroyed. -/
def flushDests : List DestId → Sys → Exec Sys
  | [], s => pure s
  | d :: rest, s => do
    let s ← memDerefDest (s.setDest d fun dest => { dest with le := none }) d
    flushDests rest s

def flushActions (actions : Heap Action) (l : List ActionId) : Heap Action :=
  l.foldl Heap.free actions

/-- `mem_deref` on a campaign: `campaign_destructor`, then the memory is freed. -/
def memDerefCampaign (s : Sys) (cp : CampId) : Exec Sys := do
  let camp ← s.loadCamp cp
  let s := { s with services := s.services.erase cp }
  let s ← flushDests camp.destinations s
  let s ← flushDests camp.processl s
  pure { s with
    actions := flushActions s.actions camp.actions
    book := { s.book with camps := s.book.camps.free cp } }

/-- `cp->file_name` after the row has been read. -/
def newFileName (row old : Option String) : Option String :=
  match row with
  | none => none
  | some fileName =>
    if fileName.isEmpty then none
    else if strCaseEq row old then old
    else some fileName

/-- The part of the row that is copied before the status is looked at. -/
def Campaign.readHead (camp : Campaign) (row : CampaignRow) : Campaign :=
  let callLimit := row.frequency % 2 ^ 16
  let duration := row.maxCallDuration % 2 ^ 16
  { camp with
    campaignId := row.id
    callLimit := if callLimit = 0 then 2 else callLimit
    maxCallDuration := if 600 ≤ duration then 600 else duration
    fileName := newFileName row.fileName camp.fileName
    campaignStatus := row.status % 2 ^ 8 }

/-- The rest of the row, with the gateways found for it. -/
def Campaign.readTail (camp : Campaign) (row : CampaignRow) (gateway pbxGateway : Option GatewayId) :
    Campaign :=
  let maxPlay := row.playCount % 2 ^ 8
  { camp with
    retryDelay := row.timeBetweenRetries * 60 % 2 ^ 16
    maxTry := row.maxCallRetry % 2 ^ 8
    maxPlay := if maxPlay = 0 then 1 else maxPlay
    gateway := gateway
    pbxGateway := pbxGateway
    pbxNumber := if strCaseEq row.pbxNumber camp.pbxNumber then camp.pbxNumber else row.pbxNumber }

/-- A stopped campaign without calls is destroyed. -/
def readCampaign (s : Sys) (cp : CampId) (row : CampaignRow) : Exec Sys := do
  let s := s.setCamp cp fun camp => camp.readHead row
  let camp ← s.loadCamp cp
  if 3 < camp.campaignStatus && camp.processl.isEmpty then memDerefCampaign s cp
  else do
    let gateway ← findGateway s row.gatewayId s.gatewayList
    let pbxGateway ← findGateway s row.pbxGatewayId s.gatewayList
    pure (s.setCamp cp fun camp => camp.readTail row gateway pbxGateway)

def pullCampaign (s : Sys) (row : CampaignRow) : Exec Sys := do
  match ← findCampaign s row.id s.services with
  | some cp => readCampaign s cp row
  | none =>
    if row.status ≠ 2 then pure s
    else
      let cp := s.book.camps.next
      readCampaign
        { s with
          book := { s.book with camps := s.book.camps.alloc {} }
          services := s.services ++ [cp] }
        cp row

/-! ## Contacts and actions -/

def loadContact (cp : CampId) (b : Book) (row : CallRow) : Book :=
  let d := b.dests.next
  let dest : Destination := { destId := row.id, dest := row.contactNumber, cp := cp }
  listAppend { b with dests := b.dests.alloc dest } (.destinations cp) d

/-- The gateway and the number of an action of type 0: `action_data` is the id of
the gateway, a comma, and the number. -/
def actionTarget (s : Sys) (row : ActionRow) : Exec (Option GatewayId × Option String) :=
  match row.actionData with
  | none => pure (none, none)
  | some data =>
    if ',' ∈ data.toList then do
      let gateway ← findGateway s (plU32 (data.toList.takeWhile (· ≠ ','))) s.gatewayList
      pure (gateway, some (String.ofList ((data.toList.dropWhile (· ≠ ',')).drop 1)))
    else pure (none, none)

def loadAction (cp : CampId) (s : Sys) (row : ActionRow) : Exec Sys := do
  let actionType := row.action % 2 ^ 8
  let (gateway, dest) ← if actionType = 0 then actionTarget s row else pure (none, none)
  let a := s.actions.next
  let action : Action :=
    { actionKey := row.keyPress % 2 ^ 8, actionType := actionType, gateway := gateway, dest := dest }
  pure ({ s with actions := s.actions.alloc action }.setCamp cp fun camp =>
    { camp with actions := camp.actions ++ [a] })

/-- The actions of a campaign are read anew. `mysql_fetch_row` follows a null
result if the query fails. -/
def reloadActions (s : Sys) (cp : CampId) (camp : Campaign) (rows : Option (List ActionRow)) :
    Exec Sys := do
  let s := { s with actions := flushActions s.actions camp.actions }.setCamp cp fun camp =>
    { camp with actions := [] }
  let rows ← Fallible.get? (.null .result) rows
  rows.foldlM (loadAction cp) s

/-- The body of the loop over the services: contacts are loaded if the list of
destinations is empty, and the campaign is sent a start message. -/
def pullService (calls : Nat → Option (List CallRow)) (actions : Nat → Option (List ActionRow))
    (s : Sys) (cp : CampId) : Exec Sys := do
  let camp ← s.loadCamp cp
  if camp.isRunning then pure s
  else
    match if camp.destinations.isEmpty then calls camp.campaignId else some [] with
    | none => pure s
    | some rows => do
      let s := { s with book := rows.foldl (loadContact cp) s.book }
      let s ← reloadActions s cp camp (actions camp.campaignId)
      pure { s with msgq := s.msgq ++ [(camp.campaignId, cp)] }

/-! ## The pass -/

def pullGateways (s : Sys) (rows : List GatewayRow) : Exec Sys := rows.foldlM pullGateway s

def pullCampaigns (s : Sys) (rows : List CampaignRow) : Exec Sys := rows.foldlM pullCampaign s

def pullGroups (s : Sys) (snap : Snapshot) : Exec Sys :=
  match snap.gateways with
  | none => pure s
  | some gateways => do
    let s ← pullGateways s gateways
    match snap.campaigns with
    | none => pure s
    | some campaigns => do
      let s ← pullCampaigns s campaigns
      s.services.foldlM (pullService snap.calls snap.actions) s

end Autodialer
