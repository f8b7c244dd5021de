import Autodialer.Dialer

/-!
# The campaign tick (`start_fake_calling`)

Every ten seconds a running campaign fills its process list from its
destinations and dials every destination there that has no call.
-/

namespace Autodialer

/-- `mem_deref` on a destination: `destination_destructor`, then the memory is
freed, and its timer with it. -/
def memDerefDest (s : Sys) (d : DestId) : Exec Sys := do
  let dest ← s.loadDest d
  let media ←
    match dest.call with
    | some c => memDerefCall callDepth s.media c
    | none => pure s.media
  let book := listUnlink s.book d
  pure { s with media := media, book := { book with dests := book.dests.free d } }

/-! ## Filling the process list -/

/-- The destination was tried before and its retry delay is not over. -/
def waitsForRetry (camp : Campaign) (dest : Destination) (now : Time) : Bool :=
  0 < dest.tryCount && now - dest.lastTry < camp.retryDelay

def selectLoop (cp : CampId) (now : Time) : List DestId → Book → Exec Book
  | [], b => pure b
  | d :: rest, b => do
    let dest ← load .destination b.dests d
    let camp ← load .campaign b.camps cp
    if waitsForRetry camp dest now then selectLoop cp now rest b
    else
      let b := listAppend (listUnlink b d) (.processl cp) d
      let camp ← load .campaign b.camps cp
      if camp.callLimit ≤ camp.processl.length then pure b else selectLoop cp now rest b

def fillProcessl (b : Book) (cp : CampId) (now : Time) : Exec Book := do
  let camp ← load .campaign b.camps cp
  if camp.processl.length < camp.callLimit then
    let order := listSort (destinationSortHandler b) camp.destinations.length camp.destinations
    selectLoop cp now order (b.setCamp cp fun camp => { camp with destinations := order })
  else pure b

/-! ## Dialling -/

/-- What a loop reads from `le->next` of an element that its body has destroyed.
`list_unlink` has set the link to null and the memory is freed after that; a
build that fills freed memory traps. -/
inductive Freed
  | null
  | stale
  | trap
deriving DecidableEq, Repr

/-- The outcomes of the calls made for one destination: `call_alloc`, `access`,
and the read of the link after a failure. -/
structure DialEnv where
  alloc : AllocEnv := {}
  access : Bool := true
  freed : Freed := .null
deriving DecidableEq, Repr

/-- The path that is printed into `call->audio`. Without a dot in the file name
the length of the base name underflows and nothing is printed. -/
def audioFile (audioPath fileName : String) : Option String :=
  if '.' ∈ fileName.toList then
    some (audioPath ++ "/" ++ String.ofList (fileName.toList.takeWhile (· ≠ '.')) ++ ".wav")
  else none

/-- `dest->call = mem_deref(dest->call)` -/
def dropCall (s : Sys) (d : DestId) (c : CallId) : Exec Sys := do
  let media ← memDerefCall callDepth s.media c
  pure ({ s with media := media }.setDest d fun dest => { dest with call := none })

/-- The call needs an audio file to play or a PBX to join; it is dropped when
there is neither. -/
def dialTarget (s : Sys) (camp : Campaign) (d : DestId) (c : CallId) (access : Bool) : Exec Sys :=
  match camp.fileName with
  | some fileName =>
    let audio := audioFile s.audioPath fileName
    let s := s.setCall c fun call => { call with audio := audio }
    -- `access(NULL)` fails
    if audio.isSome && access then pure s else dropCall s d c
  | none =>
    if camp.pbxGateway.isSome && camp.pbxNumber.isSome then
      pure (s.setCall c fun call => { call with joinPbx := true })
    else dropCall s d c

/-- The dial loop after `call_alloc` has succeeded. -/
def dialPlaced (s : Sys) (now : Time) (env : DialEnv) (d : DestId) (c : CallId) : Exec Sys := do
  let s := s.setDest d fun dest =>
    { dest with tryCount := (dest.tryCount + 1) % 2 ^ 8, lastTry := now }
  let dest ← s.loadDest d
  let camp ← s.loadCamp dest.cp
  let s ← dialTarget s camp d c env.access
  let dest ← s.loadDest d
  match dest.call with
  | some _ => updateCallStatus (s.setDest d fun dest => { dest with tmr := true }) (some d)
  | none =>
    pure (s.setDest d fun dest => { dest with tryCount := (dest.tryCount + 2 ^ 8 - 1) % 2 ^ 8 })

/-- The body of the dial loop; the flag says that the destination was destroyed. -/
def dialDest (s : Sys) (now : Time) (env : DialEnv) (d : DestId) : Exec (Sys × Bool) := do
  let dest ← s.loadDest d
  match dest.call with
  | some _ => pure (s, false)
  | none => do
    let camp ← s.loadCamp dest.cp
    match camp.gateway with
    | none => pure (s, false)
    | some g => do
      let gateway ← load .gateway s.gateways g
      let r ← callAlloc s.media env.alloc now dest.call dest.dest gateway.sipUri false 0 d
      let s := { s with media := r.media }.setDest d fun dest => { dest with call := r.callp }
      if r.err then do
        let s ← memDerefDest s d
        pure (s, true)
      else do
        let c ← nonNull .call r.callp
        let s ← dialPlaced s now env d c
        pure (s, false)

def dialLoop (now : Time) (env : DestId → DialEnv) : List DestId → Sys → Exec Sys
  | [], s => pure s
  | d :: rest, s => do
    let (s, destroyed) ← dialDest s now (env d) d
    if destroyed then
      match (env d).freed with
      | .null => pure s
      | .stale => dialLoop now env rest s
      | .trap => .error (.dangling .destination)
    else dialLoop now env rest s

/-! ## The tick -/

def startFakeCalling (s : Sys) (cp : CampId) (now : Time) (env : DestId → DialEnv) : Exec Sys := do
  let camp ← s.loadCamp cp
  if camp.campaignStatus ≠ 2 then
    pure (s.setCamp cp fun camp => { camp with isRunning := false })
  else
    let book ← fillProcessl s.book cp now
    let s := { s with book := book }
    let camp ← s.loadCamp cp
    let s ← dialLoop now env camp.processl s
    pure (s.setCamp cp fun camp => { camp with tmr := true })

/-- `tmr_init(&cp->tmr)`: the timer is zeroed. One that has a handler is linked on the list of timers,
and its neighbours there still point to it. -/
def Sys.tmrInit (s : Sys) (cp : CampId) : Sys :=
  { s with
    torn := s.torn || (s.book.camps.get cp).any Campaign.tmr
    lost := s.lost.erase (.camp cp) }.setCamp cp fun camp => { camp with tmr := false }

def campaignServiceHandler (s : Sys) (cp : CampId) (now : Time) (env : DestId → DialEnv) :
    Exec Sys := do
  let _ ← s.loadCamp cp
  let s := s.setCamp cp fun camp => { camp with isRunning := true }
  startFakeCalling (s.tmrInit cp) cp now env

end Autodialer
