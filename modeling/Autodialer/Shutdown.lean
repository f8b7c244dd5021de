import Autodialer.CallStatements
import Autodialer.Capacity
import Autodialer.Leaks
import Autodialer.Safety

/-!
# The end of the process

On a signal the main loop flushes the gateways and the services, closes the RTP sockets and stops.
The database thread reads `running` at the top of its loop and once more behind a pass, so that a
pass may still follow the signal. The process is modelled with the flags that the two threads share
and with the place where the database thread is.

* `signal_stops`: while the list of timers is whole the handler ends in every reachable state, and
  frees every object.
* `shutdown`: what the rest of a run does after the signal.
-/

namespace Autodialer

open Fallible

/-! ## The process -/

/-- Where `DbThread` is: before `while(running)`, before `pull_groups`, before the second test of
`running`, or at its end. -/
inductive DbThreadPc
  | top
  | pass
  | after
  | ended
deriving DecidableEq

structure Process where
  sys : Sys
  running : Bool := true
  /-- `polling` of `re_main`. -/
  polling : Bool := true
  thread : DbThreadPc := .top
  /-- The RTP sessions whose sockets are closed. -/
  closed : List SessionId := []

/-- `list_flush(&gateways)`: `gateway_destructor` reads the gateway, then the memory is freed. -/
def flushGateways : List GatewayId → Sys → Exec Sys
  | [], s => pure { s with gatewayList := [] }
  | g :: rest, s => do
    let _ ← load .gateway s.gateways g
    flushGateways rest { s with gateways := s.gateways.free g }

/-- `list_flush(&services)` -/
def flushServices : List CampId → Sys → Exec Sys
  | [], s => pure { s with services := [] }
  | cp :: rest, s => do
    let s ← memDerefCampaign s cp
    flushServices rest s

/-- `rtp_session_destroy`: only the sessions on the free list are closed. -/
def rtpSessionDestroy (p : Process) : Process :=
  { p with
    sys := { p.sys with media := { p.sys.media with rtpSessions := [] } }
    closed := p.closed ++ p.sys.media.rtpSessions }

/-- `re_cancel` stops the main loop. -/
def terminate (p : Process) : Process :=
  { rtpSessionDestroy { p with running := false } with polling := false }

def signalHandler (p : Process) : Exec Process := do
  let sys ← flushGateways p.sys.gatewayList p.sys
  let sys ← flushServices sys.services sys
  pure (terminate { p with sys := sys })

/-- How a run of `signal_handler` turns out. The destructors of the live calls send BYE requests,
which start timers: over a torn list of timers it may go astray, like any other handler. -/
inductive SignalRun (p : Process) : Exec Process → Prop
  | ended : SignalRun p (signalHandler p)
  | astray : p.sys.torn = true → SignalRun p (.error .torn)

inductive ProcessEvent
  /-- The main loop takes an event. -/
  | main (e : Event)
  /-- The main loop finds a signal. -/
  | signal
  /-- The database thread reads `running`. -/
  | test
  | pass (snap : Snapshot)

namespace ProcessEvent

def isPass : ProcessEvent → Bool
  | .pass _ => true
  | .main _ | .signal | .test => false

def isSignal : ProcessEvent → Bool
  | .signal => true
  | .main _ | .test | .pass _ => false

end ProcessEvent

/-- `re_main` looks at the signal before it looks at `polling`, and leaves its loop when `polling`
is cleared. -/
def Process.next (p : Process) : ProcessEvent → Option Process
  | .main e =>
    if p.polling && e.isMain then (p.sys.next e).map fun sys => { p with sys := sys } else none
  | .signal => if p.polling then (signalHandler p).toOption else none
  | .test =>
    match p.thread with
    | .top => some { p with thread := if p.running then .pass else .ended }
    | .after => some { p with thread := if p.running then .top else .ended }
    | .pass | .ended => none
  | .pass snap =>
    if p.thread = .pass then
      (p.sys.next (.pull snap)).map fun sys => { p with sys := sys, thread := .after }
    else none

def ProcessInit (p : Process) : Prop := ∃ s, SysInit s ∧ p = { sys := s }

def process : Lts Process ProcessEvent := Lts.ofNext ProcessInit Process.next

variable {s s' t : Sys} {p p' q : Process} {cp : CampId} {camp : Campaign} {bad : Fault → Prop}
  {ans : CallId → Addr → Prop}

/-! ## Flushing -/

/-- Contacts can be flushed with their calls. -/
theorem flushDests_avoids_owned {l : List DestId} (sound : Sound s.media s.book.owner)
    (nodup : l.Nodup) (live : ∀ d ∈ l, ∃ dest, s.book.dests.get d = some dest) :
    Avoids bad (flushDests l s) := by
  induction l generalizing s with
  | nil => exact .ok s
  | cons d rest ih =>
    obtain ⟨new, nodup⟩ := List.nodup_cons.mp nodup
    obtain ⟨dest, here⟩ := live d List.mem_cons_self
    have unlinked : (s.setDest d fun dest => { dest with le := none }).book.dests.get d =
        some { dest with le := none } := by
      simp [Sys.setDest, here]
    have owner : (s.setDest d fun dest => { dest with le := none }).book.owner = s.book.owner := by
      show (s.book.setDest d _).owner = _
      rw [owner_setDest here, ← owner_of_live here, Function.update_eq_self]
    have gone : Avoids bad (memDerefDest (s.setDest d fun dest => { dest with le := none }) d) := by
      refine (load_avoids unlinked).bind fun dest' loaded => ?_
      obtain rfl := Option.some.inj ((load_eq_ok.mp loaded).symm.trans unlinked)
      cases has : dest.call with
      | none => exact (Avoids.pure _).bind fun _ _ => .pure _
      | some c =>
        have owned : s.book.owner d = some c := (owner_of_live here).trans has
        exact (sound.memDerefCall_avoids owned).bind fun _ _ => .pure _
    refine gone.bind fun t run => ?_
    obtain ⟨media, dropped, rfl⟩ := memDerefDest_cases unlinked run
    refine ih ?_ nodup fun e mem => ?_
    · show Sound media (Book.remove _ d).owner
      rw [owner_remove, owner]
      cases has : dest.call with
      | none =>
        rw [has] at dropped
        have same : media = s.media := dropped
        rw [same, ← has, ← owner_of_live here, Function.update_eq_self]
        exact sound
      | some c =>
        rw [has] at dropped
        exact sound.drop ((owner_of_live here).trans has) dropped
    · obtain ⟨other, liveOther⟩ := live e (List.mem_cons_of_mem _ mem)
      have ne : e ≠ d := by
        rintro rfl
        exact new mem
      refine ⟨other, ?_⟩
      show (Book.remove _ d).dests.get e = _
      rw [Book.remove_dests, if_neg ne, Sys.setDest, Book.dests_setDest, Heap.get_modify_ne ne]
      exact liveOther

theorem Inv.destroyCamp_ok (inv : Inv ans s) (live : s.book.camps.get cp = some camp) :
    ∃ s', memDerefCampaign s cp = .ok s' := by
  have flushed : Avoids (fun _ => True) (flushDests (camp.destinations ++ camp.processl)
      { s with services := s.services.erase cp }) := by
    refine flushDests_avoids_owned inv.sound (inv.lists_nodup live) fun d mem => ?_
    rcases List.mem_append.mp mem with mem | mem
    · obtain ⟨dest, liveDest, -⟩ := inv.partition.on_destinations live mem
      exact ⟨dest, liveDest⟩
    · obtain ⟨dest, liveDest, -⟩ := inv.partition.on_processl live mem
      exact ⟨dest, liveDest⟩
  obtain ⟨t, run⟩ := flushed.total
  rw [flushDests_append] at run
  obtain ⟨u, first, second⟩ := bind_eq_ok.mp run
  rw [memDerefCampaign, Sys.loadCamp, load, live, get?_some, ok_bind]
  dsimp only
  rw [first, ok_bind, second]
  exact ⟨_, rfl⟩

/-- What is left of a campaign once it has been destroyed. -/
theorem memDerefCampaign_services (run : memDerefCampaign s cp = .ok s') :
    s'.services = s.services.erase cp ∧ s'.db = s.db ∧ s'.gateways = s.gateways ∧
      s'.gatewayList = s.gatewayList := by
  obtain ⟨camp, t, -, flushed, rfl⟩ := memDerefCampaign_cases run
  have frame := flushDests_frame flushed
  rw [frame]
  exact ⟨rfl, rfl, rfl, rfl⟩

/-- The services are flushed, and with them contacts, calls and actions. -/
structure Drained (s t : Sys) : Prop where
  inv : Inv (fun _ _ => True) t
  onLists : OnLists t
  services : t.services = []
  service : Service False s.media t.media
  db : t.db = s.db
  gateways : t.gateways = s.gateways
  gatewayList : t.gatewayList = s.gatewayList

theorem flushServices_drained {l : List CampId} (inv : Inv (fun _ _ => True) s)
    (onLists : OnLists s) (list : s.services = l) : ∃ t, flushServices l s = .ok t ∧ Drained s t := by
  induction l generalizing s with
  | nil =>
    have same : s = { s with services := [] } := by rw [← list]
    exact ⟨s, congrArg _ same.symm, inv, onLists, list, .refl _, rfl, rfl, rfl⟩
  | cons cp rest ih =>
    have mem : cp ∈ s.services := list ▸ List.mem_cons_self
    obtain ⟨camp, live⟩ := (inv.rostered.mem cp).mp mem
    obtain ⟨u, run⟩ := inv.destroyCamp_ok live
    obtain ⟨services, db, gateways, gatewayList⟩ := memDerefCampaign_services run
    rw [list, List.erase_cons_head] at services
    obtain ⟨t, rest, drained⟩ := ih (inv.destroyCamp run) (onLists.destroyCamp inv run) services
    refine ⟨t, ?_, drained.inv, drained.onLists, drained.services, ?_, drained.db.trans db,
      drained.gateways.trans gateways, drained.gatewayList.trans gatewayList⟩
    · rw [flushServices, run]
      exact rest
    · exact (memDerefCampaign_service inv run).trans drained.service

theorem flushGateways_eq {l : List GatewayId} (nodup : l.Nodup)
    (live : ∀ g ∈ l, ∃ gateway, s.gateways.get g = some gateway) :
    ∃ gateways, flushGateways l s = .ok { s with gateways := gateways, gatewayList := [] } ∧
      ∀ g, gateways.get g = if g ∈ l then none else s.gateways.get g := by
  induction l generalizing s with
  | nil => exact ⟨s.gateways, rfl, fun g => by simp⟩
  | cons g rest ih =>
    obtain ⟨new, nodup⟩ := List.nodup_cons.mp nodup
    obtain ⟨gateway, here⟩ := live g List.mem_cons_self
    have left : ∀ g' ∈ rest, ∃ gateway, (s.gateways.free g).get g' = some gateway := by
      intro g' mem
      obtain ⟨gateway', live'⟩ := live g' (List.mem_cons_of_mem _ mem)
      refine ⟨gateway', ?_⟩
      rw [Heap.get_free_ne]
      · exact live'
      · rintro rfl
        exact new mem
    obtain ⟨gateways, run, gone⟩ := ih (s := { s with gateways := s.gateways.free g }) nodup left
    refine ⟨gateways, ?_, fun g' => ?_⟩
    · rw [flushGateways, load, here, get?_some, ok_bind]
      exact run
    · rw [gone g', Heap.get_free]
      by_cases isHead : g' = g <;> simp [isHead]

/-! ## The signal -/

/-- What the signal leaves: no object of the dialer is live, every session that was in service is
closed, once, and the statements are those from before. -/
structure Signalled (p p' : Process) : Prop where
  inv : Inv (fun _ _ => True) p'.sys
  catalogued : Catalogued p'.sys
  onLists : OnLists p'.sys
  cleared : ∀ o, ¬ p'.sys.Live o
  unserved : ∀ rs, ¬ p'.sys.media.InService rs
  closed : ∃ l : List SessionId, p'.closed = p.closed ++ l ∧ l.Nodup ∧
    ∀ rs, rs ∈ l ↔ p.sys.media.InService rs
  db : p'.sys.db = p.sys.db
  running : p'.running = false
  polling : p'.polling = false
  thread : p'.thread = p.thread

/-- Without services and gateways nothing is live. -/
theorem Inv.cleared (inv : Inv ans s) (onLists : OnLists s)
    (services : s.services = []) (gatewayList : s.gatewayList = []) (o : Object) : ¬ s.Live o := by
  intro live
  have roots : ∀ o, ¬ s.Owns none o := by
    intro o owns
    cases owns with
    | camp mem => simp [services] at mem
    | gateway mem => simp [gatewayList] at mem
  have found := live.found inv onLists
  clear live
  induction found with
  | root owns => exact roots _ owns
  | owned _ _ ih => exact ih

theorem Catalogued.of_empty (empty : s.gatewayList = []) : Catalogued s where
  live g mem := by simp [empty] at mem
  nodup := empty ▸ List.nodup_nil
  unique g _ _ _ offers := by simp [Sys.Offers, empty] at offers

/-- The sessions of a process without calls are closed. -/
theorem Inv.closeSessions (inv : Inv ans s) (none : ∀ c, s.media.calls.get c = none) :
    Inv ans { s with media := { s.media with rtpSessions := [] } } := by
  have sound := inv.sound
  refine inv.callback ⟨⟨List.nodup_nil, nofun⟩, sound.session, sound.owner,
    sound.listens, sound.owned, fun c call live => ?_, sound.leg, sound.peer, sound.bridge⟩
    inv.phase
  rw [none c] at live
  cases live

theorem signalHandler_signalled (inv : Inv (fun _ _ => True) p.sys) (catalogued : Catalogued p.sys)
    (onLists : OnLists p.sys) : ∃ p', signalHandler p = .ok p' ∧ Signalled p p' := by
  obtain ⟨gateways, first, gone⟩ := flushGateways_eq catalogued.nodup catalogued.live
  generalize isS : { p.sys with gateways := gateways, gatewayList := [] } = s at first
  have noGateway : ∀ g, s.gateways.get g = none := by
    intro g
    rw [← isS, gone]
    split
    next => rfl
    next other =>
      cases live : p.sys.gateways.get g with
      | none => rfl
      | some gateway => exact absurd (onLists.gateway g gateway live) other
  have inv' : Inv (fun _ _ => True) s := by
    rw [← isS]
    exact ⟨inv.partition, inv.supervised, ⟨inv.rostered.mem, inv.rostered.nodup⟩, inv.keyed,
      inv.sound, inv.phase⟩
  have onLists' : OnLists s := by
    refine ⟨?_, ?_, fun g gateway live => ?_⟩
    · rw [← isS]
      exact onLists.action
    · rw [← isS]
      exact onLists.once
    · rw [noGateway] at live
      cases live
  obtain ⟨t, second, drained⟩ := flushServices_drained inv' onLists' rfl
  refine ⟨terminate { p with sys := t }, ?_, ?_⟩
  · rw [signalHandler, first, ok_bind, second]
    rfl
  have cleared : ∀ o, ¬ t.Live o := drained.inv.cleared drained.onLists drained.services
    (by rw [drained.gatewayList, ← isS])
  have noCall : ∀ c, t.media.calls.get c = none := fun c =>
    Option.not_isSome_iff_eq_none.mp (cleared (.call c))
  have media : s.media = p.sys.media := by rw [← isS]
  have inService : ∀ rs, rs ∈ t.media.rtpSessions ↔ p.sys.media.InService rs := by
    intro rs
    rw [← media]
    constructor
    · intro free
      exact drained.service.gone rs (.inl free)
    · intro on
      rcases drained.service.stays id rs on with free | ⟨c, call, live, -⟩
      · exact free
      · rw [noCall c] at live
        cases live
  refine ⟨drained.inv.closeSessions noCall, ?_, ⟨drained.onLists.action, drained.onLists.once,
    drained.onLists.gateway⟩, fun o live => cleared o (by cases o <;> exact live), ?_,
    ⟨t.media.rtpSessions, rfl, drained.inv.sound.pool.nodup, inService⟩, ?_, rfl, rfl, rfl⟩
  · exact .of_empty (drained.gatewayList.trans (by rw [← isS]))
  · rintro rs (free | ⟨c, call, live, -⟩)
    · cases free
    · have live : t.media.calls.get c = some call := live
      rw [noCall c] at live
      cases live
  · exact drained.db.trans (by rw [← isS])

/-! ## Runs of the process -/

/-- What a step of the process does. -/
inductive ProcessResult (p : Process) : ProcessEvent → Process → Prop
  | main {e : Event} {sys : Sys} : p.polling = true → e.isMain = true → dialer.step p.sys e sys →
      ProcessResult p (.main e) { p with sys := sys }
  | signal {p' : Process} : p.polling = true → signalHandler p = .ok p' →
      ProcessResult p .signal p'
  | entered : p.thread = .top →
      ProcessResult p .test { p with thread := if p.running then .pass else .ended }
  | looked : p.thread = .after →
      ProcessResult p .test { p with thread := if p.running then .top else .ended }
  | pass {snap : Snapshot} {sys : Sys} : p.thread = .pass → dialer.step p.sys (.pull snap) sys →
      ProcessResult p (.pass snap) { p with sys := sys, thread := .after }

theorem process_cases {e : ProcessEvent} (step : process.step p e p') : ProcessResult p e p' := by
  replace step : p.next e = some p' := step
  cases e with
  | main e =>
    rw [Process.next] at step
    split at step
    next on =>
      rw [Bool.and_eq_true] at on
      obtain ⟨sys, taken, rfl⟩ := Option.map_eq_some_iff.mp step
      exact .main on.1 on.2 taken
    next => cases step
  | signal =>
    rw [Process.next] at step
    split at step
    next on => exact .signal on (toOption_eq_some.mp step)
    next => cases step
  | test =>
    rw [Process.next] at step
    split at step
    next here =>
      cases step
      exact .entered here
    next here =>
      cases step
      exact .looked here
    next => cases step
    next => cases step
  | pass snap =>
    rw [Process.next] at step
    split at step
    next here =>
      obtain ⟨sys, taken, rfl⟩ := Option.map_eq_some_iff.mp step
      exact .pass here taken
    next => cases step

/-- The dialer of a process is as in a run of its own, and until the signal both threads go on. -/
structure Process.Good (p : Process) : Prop where
  inv : Inv (fun _ _ => True) p.sys
  catalogued : Catalogued p.sys
  onLists : OnLists p.sys
  going : p.polling = true → p.running = true ∧ p.closed = []

namespace Process.Good

theorem stepped {e : Event} {sys : Sys} (good : p.Good) (step : dialer.step p.sys e sys) :
    Inv (fun _ _ => True) sys ∧ Catalogued sys ∧ OnLists sys :=
  ⟨step_inv_hears good.inv (.anything _ e) step, step_catalogued good.inv good.catalogued step,
    step_onLists good.inv good.catalogued good.onLists step⟩

theorem step {e : ProcessEvent} (good : p.Good) (step : process.step p e p') : p'.Good := by
  cases process_cases step with
  | main _ _ taken =>
    obtain ⟨inv, catalogued, onLists⟩ := good.stepped taken
    exact ⟨inv, catalogued, onLists, good.going⟩
  | signal _ run =>
    obtain ⟨_, run', signalled⟩ := signalHandler_signalled good.inv good.catalogued good.onLists
    obtain rfl := Except.ok.inj (run.symm.trans run')
    refine ⟨signalled.inv, signalled.catalogued, signalled.onLists, fun polling => ?_⟩
    rw [signalled.polling] at polling
    cases polling
  | entered => exact ⟨good.inv, good.catalogued, good.onLists, good.going⟩
  | looked => exact ⟨good.inv, good.catalogued, good.onLists, good.going⟩
  | pass _ taken =>
    obtain ⟨inv, catalogued, onLists⟩ := good.stepped taken
    exact ⟨inv, catalogued, onLists, good.going⟩

end Process.Good

theorem reachable_good (reach : process.Reachable p) : p.Good := by
  refine reach.invariant ?_ fun _ _ _ good step => good.step step
  rintro p ⟨s, ⟨n, audioPath, -, rfl⟩, rfl⟩
  exact ⟨.boot n audioPath, .boot n audioPath, .boot n audioPath, fun _ => ⟨rfl, rfl⟩⟩

/-- **A signal is safe.** In every reachable state of the running process in which no start message
has torn the list of timers, every run of the handler ends without a fault; every
object is freed, the RTP sockets that are closed are those of the sessions in service, each once, and
no statement is made, so that the calls in progress have no final record. -/
theorem signal_stops (reach : process.Reachable p) (polling : p.polling = true)
    (whole : p.sys.torn = false) :
    ∃ p', (∀ r, SignalRun p r → r = .ok p') ∧ process.step p .signal p' ∧
      (∀ o, ¬ p'.sys.Live o) ∧ p'.sys.db = p.sys.db ∧
      p'.closed.Nodup ∧ (∀ rs, rs ∈ p'.closed ↔ p.sys.media.InService rs) ∧
      p'.running = false ∧ p'.polling = false := by
  have good := reachable_good reach
  obtain ⟨p', run, signalled⟩ := signalHandler_signalled good.inv good.catalogued good.onLists
  obtain ⟨l, closed, nodup, mem⟩ := signalled.closed
  rw [(good.going polling).2, List.nil_append] at closed
  refine ⟨p', fun r runs => ?_, ?_, signalled.cleared, signalled.db, closed ▸ nodup, closed ▸ mem,
    signalled.running, signalled.polling⟩
  · cases runs with
    | ended => exact run
    | astray torn =>
      rw [whole] at torn
      cases torn
  · show p.next .signal = _
    rw [Process.next, if_pos polling, run]
    rfl

/-- The database thread makes a pass, and the contacts are called. -/
def calling : List ProcessEvent :=
  [.test, .pass oneCampaign, .main (.message 100 fun _ => {})]

theorem signal_stops_calling : ∃ p, process.Reachable p ∧ p.sys.Live (.call 0) ∧
    ∃ p', (∀ r, SignalRun p r → r = .ok p') ∧ process.step p .signal p' ∧ ¬ p'.sys.Live (.call 0) ∧
      ∀ rs, rs ∈ p'.closed ↔ p.sys.media.InService rs := by
  obtain ⟨h, p, run, test⟩ := Lts.replay_exists ProcessInit Process.next
    (s := { sys := Sys.boot 4 "/audio" }) calling
    (fun _ p => p.polling && !p.sys.torn && (p.sys.media.calls.get 0).isSome)
    ⟨Sys.boot 4 "/audio", ⟨4, "/audio", by decide, rfl⟩, rfl⟩ (by decide)
  simp only [Bool.and_eq_true, Bool.not_eq_true'] at test
  obtain ⟨⟨polling, whole⟩, live⟩ := test
  obtain ⟨p', ends, step, cleared, -, -, closed, -⟩ := signal_stops ⟨h, run⟩ polling whole
  exact ⟨p, ⟨h, run⟩, live, p', ends, step, cleared (.call 0), closed⟩

/-! ## After the signal -/

/-- The steps that the database thread takes before it ends, once `running` is cleared. -/
def DbThreadPc.left : DbThreadPc → Nat
  | .pass => 2
  | .top | .after => 1
  | .ended => 0

/-- `h` is what has happened since the signal left `r`. -/
structure Ending (r : Process) (h : List (Process × ProcessEvent)) (q : Process) : Prop where
  good : q.Good
  running : q.running = false
  polling : q.polling = false
  closed : q.closed = r.closed
  db : q.sys.db = r.sys.db
  unserved : ∀ rs, ¬ q.sys.media.InService rs
  only : ∀ x ∈ h, x.2 = .test ∨ x.2.isPass = true
  left : h.length + q.thread.left = r.thread.left
  passes : (h.filter fun x => x.2.isPass).length + (if q.thread = .pass then 1 else 0) ≤ 1
  alone : (∀ x ∈ h, x.2.isPass = false) → q.sys = r.sys

namespace Ending

variable {r : Process} {h : List (Process × ProcessEvent)}

theorem start (good : p.Good) (signalled : Signalled q p) : Ending p [] p where
  good := good
  running := signalled.running
  polling := signalled.polling
  closed := rfl
  db := rfl
  unserved := signalled.unserved
  only _ mem := by cases mem
  left := Nat.zero_add _
  passes := by
    rw [List.filter_nil, List.length_nil, Nat.zero_add]
    split <;> decide
  alone _ := rfl

/-- The database thread finds `running` cleared. -/
theorem test (ending : Ending r h p) (step : process.step p .test { p with thread := .ended })
    (last : p.thread.left = 1) (outside : p.thread ≠ .pass) :
    Ending r (h ++ [(p, .test)]) { p with thread := .ended } where
  good := ending.good.step step
  running := ending.running
  polling := ending.polling
  closed := ending.closed
  db := ending.db
  unserved := ending.unserved
  only x mem := by
    rcases List.mem_append.mp mem with old | new
    · exact ending.only x old
    · rw [List.mem_singleton.mp new]
      exact .inl rfl
  left := by
    have left := ending.left
    rw [last] at left
    rw [List.length_append]
    exact left
  passes := by
    have passes := ending.passes
    rw [if_neg outside] at passes
    rw [List.filter_append, List.length_append]
    exact passes
  alone quiet := ending.alone fun x mem => quiet x (List.mem_append_left _ mem)

theorem pass {snap : Snapshot} {sys : Sys} (ending : Ending r h p) (here : p.thread = .pass)
    (step : process.step p (.pass snap) { p with sys := sys, thread := .after })
    (run : pullGroups p.sys snap = .ok sys) :
    Ending r (h ++ [(p, .pass snap)]) { p with sys := sys, thread := .after } where
  good := ending.good.step step
  running := ending.running
  polling := ending.polling
  closed := ending.closed
  db := (pull_db run).trans ending.db
  unserved rs on := by
    have service : Service False p.sys.media sys.media := pull_service ending.good.inv run
    exact ending.unserved rs (service.gone rs on)
  only x mem := by
    rcases List.mem_append.mp mem with old | new
    · exact ending.only x old
    · rw [List.mem_singleton.mp new]
      exact .inr rfl
  left := by
    have left := ending.left
    rw [here] at left
    rw [List.length_append]
    exact left
  passes := by
    have passes := ending.passes
    rw [if_pos here] at passes
    rw [List.filter_append, List.length_append]
    exact passes
  alone quiet := by
    have isPass := quiet (p, .pass snap) (List.mem_append_right _ (List.mem_singleton_self _))
    cases isPass

theorem step {e : ProcessEvent} (ending : Ending r h p) (step : process.step p e p') :
    Ending r (h ++ [(p, e)]) p' := by
  cases process_cases step with
  | main polling =>
    rw [ending.polling] at polling
    cases polling
  | signal polling =>
    rw [ending.polling] at polling
    cases polling
  | entered here =>
    have isOver : (if p.running then DbThreadPc.pass else .ended) = .ended := by
      rw [ending.running, if_neg Bool.false_ne_true]
    rw [isOver] at step ⊢
    exact ending.test step (by rw [here]; rfl) (by rw [here]; nofun)
  | looked here =>
    have isOver : (if p.running then DbThreadPc.top else .ended) = .ended := by
      rw [ending.running, if_neg Bool.false_ne_true]
    rw [isOver] at step ⊢
    exact ending.test step (by rw [here]; rfl) (by rw [here]; nofun)
  | pass here taken => exact ending.pass here step (step_iff.mp taken).2

theorem run (start : Ending r [] r) (run : process.Run r h q) : Ending r h q := by
  induction run with
  | nil => exact start
  | snoc _ last ih => exact ih.step last

end Ending

/-- **What follows the signal.** The main loop takes no event any more, the database thread ends
within two steps of its own, with one pass at most, and whatever it does there is no call, no timer
of a contact is armed, no statement is made and no further socket is closed; without that pass every
object stays freed. -/
theorem shutdown {h₁ h₂ : List (Process × ProcessEvent)}
    (run : process.Execution (h₁ ++ (p, .signal) :: h₂) q) :
    (∀ x ∈ h₂, x.2 = .test ∨ x.2.isPass = true) ∧ h₂.length + q.thread.left ≤ 2 ∧
      (h₂.filter fun x => x.2.isPass).length ≤ 1 ∧ (∀ c, ¬ q.sys.Live (.call c)) ∧
      (∀ d dest, q.sys.book.dests.get d = some dest → dest.tmr = false) ∧
      q.sys.db = p.sys.db ∧ (∀ rs, rs ∈ q.closed ↔ p.sys.media.InService rs) ∧
      ((∀ x ∈ h₂, x.2.isPass = false) → ∀ o, ¬ q.sys.Live o) := by
  obtain ⟨r, before, step, after⟩ := run.split
  have good := reachable_good before.reachable
  obtain ⟨polling, run⟩ : p.polling = true ∧ signalHandler p = .ok r := by
    cases process_cases step with
    | signal polling run => exact ⟨polling, run⟩
  obtain ⟨_, run', signalled⟩ := signalHandler_signalled good.inv good.catalogued good.onLists
  obtain rfl := Except.ok.inj (run.symm.trans run')
  have ending : Ending r h₂ q := Ending.run (.start (good.step step) signalled) after
  have noCall : ∀ c, ¬ q.sys.Live (.call c) := by
    intro c live
    obtain ⟨call, live⟩ := Option.isSome_iff_exists.mp live
    obtain ⟨rs, holds, -⟩ := ending.good.inv.sound.session c call live
    exact ending.unserved rs (.inr ⟨c, call, live, holds⟩)
  obtain ⟨l, closed, nodup, mem⟩ := signalled.closed
  rw [(good.going polling).2, List.nil_append] at closed
  refine ⟨ending.only, ?_, ?_, noCall, fun d dest live => ?_, ending.db.trans signalled.db, ?_, ?_⟩
  · rw [ending.left, signalled.thread]
    cases p.thread <;> decide
  · exact Nat.le_trans (Nat.le_add_right _ _) ending.passes
  · cases armed : dest.tmr with
    | false => rfl
    | true =>
      have has := (ending.good.inv.supervised d dest live).armed
      rw [armed] at has
      obtain ⟨c, has⟩ := Option.isSome_iff_exists.mp has
      obtain ⟨call, liveCall, -⟩ := ending.good.inv.sound.owned d c ((owner_of_live live).trans has)
      exact absurd (Option.isSome_iff_exists.mpr ⟨call, liveCall⟩) (noCall c)
  · rw [ending.closed, closed]
    exact mem
  · intro quiet
    rw [ending.alone quiet]
    exact signalled.cleared

/-- The signal comes between the test of `running` and the pass. -/
theorem shutdown_calling : ∃ h₁ p h₂ q, process.Execution (h₁ ++ (p, .signal) :: h₂) q ∧
    q.thread = .ended ∧ (h₂.filter fun x => x.2.isPass).length ≤ 1 ∧
    ∀ c, ¬ q.sys.Live (.call c) := by
  obtain ⟨h, q, run, test⟩ := Lts.replay_exists ProcessInit Process.next
    (s := { sys := Sys.boot 4 "/audio" })
    (calling ++ [.test, .test, .signal, .pass oneCampaign, .test])
    (fun h q => h.any (fun x => x.2.isSignal) && decide (q.thread = .ended))
    ⟨Sys.boot 4 "/audio", ⟨4, "/audio", by decide, rfl⟩, rfl⟩ (by decide)
  rw [Bool.and_eq_true, List.any_eq_true] at test
  obtain ⟨⟨⟨p, e⟩, mem, isSignal⟩, ended⟩ := test
  obtain rfl : e = .signal := by cases e <;> first | rfl | cases isSignal
  obtain ⟨h₁, h₂, _, rfl, -⟩ := run.step_of_mem mem
  obtain ⟨-, -, few, noCall, -⟩ := shutdown run
  exact ⟨h₁, p, h₂, q, run, of_decide_eq_true ended, few, noCall⟩

end Autodialer
