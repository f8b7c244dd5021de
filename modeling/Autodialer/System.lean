import Autodialer.Lib.Trace
import Autodialer.Pull

/-!
# The process as a transition system

One step is one pass of `pull_groups` or one callback of the main loop: a start
message, a timer, a SIP callback, an RTP packet. The audio thread of a call
takes part with the one effect it has on the shared state, the count of plays.
A step exists only where the C code is defined; a step that faults has no
successor.

The order of the list of timers is not modelled: any timer that has a handler
and is not lost may fire. Once a start message has torn the list, what becomes
of its timers depends on that order (`Scheduled.tmrInit_linked`,
`Scheduled.tmrInit_restarted`), so every loss and every bad walk is an event of
its own that may occur from then on.
-/

namespace Autodialer

inductive Event
  /-- A pass of `pull_groups`. -/
  | pull (snap : Snapshot)
  /-- The main loop takes the oldest start message. -/
  | message (now : Time) (env : DestId → DialEnv)
  /-- The timer of a campaign fires. -/
  | campTimer (cp : CampId) (now : Time) (env : DestId → DialEnv)
  /-- The timer of a destination fires. -/
  | destTimer (d : DestId) (now : Time) (env : AllocEnv)
  | progress (c : CallId) (scode : Nat)
  | establish (c : CallId) (env : EstablishEnv)
  | close (c : CallId) (err : Bool) (scode : Nat)
  | rtp (rs : SessionId) (mb : List UInt8)
  /-- The audio thread has played the file to its end. -/
  | played (c : CallId)
  /-- The list of timers is torn, and from now on `tmr_poll` does not reach the timer. -/
  | lose (tmr : TimerId)
  /-- A walk over the torn list of timers, in the handler of `e` or behind it, comes to the zeroed
  element or does not end. -/
  | astray (e : Event)

/-- The event belongs to the main loop or to a call; only a pass does not. -/
def Event.isMain : Event → Bool
  | .pull _ => false
  | _ => true

namespace Sys

/-- The SIP session of the call may still call back. -/
def sipLive (s : Sys) (c : CallId) : Bool :=
  (s.media.calls.get c).any fun call => call.sess = .live

/-- The timer has a handler. -/
def armed (s : Sys) : TimerId → Bool
  | .camp cp => (s.book.camps.get cp).any Campaign.tmr
  | .dest d => (s.book.dests.get d).any Destination.tmr

/-- The timer has a handler that `tmr_poll` will call. -/
def pending (s : Sys) (tmr : TimerId) : Bool := s.armed tmr && !s.lost.contains tmr

/-- `tmr_poll` disarms a timer before it calls the handler; libre replaces the
handlers of a session before it reports its end. -/
def run (s : Sys) : Event → Exec Sys
  | .pull snap => pullGroups s snap
  | .message now env =>
    match s.msgq with
    | [] => pure s
    | (_, cp) :: rest => campaignServiceHandler { s with msgq := rest } cp now env
  | .campTimer cp now env =>
    startFakeCalling (s.setCamp cp fun camp => { camp with tmr := false }) cp now env
  | .destTimer d now env =>
    onCallEnd (s.setDest d fun dest => { dest with tmr := false }) d now env
  | .progress c scode => progressHandler s c scode
  | .establish c env => establishHandler s c env
  | .close c err scode =>
    closeHandler (s.setCall c fun call => { call with sess := .terminated }) c err scode
  | .rtp rs mb => rtpRecvHandler s rs mb
  | .played c => pure (s.setCall c fun call => { call with numPlay := (call.numPlay + 1) % 2 ^ 8 })
  | .lose tmr => pure { s with lost := tmr :: s.lost }
  | .astray _ => .error .torn

/-- Which events may occur. A pass and a packet may come at any time, and when the list of timers is
torn any timer may be lost and any walk over it go astray, as the other timers stand on it. -/
def enabled (s : Sys) : Event → Bool
  | .pull _ => true
  | .message _ _ => !s.msgq.isEmpty
  | .campTimer cp _ _ => s.pending (.camp cp)
  | .destTimer d _ _ => s.pending (.dest d)
  | .progress c _ => s.sipLive c
  | .establish c _ => s.sipLive c
  | .close c _ _ => s.sipLive c
  | .rtp _ _ => true
  | .played c => (s.media.calls.get c).any Call.thrdCreated
  | .lose tmr => s.torn && s.pending tmr
  | .astray e => s.enabled e && (s.run e).toOption.any Sys.torn

def next (s : Sys) (e : Event) : Option Sys :=
  if s.enabled e then (s.run e).toOption else none

/-- The process when the database thread starts: `n` of the 100 RTP sockets could
be bound. -/
def boot (n : Nat) (audioPath : String) : Sys :=
  { media := { rtpSessions := List.range n }, audioPath := audioPath }

end Sys

def SysInit (s : Sys) : Prop := ∃ n audioPath, n ≤ 100 ∧ s = Sys.boot n audioPath

/-- The dialer. -/
def dialer : Lts Sys Event := Lts.ofNext SysInit Sys.next

theorem step_iff {s s' : Sys} {e : Event} :
    dialer.step s e s' ↔ s.enabled e = true ∧ s.run e = .ok s' := by
  show Sys.next s e = some s' ↔ _
  unfold Sys.next
  split
  next on => rw [Fallible.toOption_eq_some, and_iff_right on]
  next off => simp [off]

end Autodialer
