import Autodialer.Keys
import Autodialer.Lib.Channel
import Autodialer.Telev
import Mathlib.Data.List.GetD

/-!
# Telephone events from end to end

A sender that is polled sends each key as a burst of packets. Packets may be lost or repeated; as
long as one packet of the key and one of its end arrive, the receiver reports the key once and its
end once, and with any loss it reports no key that was not sent, and none twice.

* `telev_bursts`: what is sent in any run, in any state of the queue.
* `telev_drains`: keys that have been released are sent by a number of polls that is known.
* `telev_safe`: what is received over any channel.
* `telev_delivers`: what is received where each burst leaves a trace.
-/

namespace Autodialer

open Channel

/-! ## Runs of the sender -/

/-- What the application does with its sender. -/
inductive TelevIn
  | send (event : Nat) (fin : Bool)
  | poll

def televTxStep (tel : TelevTx) : TelevIn → TelevTx × Option (Bool × List (Option UInt8))
  | .send event fin => (televSend tel event fin, none)
  | .poll => televPacket tel

def Keypad.step (step : Nat) (k : Keypad) : TelevIn → Keypad × Option (Bool × List UInt8)
  | .send event fin => (k.send event fin, none)
  | .poll => k.poll step

/-- The bytes that are put into the queue. -/
def queued (inputs : List TelevIn) : List UInt8 :=
  inputs.flatMap fun
    | .send event fin => [if fin then eventEnd else UInt8.ofNat event]
    | .poll => []

/-- The keys of a queue: a key is sent for each byte that does not end the key before it. -/
def keysOf : List UInt8 → List UInt8
  | [] => []
  | [event] => [event]
  | event :: next :: rest => event :: if next = eventEnd then keysOf rest else keysOf (next :: rest)

/-- The packets that are sent for a key: `begins` while it is down, then `ends`. -/
structure Burst where
  event : UInt8
  begins : Nat
  ends : Nat

/-- The duration grows with each packet while the key is down; only the first packet is marked. -/
def Burst.packets (step : Nat) (b : Burst) : List (Bool × List UInt8) :=
  (List.range b.begins).map (fun i =>
      (i == 0, televPayload b.event false (step * (i + 1) % 2 ^ 16))) ++
    List.replicate b.ends (false, televPayload b.event true (step * b.begins % 2 ^ 16))

variable {tel tel' : TelevTx} {k : Keypad} {inputs : List TelevIn} {step n : Nat} {e : UInt8}
  {done : List Burst} {w : List UInt8} {out : List (Bool × List UInt8)}

theorem keysOf_cons_end (e : UInt8) (w : List UInt8) :
    keysOf (e :: eventEnd :: w) = e :: keysOf w := by
  rw [keysOf, if_pos rfl]

theorem keysOf_cons {next : UInt8} (other : next ≠ eventEnd) (e : UInt8) (w : List UInt8) :
    keysOf (e :: next :: w) = e :: keysOf (next :: w) := by
  rw [keysOf, if_neg other]

theorem keysOf_head (e : UInt8) (w : List UInt8) : ∃ rest, keysOf (e :: w) = e :: rest := by
  cases w with
  | nil => exact ⟨[], rfl⟩
  | cons next rest => exact ⟨_, keysOf.eq_3 e next rest⟩

namespace Burst

theorem packets_first (e : UInt8) :
    Burst.packets step ⟨e, 1, 0⟩ = [(true, televPayload e false (step % 2 ^ 16))] := by
  simp [Burst.packets]

theorem packets_hold (down : 1 ≤ n) : Burst.packets step ⟨e, n + 1, 0⟩ =
    Burst.packets step ⟨e, n, 0⟩ ++ [(false, televPayload e false (step * (n + 1) % 2 ^ 16))] := by
  have later : (n == 0) = false := by simpa using Nat.one_le_iff_ne_zero.mp down
  simp [Burst.packets, List.range_succ, later]

theorem packets_end (m : Nat) : Burst.packets step ⟨e, n, m + 1⟩ =
    Burst.packets step ⟨e, n, m⟩ ++ [(false, televPayload e true (step * n % 2 ^ 16))] := by
  simp only [Burst.packets, List.replicate_succ', List.append_assoc]

end Burst

/-- The burst that is not over, with the packets of it that were sent. -/
def Keypad.current (k : Keypad) (n : Nat) : Option Burst :=
  match k.state with
  | .idle => none
  | .sending => some ⟨k.event, n, 0⟩
  | .ending => some ⟨k.event, n, k.txc⟩

/-- The keys of the burst that is not over, and of the bytes that wait, with `w` behind them. -/
def Keypad.ahead (k : Keypad) (w : List UInt8) : List UInt8 :=
  match k.state with
  | .idle => keysOf (k.queue ++ w)
  | .sending => keysOf (k.event :: (k.queue ++ w))
  | .ending => k.event :: keysOf (k.queue ++ w)

/-- A key was down for nine packets at least, and three more said that it was up. -/
def Burst.Whole (b : Burst) : Prop := txcDigitMin ≤ b.begins ∧ b.ends = txcEnd

/-- The bytes `w` were put into the queue and `out` was sent: the bursts in `done`, and a burst that
is not over, of a key that has been down for `n` packets. -/
structure Sends (step : Nat) (w : List UInt8) (out : List (Bool × List UInt8)) (k : Keypad)
    (done : List Burst) (n : Nat) : Prop where
  out : out = (done ++ (k.current n).toList).flatMap (Burst.packets step)
  whole : ∀ b ∈ done, b.Whole
  keys : ∀ more, keysOf (w ++ more) = done.map Burst.event ++ k.ahead more
  down : k.state ≠ .idle → 1 ≤ n ∧ k.dur = step * n % 2 ^ 16
  counts : k.state = .sending → k.txc = n % 2 ^ 32
  ending : k.state = .ending → txcDigitMin ≤ n ∧ k.txc < txcEnd

namespace Sends

theorem start : Sends step [] [] {} [] 0 where
  out := rfl
  whole _ mem := by cases mem
  keys _ := rfl
  down state := absurd rfl state
  counts state := by cases state
  ending state := by cases state

theorem send (sends : Sends step w out k done n) (event : Nat) (fin : Bool) :
    Sends step (w ++ [if fin then eventEnd else UInt8.ofNat event]) out (k.send event fin) done
      n := by
  refine ⟨sends.out, sends.whole, fun more => ?_, sends.down, sends.counts, sends.ending⟩
  rw [List.append_assoc, sends.keys]
  refine congrArg _ ?_
  simp only [Keypad.ahead, Keypad.send, List.append_assoc]

/-- A poll without a key. -/
theorem quiet (state : k.state = .idle) (empty : k.queue = []) :
    k.poll step = (k, none) := by
  simp only [Keypad.poll, state, empty]

theorem press {rest : List UInt8} (sends : Sends step w out k done n) (state : k.state = .idle)
    (queue : k.queue = e :: rest) :
    Sends step w (out ++ [(true, televPayload e false (step % 2 ^ 16))]) (k.press e rest step) done
      1 where
  out := by
    rw [sends.out, Keypad.current, state]
    show _ = (done ++ [(⟨e, 1, 0⟩ : Burst)]).flatMap _
    rw [List.flatMap_append, List.flatMap_append, List.flatMap_singleton, Burst.packets_first]
    simp
  whole := sends.whole
  keys more := by
    rw [sends.keys, Keypad.ahead, state, queue]
    rfl
  down _ := ⟨Nat.le_refl 1, by rw [Nat.mul_one]; rfl⟩
  counts _ := rfl
  ending state := by cases state

/-- The packets of a burst with one more. -/
theorem more (sends : Sends step w out k done n) {b b' : Burst} {sent : Bool × List UInt8}
    (current : k.current n = some b) (packets : b'.packets step = b.packets step ++ [sent]) :
    out ++ [sent] = (done ++ [b']).flatMap (Burst.packets step) := by
  rw [sends.out, current, List.flatMap_append, List.flatMap_append, Option.toList_some,
    List.flatMap_singleton, List.flatMap_singleton, packets, List.append_assoc]

theorem hold (sends : Sends step w out k done n) (state : k.state = .sending) :
    Sends step w (out ++ [(false, televPayload k.event false ((k.hold step).dur))]) (k.hold step)
      done (n + 1) := by
  obtain ⟨long, dur⟩ := sends.down (by rw [state]; nofun)
  have longer : (k.hold step).dur = step * (n + 1) % 2 ^ 16 := by
    show (k.dur + step) % 2 ^ 16 = _
    rw [dur, Nat.mod_add_mod, Nat.mul_succ]
  refine ⟨?_, sends.whole, fun more => ?_, fun _ => ⟨Nat.le_add_left 1 n, longer⟩, fun _ => ?_,
    fun ending => ?_⟩
  · have current : (k.hold step).current (n + 1) = some ⟨k.event, n + 1, 0⟩ := by
      simp only [Keypad.current, Keypad.hold, state]
    rw [longer, current]
    exact sends.more (by simp only [Keypad.current, state]) (Burst.packets_hold long)
  · rw [sends.keys]
    rfl
  · show (k.txc + 1) % 2 ^ 32 = _
    rw [sends.counts state, Nat.mod_add_mod]
  · cases state.symm.trans ending

theorem lift {next : UInt8} {rest : List UInt8} (sends : Sends step w out k done n)
    (state : k.state = .sending) (enough : ¬ k.txc < txcDigitMin) (queue : k.queue = next :: rest) :
    Sends step w out (k.lift next rest) done n := by
  refine ⟨?_, sends.whole, fun more => ?_, fun _ => sends.down (by rw [state]; nofun), nofun,
    fun _ => ⟨?_, Nat.succ_pos 2⟩⟩
  · rw [sends.out, Keypad.current, state]
    rfl
  · rw [sends.keys, Keypad.ahead, state, queue]
    refine congrArg _ ?_
    by_cases up : next = eventEnd
    · subst up
      show keysOf (k.event :: eventEnd :: (rest ++ more)) = _
      rw [keysOf_cons_end]
      rfl
    · show keysOf (k.event :: next :: (rest ++ more)) = _
      rw [keysOf_cons up]
      simp only [Keypad.ahead, Keypad.lift, if_neg up]
      rfl
  · rw [sends.counts state] at enough
    exact Nat.le_trans (Nat.le_of_not_lt enough) (Nat.mod_le _ _)

theorem repeatEnd (sends : Sends step w out k done n) (state : k.state = .ending) :
    Sends step w (out ++ [(false, televPayload k.event true k.dur)])
      (if k.repeatEnd.txc < txcEnd then k.repeatEnd else { k.repeatEnd with state := .idle })
      (if k.repeatEnd.txc < txcEnd then done else done ++ [⟨k.event, n, txcEnd⟩]) n := by
  obtain ⟨long, dur⟩ := sends.down (by rw [state]; nofun)
  obtain ⟨nine, few⟩ := sends.ending state
  have packets := sends.more (b := ⟨k.event, n, k.txc⟩) (by simp only [Keypad.current, state])
    (Burst.packets_end k.txc)
  rw [← dur] at packets
  have count : k.repeatEnd.txc = k.txc + 1 :=
    Nat.mod_eq_of_lt (Nat.lt_trans (Nat.succ_lt_succ few) (by decide))
  split
  next less =>
    refine ⟨?_, sends.whole, fun more => ?_, fun _ => ⟨long, dur⟩, fun sending => ?_,
      fun _ => ⟨nine, less⟩⟩
    · have current : k.repeatEnd.current n = some ⟨k.event, n, k.txc + 1⟩ := by
        rw [← count]
        simp only [Keypad.current, Keypad.repeatEnd, state]
      rw [packets, current]
      rfl
    · rw [sends.keys]
      rfl
    · cases state.symm.trans sending
  next isOver =>
    have last : k.txc + 1 = txcEnd := by
      rw [count] at isOver
      exact Nat.le_antisymm few (Nat.le_of_not_lt isOver)
    refine ⟨?_, ?_, fun more => ?_, fun other => absurd rfl other, fun sending => ?_,
      fun ending => ?_⟩
    · rw [packets, last]
      exact congrArg _ (List.append_nil _).symm
    · intro b mem
      rcases List.mem_append.mp mem with mem | isLast
      · exact sends.whole b mem
      · rw [List.mem_singleton.mp isLast]
        exact ⟨nine, rfl⟩
    · rw [sends.keys, Keypad.ahead, state, List.map_append, List.append_assoc]
      rfl
    · cases sending
    · cases ending

end Sends

theorem Sends.poll (sends : Sends step w out k done n) : ∃ done' n',
    Sends step w (out ++ (k.poll step).2.toList) (k.poll step).1 done' n' := by
  cases state : k.state with
  | idle =>
    cases queue : k.queue with
    | nil =>
      rw [Sends.quiet state queue, Option.toList_none, List.append_nil]
      exact ⟨done, n, sends⟩
    | cons e rest =>
      simp only [Keypad.poll, state, queue]
      exact ⟨done, 1, sends.press state queue⟩
  | sending =>
    have held := sends.hold state
    have state' : (k.hold step).state = .sending := state
    simp only [Keypad.poll, state]
    split
    next => exact ⟨done, n + 1, held⟩
    next enough =>
      split
      next => exact ⟨done, n + 1, held⟩
      next next rest queue => exact ⟨done, n + 1, held.lift state' enough queue⟩
  | ending =>
    have repeated := sends.repeatEnd state
    simp only [Keypad.poll, state]
    split
    next few =>
      rw [if_pos few, if_pos few] at repeated
      exact ⟨done, n, repeated⟩
    next isOver =>
      rw [if_neg isOver, if_neg isOver] at repeated
      exact ⟨_, n, repeated⟩

theorem Sends.run (sends : Sends step w out k done n) (inputs : List TelevIn) : ∃ done' n',
    Sends step (w ++ queued inputs) (out ++ (Mealy.run (Keypad.step step) k inputs).2)
      (Mealy.run (Keypad.step step) k inputs).1 done' n' := by
  induction inputs generalizing w out k done n with
  | nil =>
    refine ⟨done, n, ?_⟩
    rw [show queued [] = [] from rfl, List.append_nil, Mealy.run, List.append_nil]
    exact sends
  | cons x rest ih =>
    rw [Mealy.run_cons, ← List.append_assoc]
    cases x with
    | send event fin =>
      have whole : w ++ queued (.send event fin :: rest) =
          w ++ [if fin then eventEnd else UInt8.ofNat event] ++ queued rest := by
        rw [List.append_assoc]
        rfl
      rw [whole, show (Keypad.step step k (.send event fin)).2.toList = [] from rfl,
        List.append_nil]
      exact ih (sends.send event fin)
    | poll =>
      obtain ⟨done', n', sends⟩ := sends.poll
      exact ih sends

/-- The buffer of the sender is a queue in every run. -/
theorem televTx_run (shows : tel.Shows k) (inputs : List TelevIn) :
    (Mealy.run televTxStep tel inputs).1.Shows
        (Mealy.run (Keypad.step (tel.ptime * 8)) k inputs).1 ∧
      (Mealy.run televTxStep tel inputs).2 =
        (Mealy.run (Keypad.step (tel.ptime * 8)) k inputs).2.map
          fun sent => (sent.1, sent.2.map some) := by
  induction inputs generalizing tel k with
  | nil => exact ⟨shows, rfl⟩
  | cons x rest ih =>
    cases x with
    | send event fin =>
      have ran := ih (televSend_shows shows event fin)
      exact ran
    | poll =>
      obtain ⟨shows', ptime, output⟩ := televPacket_shows shows
      have ran := ih shows'
      rw [ptime] at ran
      refine ⟨ran.1, ?_⟩
      rw [Mealy.run_cons, Mealy.run_cons, List.map_append]
      refine congrArg₂ (· ++ ·) ?_ ran.2
      show (televPacket tel).2.toList = (k.poll (tel.ptime * 8)).2.toList.map _
      rw [output]
      cases (k.poll (tel.ptime * 8)).2 <;> rfl

/-- **What a sender sends.** However keys and polls follow one another, every packet is one of a
burst; the bursts are those of the keys in the order in which they were put into the queue, each but
the last with nine packets at least and three at the end. No byte of fresh memory is sent. -/
theorem telev_bursts {ptime : Nat} (made : televAlloc ptime = some tel) (inputs : List TelevIn) :
    ∃ (done : List Burst) (last : Option Burst),
      (Mealy.run televTxStep tel inputs).2 =
        ((done ++ last.toList).flatMap (Burst.packets (ptime * 8))).map
          (fun sent => (sent.1, sent.2.map some)) ∧
      (∀ b ∈ done, b.Whole) ∧
      (∀ b ∈ last, 1 ≤ b.begins ∧ b.ends < txcEnd ∧ (0 < b.ends → txcDigitMin ≤ b.begins)) ∧
      (done ++ last.toList).map Burst.event <+: keysOf (queued inputs) := by
  obtain ⟨-, isPtime, shows⟩ := televAlloc_shows made
  obtain ⟨-, ran⟩ := televTx_run shows inputs
  rw [isPtime] at ran
  have start : Sends (ptime * 8) [] [] {} [] 0 := .start
  obtain ⟨done, n, sends⟩ := start.run inputs
  rw [List.nil_append, List.nil_append] at sends
  generalize (Mealy.run (Keypad.step (ptime * 8)) {} inputs).1 = k at sends
  refine ⟨done, k.current n, ?_, sends.whole, ?_, ?_⟩
  · rw [ran, sends.out]
  · intro b isLast
    cases state : k.state with
    | idle => simp [Keypad.current, state] at isLast
    | sending =>
      simp only [Keypad.current, state, Option.mem_some_iff] at isLast
      subst isLast
      exact ⟨(sends.down (by rw [state]; nofun)).1, Nat.succ_pos 2, nofun⟩
    | ending =>
      simp only [Keypad.current, state, Option.mem_some_iff] at isLast
      subst isLast
      obtain ⟨nine, few⟩ := sends.ending state
      exact ⟨(sends.down (by rw [state]; nofun)).1, few, fun _ => nine⟩
  · have keys := sends.keys []
    rw [List.append_nil] at keys
    rw [keys, List.map_append, List.prefix_append_right_inj]
    cases state : k.state with
    | idle => simp [Keypad.current, state]
    | sending =>
      obtain ⟨rest, eq⟩ := keysOf_head k.event (k.queue ++ [])
      simp only [Keypad.current, Keypad.ahead, state, eq]
      exact ⟨rest, rfl⟩
    | ending =>
      simp only [Keypad.current, Keypad.ahead, state]
      exact ⟨_, rfl⟩

/-- A key of which two packets have been sent, with the next one behind it. -/
theorem telev_bursts_pressed :
    let inputs : List TelevIn := [.send 5 false, .poll, .send 0 true, .poll, .send 7 false]
    ∃ (done : List Burst) (last : Option Burst),
      (Mealy.run televTxStep { mb := Mbuf.alloc 16, ptime := 50 } inputs).2 =
        ((done ++ last.toList).flatMap (Burst.packets 400)).map
          (fun sent => (sent.1, sent.2.map some)) ∧
      (∀ b ∈ done, b.Whole) ∧
      (∀ b ∈ last, 1 ≤ b.begins ∧ b.ends < txcEnd ∧ (0 < b.ends → txcDigitMin ≤ b.begins)) ∧
      (done ++ last.toList).map Burst.event <+: [5, 7] := by
  have made : televAlloc 50 = some { mb := Mbuf.alloc 16, ptime := 50 } := rfl
  exact telev_bursts made [.send 5 false, .poll, .send 0 true, .poll, .send 7 false]

/-! ## Released keys are sent -/

/-- Each key goes down and up again. -/
def typed (keys : List UInt8) : List UInt8 := keys.flatMap fun e => [e, eventEnd]

theorem keysOf_typed (keys : List UInt8) : keysOf (typed keys) = keys := by
  induction keys with
  | nil => rfl
  | cons e keys ih =>
    show keysOf (e :: eventEnd :: typed keys) = _
    rw [keysOf_cons_end, ih]

theorem typed_eq_cons {todo : List UInt8} (eq : e :: w = typed todo) :
    ∃ todo', todo = e :: todo' ∧ w = eventEnd :: typed todo' := by
  cases todo with
  | nil => cases eq
  | cons e' todo' =>
    obtain ⟨rfl, rest⟩ := List.cons.inj eq
    exact ⟨todo', rfl, rest⟩

/-- With `rest` behind them the bytes of the queue are the keys `todo`, each released; if a key is
down its release comes first. -/
def Keypad.Released (k : Keypad) (rest todo : List UInt8) : Prop :=
  match k.state with
  | .idle | .ending => k.queue ++ rest = typed todo
  | .sending => k.queue ++ rest = eventEnd :: typed todo

/-- The polls until the next byte of the queue is looked at. -/
def holdsLeft (txc : Nat) : Nat :=
  if txc < txcDigitMin then txcDigitMin - txc
  else if (txc + 1) % 2 ^ 32 < txcDigitMin then txcDigitMin + 1 else 1

theorem holdsLeft_pos (txc : Nat) : 1 ≤ holdsLeft txc := by
  unfold holdsLeft
  split
  next less => exact Nat.sub_pos_of_lt less
  next =>
    split
    · exact Nat.le_add_left 1 _
    · exact Nat.le_refl 1

/-- The counter may wrap around. -/
theorem holdsLeft_hold {txc : Nat} (few : (txc + 1) % 2 ^ 32 < txcDigitMin) :
    holdsLeft ((txc + 1) % 2 ^ 32) ≤ holdsLeft txc - 1 := by
  unfold holdsLeft
  rw [if_pos few]
  split
  next less =>
    have small : txc + 1 < 2 ^ 32 := Nat.lt_of_le_of_lt less (by decide)
    rw [Nat.mod_eq_of_lt small, Nat.sub_sub]
  next => exact Nat.sub_le _ _

/-- The polls until the bytes in the queue have been sent, with `todo` keys in it. -/
def Keypad.pollsLeft (k : Keypad) (todo : Nat) : Nat :=
  match k.state with
  | .idle => 12 * todo
  | .sending => 12 * todo + 3 + holdsLeft k.txc
  | .ending => 12 * todo + (3 - k.txc)

namespace Keypad.Released

variable {rest todo : List UInt8}

theorem send {v : UInt8} (released : k.Released (v :: rest) todo) :
    Keypad.Released { k with queue := k.queue ++ [v] } rest todo := by
  unfold Keypad.Released at released ⊢
  simp only [List.append_assoc, List.singleton_append]
  exact released

theorem poll (released : k.Released rest todo) (few : k.state = .ending → k.txc < txcEnd) :
    ∃ todo', (k.poll step).1.Released rest todo' ∧ (rest = [] →
      (k.poll step).1.pollsLeft todo'.length ≤ k.pollsLeft todo.length - 1) := by
  cases state : k.state with
  | idle =>
    have queue : k.queue ++ rest = typed todo := by
      simpa only [Keypad.Released, state] using released
    cases isQueue : k.queue with
    | nil =>
      rw [Sends.quiet state isQueue]
      refine ⟨todo, released, fun last => ?_⟩
      rw [isQueue, last] at queue
      cases todo with
      | nil => simp [Keypad.pollsLeft, state]
      | cons => cases queue
    | cons e q =>
      rw [isQueue] at queue
      obtain ⟨todo', rfl, left⟩ := typed_eq_cons queue
      simp only [Keypad.poll, state, isQueue]
      refine ⟨todo', left, fun _ => ?_⟩
      show 12 * todo'.length + 3 + 8 ≤ _
      simp only [Keypad.pollsLeft, state, List.length_cons]
      omega
  | sending =>
    have queue : k.queue ++ rest = eventEnd :: typed todo := by
      simpa only [Keypad.Released, state] using released
    have held : (k.hold step).Released rest todo := by
      simpa only [Keypad.Released, Keypad.hold, state] using queue
    have pos := holdsLeft_pos k.txc
    simp only [Keypad.poll, state]
    split
    next more =>
      refine ⟨todo, held, fun _ => ?_⟩
      have less := holdsLeft_hold more
      simp only [Keypad.pollsLeft, Keypad.hold, state]
      omega
    next =>
      split
      next isQueue =>
        refine ⟨todo, held, fun last => ?_⟩
        rw [isQueue, last] at queue
        cases queue
      next next q isQueue =>
        rw [isQueue] at queue
        obtain ⟨rfl, left⟩ := List.cons.inj queue
        refine ⟨todo, left, fun _ => ?_⟩
        show 12 * todo.length + 3 ≤ _
        simp only [Keypad.pollsLeft, state]
        omega
  | ending =>
    have queue : k.queue ++ rest = typed todo := by
      simpa only [Keypad.Released, state] using released
    have few : k.txc < 3 := few state
    have count : k.repeatEnd.txc = k.txc + 1 :=
      Nat.mod_eq_of_lt (Nat.lt_trans (Nat.succ_lt_succ few) (by decide))
    simp only [Keypad.poll, state]
    split
    next more =>
      refine ⟨todo, ?_, fun _ => ?_⟩
      · simpa only [Keypad.Released, Keypad.repeatEnd, state] using queue
      · have same : k.repeatEnd.pollsLeft todo.length =
            12 * todo.length + (3 - k.repeatEnd.txc) := by
          simp only [Keypad.pollsLeft, Keypad.repeatEnd, state]
        rw [same, count]
        simp only [Keypad.pollsLeft, state]
        omega
    next =>
      refine ⟨todo, queue, fun _ => ?_⟩
      show 12 * todo.length ≤ _
      simp only [Keypad.pollsLeft, state]
      omega

end Keypad.Released

/-- The polls that are left: a bound for every state. -/
theorem Keypad.pollsLeft_le (k : Keypad) (todo : Nat) : k.pollsLeft todo ≤ 12 * todo + 13 := by
  have holds : holdsLeft k.txc ≤ 10 := by
    unfold holdsLeft
    split
    · exact Nat.le_trans (Nat.sub_le _ _) (by decide)
    · split <;> decide
  cases state : k.state with
  | idle =>
    simp only [Keypad.pollsLeft, state]
    omega
  | sending =>
    simp only [Keypad.pollsLeft, state]
    omega
  | ending =>
    simp only [Keypad.pollsLeft, state]
    omega

/-- In a run on the bytes of released keys the queue is theirs, in part. -/
theorem Sends.released {rest todo : List UInt8} (sends : Sends step w out k done n)
    (released : k.Released (queued inputs ++ rest) todo) :
    ∃ todo', (Mealy.run (Keypad.step step) k inputs).1.Released rest todo' := by
  induction inputs generalizing w out k done n todo with
  | nil => exact ⟨todo, released⟩
  | cons x inputs ih =>
    rw [Mealy.run_cons]
    cases x with
    | send event fin => exact ih (sends.send event fin) released.send
    | poll =>
      obtain ⟨_, _, sends'⟩ := sends.poll
      obtain ⟨todo', released', -⟩ := released.poll fun state => (sends.ending state).2
      exact ih sends' released'

/-- Polls alone send what waits. -/
theorem Sends.drain {todo : List UInt8} {polls : Nat} (sends : Sends step w out k done n)
    (released : k.Released [] todo) (enough : k.pollsLeft todo.length ≤ polls) :
    ∃ todo', (Mealy.run (Keypad.step step) k (List.replicate polls .poll)).1.Released [] todo' ∧
      (Mealy.run (Keypad.step step) k (List.replicate polls .poll)).1.pollsLeft todo'.length =
        0 := by
  induction polls generalizing w out k done n todo with
  | zero => exact ⟨todo, released, Nat.le_zero.mp enough⟩
  | succ polls ih =>
    obtain ⟨_, _, sends'⟩ := sends.poll
    obtain ⟨todo', released', less⟩ := released.poll fun state => (sends.ending state).2
    exact ih sends' released' (Nat.le_trans (less rfl) (Nat.sub_le_of_le_add enough))

/-- The keys that wait are among those that are sent yet. -/
theorem Keypad.Released.ahead {todo : List UInt8} (released : k.Released [] todo) :
    todo.length ≤ (k.ahead []).length := by
  cases state : k.state with
  | idle =>
    have queue : k.queue ++ [] = typed todo := by
      simpa only [Keypad.Released, state] using released
    simp only [Keypad.ahead, state, queue, keysOf_typed, Nat.le_refl]
  | sending =>
    have queue : k.queue ++ [] = eventEnd :: typed todo := by
      simpa only [Keypad.Released, state] using released
    simp only [Keypad.ahead, state, queue, keysOf_cons_end, keysOf_typed]
    exact Nat.le_succ _
  | ending =>
    have queue : k.queue ++ [] = typed todo := by
      simpa only [Keypad.Released, state] using released
    simp only [Keypad.ahead, state, queue, keysOf_typed]
    exact Nat.le_succ _

/-- A sender that has nothing left is idle. -/
theorem Sends.finished {todo : List UInt8} (sends : Sends step w out k done n)
    (released : k.Released [] todo) (isOver : k.pollsLeft todo.length = 0) :
    out = done.flatMap (Burst.packets step) ∧ keysOf w = done.map Burst.event := by
  cases state : k.state with
  | idle =>
    simp only [Keypad.pollsLeft, state] at isOver
    obtain rfl : todo = [] := List.eq_nil_of_length_eq_zero (by omega)
    have queue : k.queue ++ [] = typed [] := by
      simpa only [Keypad.Released, state] using released
    refine ⟨?_, ?_⟩
    · rw [sends.out, Keypad.current, state]
      simp
    · have keys := sends.keys []
      rw [List.append_nil] at keys
      rw [keys]
      simp only [Keypad.ahead, state, queue, keysOf_typed, List.append_nil]
  | sending =>
    simp only [Keypad.pollsLeft, state] at isOver
    omega
  | ending =>
    have few : k.txc < 3 := (sends.ending state).2
    simp only [Keypad.pollsLeft, state] at isOver
    omega

/-- **Released keys are sent.** When the keys have been released, twelve polls for each key, and
thirteen more, send all that is left of them, however the polls before were placed. -/
theorem telev_drains {ptime polls : Nat} {keys : List UInt8} (made : televAlloc ptime = some tel)
    (word : queued inputs = typed keys) (enough : 12 * keys.length + 13 ≤ polls) :
    ∃ done : List Burst,
      (Mealy.run televTxStep tel (inputs ++ List.replicate polls .poll)).2 =
        (done.flatMap (Burst.packets (ptime * 8))).map (fun sent => (sent.1, sent.2.map some)) ∧
      (∀ b ∈ done, b.Whole) ∧ done.map Burst.event = keys := by
  obtain ⟨-, isPtime, shows⟩ := televAlloc_shows made
  obtain ⟨-, ran⟩ := televTx_run shows (inputs ++ List.replicate polls .poll)
  have parts : (Mealy.run (Keypad.step (ptime * 8)) {} (inputs ++ List.replicate polls .poll)).2 =
      (Mealy.run (Keypad.step (ptime * 8)) {} inputs).2 ++ (Mealy.run (Keypad.step (ptime * 8))
        (Mealy.run (Keypad.step (ptime * 8)) {} inputs).1 (List.replicate polls .poll)).2 := by
    rw [Mealy.run_append]
  rw [isPtime, parts] at ran
  have start : Sends (ptime * 8) [] [] {} [] 0 := .start
  have waiting : ({} : Keypad).Released (queued inputs ++ []) keys := by
    rw [word, List.append_nil]
    rfl
  obtain ⟨todo, released⟩ := start.released waiting
  obtain ⟨_, _, sends⟩ := start.run inputs
  rw [List.nil_append, List.nil_append, word] at sends
  generalize Mealy.run (Keypad.step (ptime * 8)) {} inputs = mid at ran released sends
  have few : todo.length ≤ keys.length := by
    have all := congrArg List.length (sends.keys [])
    rw [List.append_nil, keysOf_typed, List.length_append] at all
    exact Nat.le_trans released.ahead (by omega)
  have bound := mid.1.pollsLeft_le todo.length
  have inTime : mid.1.pollsLeft todo.length ≤ polls := by omega
  obtain ⟨_, released', isOver⟩ := sends.drain released inTime
  obtain ⟨done, _, sends'⟩ := sends.run (List.replicate polls .poll)
  obtain ⟨isOut, isDone⟩ := sends'.finished released' isOver
  refine ⟨done, ?_, sends'.whole, ?_⟩
  · rw [ran, ← isOut]
  · rw [← isDone, show queued (List.replicate polls .poll) = [] from ?_, List.append_nil,
      keysOf_typed]
    simp [queued]

/-! ## The receiver -/

/-- `telev_recv`: an error leaves the state. -/
def televRecvStep (telev : Telev) (payload : List UInt8) : Telev × Option (Nat × Bool) :=
  match televRecv (some telev) payload with
  | none => (telev, none)
  | some (telev, event, fin) => (telev, some (event, fin))

variable {telev : Telev} {got begins ends : List (List UInt8)} {dur : Nat}

theorem televRecv_payload (flags : UInt8) (rest : List UInt8) (long : 2 ≤ rest.length) :
    televRecv (some telev) (e :: flags :: rest) =
      if flags &&& 0x80 = 0x80 then
        if telev.rxEnd then none else some (⟨-1, true⟩, e.toNat, true)
      else if (e.toNat : Int) = telev.rxEvent then none
      else some (⟨e.toNat, false⟩, e.toNat, false) := by
  match rest, long with
  | _ :: _ :: _, _ => rfl

theorem televRecvStep_begin : televRecvStep telev (televPayload e false dur) =
    if (e.toNat : Int) = telev.rxEvent then (telev, none)
    else (⟨e.toNat, false⟩, some (e.toNat, false)) := by
  have recv : televRecv (some telev) (televPayload e false dur) =
      if (e.toNat : Int) = telev.rxEvent then none
      else some (⟨e.toNat, false⟩, e.toNat, false) :=
    televRecv_payload 0x0a (be16 dur) (Nat.le_refl 2)
  rw [televRecvStep, recv]
  by_cases known : (e.toNat : Int) = telev.rxEvent
  · rw [if_pos known, if_pos known]
  · rw [if_neg known, if_neg known]

theorem televRecvStep_end : televRecvStep telev (televPayload e true dur) =
    if telev.rxEnd then (telev, none) else (⟨-1, true⟩, some (e.toNat, true)) := by
  have recv : televRecv (some telev) (televPayload e true dur) =
      if telev.rxEnd then none else some (⟨-1, true⟩, e.toNat, true) :=
    televRecv_payload 0x8a (be16 dur) (Nat.le_refl 2)
  rw [televRecvStep, recv]
  cases telev.rxEnd <;> rfl

/-- The packets of a key that is down: the first one may be reported. -/
theorem televRecv_begins (isBegin : ∀ p ∈ begins, ∃ dur, p = televPayload e false dur) :
    Mealy.run televRecvStep telev begins =
      if begins = [] ∨ (e.toNat : Int) = telev.rxEvent then (telev, [])
      else (⟨e.toNat, false⟩, [(e.toNat, false)]) := by
  induction begins generalizing telev with
  | nil => rw [if_pos (.inl rfl)]; rfl
  | cons p rest ih =>
    obtain ⟨dur, rfl⟩ := isBegin p List.mem_cons_self
    rw [Mealy.run_cons, televRecvStep_begin]
    have later : ∀ p ∈ rest, ∃ dur, p = televPayload e false dur := fun p mem =>
      isBegin p (List.mem_cons_of_mem _ mem)
    by_cases known : (e.toNat : Int) = telev.rxEvent
    · rw [if_pos known, if_pos (.inr known)]
      dsimp only
      rw [ih later, if_pos (.inr known)]
      rfl
    · rw [if_neg known, if_neg (by simp [known])]
      dsimp only
      rw [ih later, if_pos (.inr rfl)]
      rfl

/-- The packets of its end: the first one may be reported. -/
theorem televRecv_ends (isEnd : ∀ p ∈ ends, ∃ dur, p = televPayload e true dur) :
    Mealy.run televRecvStep telev ends =
      if ends = [] ∨ telev.rxEnd = true then (telev, [])
      else (⟨-1, true⟩, [(e.toNat, true)]) := by
  induction ends generalizing telev with
  | nil => rw [if_pos (.inl rfl)]; rfl
  | cons p rest ih =>
    obtain ⟨dur, rfl⟩ := isEnd p List.mem_cons_self
    rw [Mealy.run_cons, televRecvStep_end]
    have later : ∀ p ∈ rest, ∃ dur, p = televPayload e true dur := fun p mem =>
      isEnd p (List.mem_cons_of_mem _ mem)
    by_cases known : telev.rxEnd = true
    · rw [if_pos known, if_pos (.inr known)]
      dsimp only
      rw [ih later, if_pos (.inr known)]
      rfl
    · rw [if_neg known, if_neg (by simp [known])]
      dsimp only
      rw [ih later, if_pos (.inr rfl)]
      rfl

/-! ## Over a channel -/

/-- The bytes of the packets of a burst. -/
def Burst.payloads (step : Nat) (b : Burst) : List (List UInt8) := (b.packets step).map Prod.snd

/-- What arrives of a burst is packets of the key, then packets of its end. -/
theorem Burst.delivered {b : Burst} (delivered : Delivered (b.payloads step) got) :
    ∃ begins ends, got = begins ++ ends ∧
      (∀ p ∈ begins, ∃ dur, p = televPayload b.event false dur) ∧
      ∀ p ∈ ends, ∃ dur, p = televPayload b.event true dur := by
  rw [Burst.payloads, Burst.packets, List.map_append] at delivered
  obtain ⟨begins, ends, rfl, first, second⟩ := delivered.append_inv
  refine ⟨begins, ends, rfl, fun p mem => ?_, fun p mem => ?_⟩
  · obtain ⟨_, sent, rfl⟩ := List.mem_map.mp (first.subset mem)
    obtain ⟨i, -, rfl⟩ := List.mem_map.mp sent
    exact ⟨_, rfl⟩
  · obtain ⟨_, sent, rfl⟩ := List.mem_map.mp (second.subset mem)
    rw [List.eq_of_mem_replicate sent]
    exact ⟨_, rfl⟩

/-- What is reported of a burst: its key at most once, and its end at most once. -/
theorem Burst.reports {b : Burst} (delivered : Delivered (b.payloads step) got) (telev : Telev) :
    (Mealy.run televRecvStep telev got).2.Sublist
      [(b.event.toNat, false), (b.event.toNat, true)] := by
  obtain ⟨begins, ends, rfl, isBegin, isEnd⟩ := Burst.delivered delivered
  have first : (Mealy.run televRecvStep telev begins).2.Sublist [(b.event.toNat, false)] := by
    rw [televRecv_begins isBegin]
    split
    · exact List.nil_sublist _
    · exact List.Sublist.refl _
  have second : ∀ telev, (Mealy.run televRecvStep telev ends).2.Sublist
      [(b.event.toNat, true)] := by
    intro telev
    rw [televRecv_ends isEnd]
    split
    · exact List.nil_sublist _
    · exact List.Sublist.refl _
  rw [Mealy.run_append]
  exact first.append (second _)

/-- A packet of the key arrives, and a packet of its end. -/
def Heard (got : List (List UInt8)) : Prop :=
  (∃ p ∈ got, p.getD 1 0 &&& 0x80 = 0) ∧ ∃ p ∈ got, p.getD 1 0 &&& 0x80 = 0x80

theorem Burst.heard {b : Burst} (delivered : Delivered (b.payloads step) got) (heard : Heard got)
    (ready : telev.rxEvent = -1) :
    Mealy.run televRecvStep telev got =
      (⟨-1, true⟩, [(b.event.toNat, false), (b.event.toNat, true)]) := by
  obtain ⟨begins, ends, rfl, isBegin, isEnd⟩ := Burst.delivered delivered
  have down : begins ≠ [] := by
    rintro rfl
    obtain ⟨p, mem, flag⟩ := heard.1
    obtain ⟨dur, rfl⟩ := isEnd p mem
    have flag : (0x8a : UInt8) &&& 0x80 = 0 := flag
    exact absurd flag (by decide)
  have up : ends ≠ [] := by
    rintro rfl
    obtain ⟨p, mem, flag⟩ := heard.2
    obtain ⟨dur, rfl⟩ := isBegin p (by simpa using mem)
    have flag : (0x0a : UInt8) &&& 0x80 = 0x80 := flag
    exact absurd flag (by decide)
  have new : (b.event.toNat : Int) ≠ telev.rxEvent := by
    rw [ready]
    omega
  rw [Mealy.run_append, televRecv_begins isBegin, if_neg (by simp [down, new]), televRecv_ends isEnd,
    if_neg (by simp [up])]
  rfl

/-- The bytes of the packets that are sent. -/
def payloads (sent : List (Bool × List (Option UInt8))) : List (List UInt8) :=
  sent.map fun packet => packet.2.reduceOption

theorem payloads_bursts (bursts : List Burst) :
    payloads ((bursts.flatMap (Burst.packets step)).map fun sent => (sent.1, sent.2.map some)) =
      (bursts.map (Burst.payloads step)).flatten := by
  have bytes : ∀ l : List UInt8, (l.map some).reduceOption = l := by
    intro l
    induction l with
    | nil => rfl
    | cons v rest ih => exact congrArg (v :: ·) ih
  rw [payloads, List.map_map, ← List.flatMap_def, List.map_flatMap]
  refine congrArg (List.flatMap · bursts) (funext fun b => ?_)
  exact List.map_congr_left fun packet _ => bytes packet.2

/-- Each key is reported, and its end. -/
def reported (keys : List UInt8) : List (Nat × Bool) :=
  keys.flatMap fun e => [(e.toNat, false), (e.toNat, true)]

theorem reports_sublist {bursts : List Burst} {gots : List (List (List UInt8))}
    (arrive : List.Forall₂ (fun b got => Delivered (Burst.payloads step b) got) bursts gots)
    (telev : Telev) :
    (Mealy.run televRecvStep telev gots.flatten).2.Sublist (reported (bursts.map Burst.event)) := by
  induction arrive generalizing telev with
  | nil => exact List.Sublist.refl _
  | @cons b got bursts gots first _ ih =>
    rw [List.flatten_cons, Mealy.run_append]
    exact (b.reports first telev).append (ih _)

theorem reports_heard {bursts : List Burst} {gots : List (List (List UInt8))}
    (arrive : List.Forall₂ (fun b got => Delivered (Burst.payloads step b) got ∧ Heard got) bursts
      gots) (ready : telev.rxEvent = -1) :
    (Mealy.run televRecvStep telev gots.flatten).2 = reported (bursts.map Burst.event) := by
  induction arrive generalizing telev with
  | nil => rfl
  | @cons b got bursts gots first _ ih =>
    rw [List.flatten_cons, Mealy.run_append, b.heard first.1 first.2 ready]
    exact congrArg (_ ++ ·) (ih rfl)

/-- The RTP packet carries the payload, as a telephone event. -/
def Carrying (mb payload : List UInt8) : Prop :=
  ∃ hdr : List UInt8, hdr.length = rtpHeaderSize ∧ hdr.getD 1 0 &&& 0x7f = 101 ∧ mb = hdr ++ payload

/-- What `rtp_recv_handler` takes for a completed event is what is reported with the end flag. -/
theorem completedEvents_reports {mbs : List (List UInt8)}
    (carrying : List.Forall₂ Carrying mbs got) : completedEvents (some telev) mbs =
      ((Mealy.run televRecvStep telev got).2.filter fun report => report.2).map Prod.fst := by
  induction carrying generalizing telev with
  | nil => rfl
  | @cons mb payload mbs got first _ ih =>
    obtain ⟨hdr, length, isEvent, rfl⟩ := first
    have long : ¬ (hdr ++ payload).length < rtpHeaderSize := by
      rw [List.length_append, length]
      exact Nat.not_lt.mpr (Nat.le_add_right _ _)
    have second : (hdr ++ payload).getD 1 0 = hdr.getD 1 0 :=
      List.getD_append hdr payload 0 1 (by rw [length]; decide)
    have taken : televStep (some telev) (hdr ++ payload) =
        (some (televRecvStep telev payload).1,
          (televRecvStep telev payload).2.bind fun (event, fin) =>
            if fin then some event else none) := by
      rw [televStep, if_neg long, second, if_pos isEvent, ← length, List.drop_left, televRecvStep]
      cases televRecv (some telev) payload <;> rfl
    rw [completedEvents, taken, Mealy.run_cons, List.filter_append, List.map_append]
    refine congrArg₂ (· ++ ·) ?_ ih
    cases (televRecvStep telev payload).2 with
    | none => rfl
    | some report =>
      obtain ⟨event, fin⟩ := report
      cases fin <;> rfl

/-- Every key is reported, and once as completed. -/
theorem reported_completed (keys : List UInt8) :
    ((reported keys).filter fun report => report.2).map Prod.fst = keys.map UInt8.toNat := by
  induction keys with
  | nil => rfl
  | cons key keys ih => exact congrArg (key.toNat :: ·) ih

/-- **No key is invented.** Whatever is lost or repeated on the way, what the receiver reports is in
order part of what it would report if nothing were lost: no key that was not sent, no key and no end
of a key twice. -/
theorem telev_safe {ptime : Nat} (made : televAlloc ptime = some tel) (inputs : List TelevIn)
    (delivered : Delivered (payloads (Mealy.run televTxStep tel inputs).2) got) :
    (Mealy.run televRecvStep {} got).2.Sublist (reported (keysOf (queued inputs))) := by
  obtain ⟨done, last, sent, -, -, keys⟩ := telev_bursts made inputs
  rw [sent, payloads_bursts] at delivered
  obtain ⟨gots, arrive, rfl⟩ := delivered.flatten_inv
  rw [List.forall₂_map_left_iff] at arrive
  refine (reports_sublist arrive {}).trans ?_
  obtain ⟨rest, eq⟩ := keys
  rw [← eq, reported, reported, List.flatMap_append]
  exact List.sublist_append_left _ _

/-- The first packet is repeated, and the others are lost. -/
theorem telev_safe_repeated :
    (Mealy.run televRecvStep {} [televPayload 5 false 400, televPayload 5 false 400]).2.Sublist
      [(5, false), (5, true)] := by
  have made : televAlloc 50 = some { mb := Mbuf.alloc 16, ptime := 50 } := rfl
  have delivered : Delivered [televPayload 5 false 400]
      [televPayload 5 false 400, televPayload 5 false 400] := .out (.refl _)
  exact telev_safe made [.send 5 false, .poll] delivered

/-- **Every key arrives.** Keys that have been released are sent by enough polls; if of each burst a
packet of the key arrives and one of its end, the receiver reports every key and its end, once and
in order, and `rtp_recv_handler` takes them for the completed events. -/
theorem telev_delivers {ptime polls : Nat} {keys : List UInt8} (made : televAlloc ptime = some tel)
    (word : queued inputs = typed keys) (enough : 12 * keys.length + 13 ≤ polls) :
    ∃ done : List Burst, payloads (Mealy.run televTxStep tel
        (inputs ++ List.replicate polls .poll)).2 = (done.map (Burst.payloads (ptime * 8))).flatten ∧
      (∀ b ∈ done, b.Whole) ∧ done.map Burst.event = keys ∧ ∀ gots, List.Forall₂ (fun b got =>
        Delivered (Burst.payloads (ptime * 8) b) got ∧ Heard got) done gots →
        (Mealy.run televRecvStep {} gots.flatten).2 = reported keys ∧
          ∀ mbs, List.Forall₂ Carrying mbs gots.flatten →
            completedEvents (some {}) mbs = keys.map UInt8.toNat := by
  obtain ⟨done, sent, whole, isKeys⟩ := telev_drains made word enough
  refine ⟨done, by rw [sent, payloads_bursts], whole, isKeys, fun gots arrive => ?_⟩
  have reports : (Mealy.run televRecvStep {} gots.flatten).2 = reported (done.map Burst.event) :=
    reports_heard arrive rfl
  rw [isKeys] at reports
  refine ⟨reports, fun mbs carrying => ?_⟩
  rw [completedEvents_reports carrying, reports, reported_completed]

/-- What a bad line leaves of a burst: the first packet, twice, and one packet of the end. -/
def Burst.faint (step : Nat) (b : Burst) : List (List UInt8) :=
  [televPayload b.event false (step * 1 % 2 ^ 16), televPayload b.event false (step * 1 % 2 ^ 16),
    televPayload b.event true (step * b.begins % 2 ^ 16)]

theorem Burst.Whole.faint {b : Burst} (whole : b.Whole) :
    Delivered (b.payloads step) (b.faint step) ∧ Heard (b.faint step) := by
  obtain ⟨enough, ends⟩ := whole
  constructor
  · obtain ⟨n, isN⟩ : ∃ n, b.begins = n + 1 := Nat.exists_eq_succ_of_ne_zero
      (Nat.ne_of_gt (Nat.lt_of_lt_of_le (by decide) enough))
    rw [Burst.payloads, Burst.packets, ends, isN, List.range_succ_eq_map, List.map_cons,
      List.map_append, List.map_cons, Burst.faint, isN]
    exact .out (.out (.next (.skip _ (.out (.next (.next (.next .nil)))))))
  · exact ⟨⟨_, List.mem_cons_self, show (0x0a : UInt8) &&& 0x80 = 0 by decide⟩,
      _, List.mem_cons_of_mem _ (List.mem_cons_of_mem _ List.mem_cons_self),
      show (0x8a : UInt8) &&& 0x80 = 0x80 by decide⟩

/-- Two keys, each released at once, over a line that loses most packets and repeats others. -/
theorem telev_delivers_pressed : ∃ done : List Burst,
    payloads (Mealy.run televTxStep { mb := Mbuf.alloc 16, ptime := 50 }
      ([.send 5 false, .send 0 true, .send 7 false, .send 0 true] ++
        List.replicate 37 .poll)).2 = (done.map (Burst.payloads 400)).flatten ∧
    Delivered (done.map (Burst.payloads 400)).flatten (done.map (Burst.faint 400)).flatten ∧
    (Mealy.run televRecvStep {} (done.map (Burst.faint 400)).flatten).2 =
      [(5, false), (5, true), (7, false), (7, true)] ∧
    ∀ mbs, List.Forall₂ Carrying mbs (done.map (Burst.faint 400)).flatten →
      completedEvents (some {}) mbs = [5, 7] := by
  have made : televAlloc 50 = some { mb := Mbuf.alloc 16, ptime := 50 } := rfl
  have word : queued [.send 5 false, .send 0 true, .send 7 false, .send 0 true] = typed [5, 7] := rfl
  obtain ⟨done, sent, whole, -, received⟩ := telev_delivers made word (Nat.le_refl 37)
  have arrives : List.Forall₂ (fun b got => Delivered (Burst.payloads 400 b) got ∧ Heard got) done
      (done.map (Burst.faint 400)) := by
    rw [List.forall₂_map_right_iff, List.forall₂_same]
    exact fun b mem => (whole b mem).faint
  obtain ⟨reports, completes⟩ := received _ arrives
  refine ⟨done, sent, ?_, reports, completes⟩
  exact .flatten (List.forall₂_map_left_iff.mpr (arrives.imp fun _ _ => And.left))

end Autodialer
