import Autodialer.Dialer
import Autodialer.Mbuf
import Autodialer.Lib.Mealy

/-!
# Sending telephone events (`telev.c`)

A key is sent as a burst of packets: one for each interval while the key is down, and three more
that say that it is up again. The keys wait in a memory buffer, a byte for each key that goes down
and the byte `0xff` for a key that goes up. The buffer is written at its end and read at its
position; `telev_poll` reads the byte behind a key ahead, and puts it back if it is the next key.

* `Mbuf.Holds`: the bytes of the buffer that are left to be read. A write puts a byte behind them
  and a read takes the first one, across a growth of the block.
* `televSend_shows`, `televPacket_shows`: the sender is one with a list in the place of its buffer.
-/

namespace Autodialer

/-! ## Bytes of a buffer -/

namespace Mbuf

/-- `mbuf_get_left` -/
def getLeft (mb : Mbuf) : Nat := mb.endPos - mb.pos

/-- `mbuf_read_u8`; behind the end there is 0. -/
def readU8 (mb : Mbuf) : UInt8 × Mbuf :=
  if 1 > mb.getLeft then (0, mb)
  else ((mb.buf.getD mb.pos none).getD 0, { mb with pos := mb.pos + 1 })

/-- `mbuf_write_u8` -/
def writeU8 (mb : Mbuf) (v : UInt8) : Mbuf := (mb.grow (mb.pos + 1)).put [v]

/-- The bytes that are left to be read are those of `q`. -/
structure Holds (mb : Mbuf) (q : List UInt8) : Prop where
  pos : mb.pos ≤ mb.endPos
  room : mb.endPos ≤ mb.buf.length
  left : mb.left = q.map some

end Mbuf

/-! ## The sender -/

inductive TelevState
  | idle
  | sending
  | ending
deriving DecidableEq

/-- `struct telev`, its sending half. -/
structure TelevTx where
  mb : Mbuf
  ptime : Nat
  state : TelevState := .idle
  event : UInt8 := 0
  dur : Nat := 0
  txc : Nat := 0

def txcDigitMin : Nat := 9
def txcEnd : Nat := 3
def eventEnd : UInt8 := 0xff
def payloadVolume : UInt8 := 10

/-- `payload_encode` -/
def payloadEncode (mb : Mbuf) (event : UInt8) (fin : Bool) (dur : Nat) : Option Mbuf := do
  let mb ← mb.writeMem (some [event])
  let mb ← mb.writeMem (some [(if fin then 0x80 else 0x00) ||| (payloadVolume &&& 0x3f)])
  mb.writeMem (some (be16 dur))

/-- `telev_alloc`; `none` is EINVAL. -/
def televAlloc (ptime : Nat) : Option TelevTx :=
  if ptime = 0 then none else some { mb := Mbuf.alloc 16, ptime := ptime }

/-- `telev_send` writes behind the last byte, and puts the position back. -/
def televSend (tel : TelevTx) (event : Nat) (fin : Bool) : TelevTx :=
  let pos := tel.mb.pos
  let mb := ({ tel.mb with pos := tel.mb.endPos } : Mbuf).writeU8
    (if fin then eventEnd else UInt8.ofNat event)
  { tel with mb := { mb with pos := pos } }

/-- `telev_poll` writes a packet into `mb` and says whether it is marked; `none` is ENOENT. -/
def televPoll (tel : TelevTx) (mb : Mbuf) : TelevTx × Option (Bool × Mbuf) :=
  match tel.state with
  | .idle =>
    if tel.mb.getLeft = 0 then (tel, none)
    else
      let (event, rest) := tel.mb.readU8
      let tel := { tel with
        mb := rest, event := event, dur := tel.ptime * 8 % 2 ^ 16, state := .sending, txc := 1 }
      (tel, (payloadEncode mb tel.event false tel.dur).map fun mb => (true, mb))
  | .sending =>
    let tel := { tel with dur := (tel.dur + tel.ptime * 8) % 2 ^ 16, txc := (tel.txc + 1) % 2 ^ 32 }
    let sent := (payloadEncode mb tel.event false tel.dur).map fun mb => (false, mb)
    if tel.txc < txcDigitMin then (tel, sent)
    else if tel.mb.getLeft = 0 then (tel, sent)
    else
      let (next, rest) := tel.mb.readU8
      -- a key that goes down ends the one before it
      let rest := if next ≠ eventEnd then { rest with pos := rest.pos - 1 } else rest
      ({ tel with mb := rest, state := .ending, txc := 0 }, sent)
  | .ending =>
    let tel := { tel with txc := (tel.txc + 1) % 2 ^ 32 }
    let sent := (payloadEncode mb tel.event true tel.dur).map fun mb => (false, mb)
    if tel.txc < txcEnd then (tel, sent)
    else
      let mb := if tel.mb.getLeft = 0 then { tel.mb with pos := 0, endPos := 0 } else tel.mb
      ({ tel with mb := mb, state := .idle }, sent)

variable {mb : Mbuf} {q : List UInt8} {tel : TelevTx}

/-! ## The buffer is a queue -/

namespace Mbuf.Holds

theorem alloc (size : Nat) : (Mbuf.alloc size).Holds [] where
  pos := Nat.le_refl _
  room := Nat.zero_le _
  left := rfl

theorem getLeft (holds : mb.Holds q) : mb.getLeft = q.length := by
  have length := congrArg List.length holds.left
  rw [List.length_map, Mbuf.left, List.length_take, List.length_drop] at length
  rw [← length, Mbuf.getLeft]
  have := holds.room
  omega

theorem getLeft_eq_zero (holds : mb.Holds q) : mb.getLeft = 0 ↔ q = [] := by
  rw [holds.getLeft, List.length_eq_zero_iff]

/-- What is read is the first byte. -/
theorem readU8 {v : UInt8} (holds : mb.Holds (v :: q)) :
    mb.readU8 = (v, { mb with pos := mb.pos + 1 }) ∧
      ({ mb with pos := mb.pos + 1 } : Mbuf).Holds q := by
  have some := holds.getLeft
  have room := holds.room
  rw [Mbuf.getLeft, List.length_cons] at some
  have left := holds.left
  have inside : mb.pos < mb.buf.length := by omega
  rw [Mbuf.left, List.drop_eq_getElem_cons inside,
    show mb.endPos - mb.pos = (mb.endPos - (mb.pos + 1)) + 1 by omega, List.take_succ_cons,
    List.map_cons] at left
  obtain ⟨first, rest⟩ := List.cons.inj left
  refine ⟨?_, ?_, room, rest⟩
  · rw [Mbuf.readU8, Mbuf.getLeft, if_neg (by omega),
      List.getD_eq_getElem?_getD, List.getElem?_eq_getElem inside, first]
    rfl
  · show mb.pos + 1 ≤ mb.endPos
    omega

/-- More room leaves the bytes as they are. -/
theorem grow_buf (mb : Mbuf) (rsize : Nat) : ∃ more, (mb.grow rsize).buf = mb.buf ++ more := by
  unfold Mbuf.grow
  split
  next small =>
    refine ⟨_, congrArg (· ++ _) (List.take_of_length_le ?_)⟩
    exact Nat.le_trans (Nat.le_of_lt small) (Nat.le_max_left _ _)
  next => exact ⟨[], (List.append_nil _).symm⟩

/-- A byte is written behind the others. -/
theorem write (holds : mb.Holds q) (v : UInt8) :
    ({ ({ mb with pos := mb.endPos } : Mbuf).writeU8 v with pos := mb.pos } : Mbuf).Holds
      (q ++ [v]) := by
  obtain ⟨pos, room, left⟩ := holds
  obtain ⟨more, buf⟩ := grow_buf { mb with pos := mb.endPos } (mb.endPos + 1)
  have large := Mbuf.length_grow { mb with pos := mb.endPos } (mb.endPos + 1)
  have same := @Mbuf.pos_grow { mb with pos := mb.endPos } (mb.endPos + 1)
  generalize isGrown : ({ mb with pos := mb.endPos } : Mbuf).grow (mb.endPos + 1) = grown
    at buf large same
  have written : (({ mb with pos := mb.endPos } : Mbuf).writeU8 v) = grown.put [v] := by
    rw [Mbuf.writeU8, isGrown]
  have front : grown.buf.take mb.endPos = mb.buf.take mb.endPos := by
    rw [buf, List.take_append_of_le_length room]
  have whole : (mb.buf.take mb.endPos).length = mb.endPos := by
    rw [List.length_take, Nat.min_eq_left room]
  rw [written]
  refine ⟨?_, ?_, ?_⟩
  · show mb.pos ≤ max grown.endPos (grown.pos + 1)
    rw [same.1, same.2]
    exact Nat.le_trans pos (Nat.le_max_left _ _)
  · rw [Mbuf.put_length (by rw [same.1]; exact large)]
    show max grown.endPos (grown.pos + 1) ≤ _
    rw [same.1, same.2]
    exact Nat.max_le.mpr ⟨Nat.le_of_succ_le large, large⟩
  · have bytes : (mb.buf.take mb.endPos).drop mb.pos = q.map some := by
      rw [List.drop_take, ← left, Mbuf.left]
    show ((grown.put [v]).buf.drop mb.pos).take (max grown.endPos (grown.pos + 1) - mb.pos) = _
    rw [Mbuf.put, same.1, same.2, front, Nat.max_eq_right (Nat.le_succ _), List.append_assoc,
      List.drop_append_of_le_length (by rw [whole]; exact pos), bytes, List.take_append,
      List.map_append]
    have count : (q.map some).length = mb.endPos - mb.pos := by
      rw [← bytes, List.length_drop, whole]
    have last : mb.endPos + 1 - mb.pos - (q.map some).length = 1 := by omega
    show (q.map some).take (mb.endPos + 1 - mb.pos) ++
      List.take (mb.endPos + 1 - mb.pos - (q.map some).length) _ = _
    rw [List.take_of_length_le (by omega), last]
    rfl

/-- A buffer that has been read to its end starts anew. -/
theorem rewind (mb : Mbuf) : ({ mb with pos := 0, endPos := 0 } : Mbuf).Holds [] where
  pos := Nat.le_refl _
  room := Nat.zero_le _
  left := by simp [Mbuf.left]

end Mbuf.Holds

/-- The bytes of a packet. -/
def televPayload (event : UInt8) (fin : Bool) (dur : Nat) : List UInt8 :=
  [event, if fin then 0x8a else 0x0a] ++ be16 dur

theorem payloadEncode_room (room : mb.pos + 4 ≤ mb.buf.length) (event : UInt8) (fin : Bool)
    (dur : Nat) : payloadEncode mb event fin dur = some (mb.put (televPayload event fin dur)) := by
  have flags : (if fin then 0x80 else 0x00) ||| (payloadVolume &&& 0x3f) =
      if fin then (0x8a : UInt8) else 0x0a := by
    cases fin <;> decide
  have room₁ : mb.pos + [event].length ≤ mb.buf.length := by
    show mb.pos + 1 ≤ _
    omega
  have room₂ : mb.pos + ([event] ++ [if fin then (0x8a : UInt8) else 0x0a]).length ≤
      mb.buf.length := by
    show mb.pos + 2 ≤ _
    omega
  rw [payloadEncode, Mbuf.writeMem_room room₁, Option.bind_eq_bind, Option.bind_some, flags,
    Mbuf.writeMem_room, Option.bind_some, Mbuf.put_put room₁, Mbuf.writeMem_room,
    Mbuf.put_put room₂]
  · rfl
  · rw [Mbuf.put_length room₂]
    exact room
  · rw [Mbuf.put_length room₁]
    exact room₂

/-- The packet that `telev_poll` writes into a fresh buffer, as it is sent. -/
def televPacket (tel : TelevTx) : TelevTx × Option (Bool × List (Option UInt8)) :=
  let (tel, sent) := televPoll tel (Mbuf.alloc 4)
  (tel, sent.map fun (marker, mb) => (marker, ({ mb with pos := 0 } : Mbuf).left))

theorem payloadEncode_alloc (event : UInt8) (fin marker : Bool) (dur : Nat) :
    ((payloadEncode (Mbuf.alloc 4) event fin dur).map fun mb => (marker, mb)).map
        (fun x => (x.1, ({ x.2 with pos := 0 } : Mbuf).left)) =
      some (marker, (televPayload event fin dur).map some) := by
  rw [payloadEncode_room (Nat.le_refl 4), Option.map_some, Option.map_some]
  exact congrArg (fun l => some (marker, l)) (Mbuf.left_put_zero rfl (Nat.zero_le _))

/-! ## A queue in the place of the buffer -/

/-- The sender with a list of bytes that wait. -/
structure Keypad where
  queue : List UInt8 := []
  state : TelevState := .idle
  event : UInt8 := 0
  dur : Nat := 0
  txc : Nat := 0

namespace Keypad

def send (k : Keypad) (event : Nat) (fin : Bool) : Keypad :=
  { k with queue := k.queue ++ [if fin then eventEnd else UInt8.ofNat event] }

/-- The key that waits at the head of the queue goes down. -/
def press (k : Keypad) (event : UInt8) (rest : List UInt8) (step : Nat) : Keypad :=
  { k with queue := rest, event := event, dur := step % 2 ^ 16, state := .sending, txc := 1 }

/-- A packet more for the key that is down. -/
def hold (k : Keypad) (step : Nat) : Keypad :=
  { k with dur := (k.dur + step) % 2 ^ 16, txc := (k.txc + 1) % 2 ^ 32 }

/-- The key is up. -/
def lift (k : Keypad) (next : UInt8) (rest : List UInt8) : Keypad :=
  { k with queue := if next = eventEnd then rest else next :: rest, state := .ending, txc := 0 }

/-- A packet more that says that the key is up. -/
def repeatEnd (k : Keypad) : Keypad :=
  { k with txc := (k.txc + 1) % 2 ^ 32 }

def poll (k : Keypad) (step : Nat) : Keypad × Option (Bool × List UInt8) :=
  match k.state with
  | .idle =>
    match k.queue with
    | [] => (k, none)
    | event :: rest =>
      (k.press event rest step, some (true, televPayload event false (step % 2 ^ 16)))
  | .sending =>
    let held := k.hold step
    let sent := some (false, televPayload k.event false held.dur)
    if held.txc < txcDigitMin then (held, sent)
    else
      match k.queue with
      | [] => (held, sent)
      | next :: rest => (held.lift next rest, sent)
  | .ending =>
    let sent := some (false, televPayload k.event true k.dur)
    if k.repeatEnd.txc < txcEnd then (k.repeatEnd, sent)
    else ({ k.repeatEnd with state := .idle }, sent)

end Keypad

/-- The sender is as `k`, and the buffer holds its queue. -/
structure TelevTx.Shows (tel : TelevTx) (k : Keypad) : Prop where
  queue : tel.mb.Holds k.queue
  state : tel.state = k.state
  event : tel.event = k.event
  dur : tel.dur = k.dur
  txc : tel.txc = k.txc

variable {k : Keypad}

theorem televAlloc_shows {ptime : Nat} (made : televAlloc ptime = some tel) :
    0 < ptime ∧ tel.ptime = ptime ∧ tel.Shows {} := by
  unfold televAlloc at made
  split at made
  next => cases made
  next some =>
    cases made
    exact ⟨Nat.pos_of_ne_zero some, rfl, .alloc 16, rfl, rfl, rfl, rfl⟩

theorem televSend_shows (shows : tel.Shows k) (event : Nat) (fin : Bool) :
    (televSend tel event fin).Shows (k.send event fin) where
  queue := shows.queue.write _
  state := shows.state
  event := shows.event
  dur := shows.dur
  txc := shows.txc

theorem televPacket_shows (shows : tel.Shows k) :
    (televPacket tel).1.Shows (k.poll (tel.ptime * 8)).1 ∧ (televPacket tel).1.ptime = tel.ptime ∧
      (televPacket tel).2 =
        (k.poll (tel.ptime * 8)).2.map fun sent => (sent.1, sent.2.map some) := by
  obtain ⟨queue, state, event, dur, txc⟩ := shows
  cases isState : k.state with
  | idle =>
    cases isQueue : k.queue with
    | nil =>
      have empty : tel.mb.getLeft = 0 := queue.getLeft_eq_zero.mpr isQueue
      simp only [televPacket, televPoll, state, isState, empty, Keypad.poll, isQueue, if_true]
      exact ⟨⟨queue, state, event, dur, txc⟩, trivial, rfl⟩
    | cons next rest =>
      rw [isQueue] at queue
      have waits : tel.mb.getLeft ≠ 0 := fun empty => by
        simpa using queue.getLeft_eq_zero.mp empty
      obtain ⟨read, left⟩ := queue.readU8
      simp only [televPacket, televPoll, state, isState, if_neg waits, read, Keypad.poll, isQueue,
        payloadEncode_alloc]
      exact ⟨⟨left, rfl, rfl, rfl, rfl⟩, trivial, rfl⟩
  | sending =>
    by_cases few : (k.txc + 1) % 2 ^ 32 < txcDigitMin
    · simp only [televPacket, televPoll, state, isState, event, dur, txc, if_pos few, Keypad.poll,
        Keypad.hold, payloadEncode_alloc]
      exact ⟨⟨queue, rfl, rfl, rfl, rfl⟩, trivial, rfl⟩
    cases isQueue : k.queue with
    | nil =>
      have empty : tel.mb.getLeft = 0 := queue.getLeft_eq_zero.mpr isQueue
      simp only [televPacket, televPoll, state, isState, event, dur, txc, if_neg few, Keypad.poll,
        Keypad.hold, payloadEncode_alloc, empty, isQueue, if_true]
      rw [isQueue] at queue
      exact ⟨⟨queue, rfl, rfl, rfl, rfl⟩, trivial, rfl⟩
    | cons next rest =>
      rw [isQueue] at queue
      have waits : tel.mb.getLeft ≠ 0 := fun empty => by
        simpa using queue.getLeft_eq_zero.mp empty
      obtain ⟨read, left⟩ := queue.readU8
      simp only [televPacket, televPoll, state, isState, event, dur, txc, if_neg few, Keypad.poll,
        Keypad.hold, Keypad.lift, payloadEncode_alloc, if_neg waits, isQueue, read]
      refine ⟨⟨?_, rfl, rfl, rfl, rfl⟩, trivial, rfl⟩
      by_cases up : next = eventEnd
      · simp only [up, ne_eq, not_true_eq_false, if_false, if_true]
        exact left
      · simp only [up, ne_eq, not_false_eq_true, if_true, if_false, Nat.add_sub_cancel]
        exact queue
  | ending =>
    by_cases few : (k.txc + 1) % 2 ^ 32 < txcEnd
    · simp only [televPacket, televPoll, state, isState, event, dur, txc, if_pos few, Keypad.poll,
        Keypad.repeatEnd, payloadEncode_alloc]
      exact ⟨⟨queue, rfl, rfl, rfl, rfl⟩, trivial, rfl⟩
    · simp only [televPacket, televPoll, state, isState, event, dur, txc, if_neg few, Keypad.poll,
        Keypad.repeatEnd, payloadEncode_alloc]
      refine ⟨⟨?_, rfl, rfl, rfl, rfl⟩, trivial, rfl⟩
      split
      next empty =>
        rw [queue.getLeft_eq_zero.mp empty]
        exact .rewind tel.mb
      next => exact queue

end Autodialer
