import Autodialer.Lib.Mealy
import Autodialer.Mbuf

/-!
# The thread that plays the audio file

`rtpThread` reads the audio file of a call frame by frame and sends each frame in an RTP
packet; when it has played the file often enough, or cannot find it, it sends silence. It is a
machine here that takes one step between two looks at the flags of the call: a step sends at
most one datagram.

* `playing_frame`: a frame of the file goes out behind a header.
* `silence_bytes`: silence is a header and nothing behind it.
-/

namespace Autodialer

/-- The kind of file, and the length, timestamp step and interval of its frames. -/
structure FrameFormat where
  extension : String
  frameSize : Nat
  frameTs : Nat
  frameSleep : Nat
deriving DecidableEq, Repr

/-- What `rtpThread` makes of `call->pt`. -/
def frameFormat (codec : Nat) : FrameFormat :=
  if codec = 0 then ⟨".ulaw", 160, 160, 20⟩
  else if codec = 8 then ⟨".alaw", 160, 160, 20⟩
  else ⟨".g729", 40, 320, 40⟩

/-- Where the thread is. -/
inductive ThreadPc
  /-- At the top of its loop. -/
  | top
  /-- In the inner loop, with what is left of the file. -/
  | playing (rest : List UInt8)
  /-- Behind the inner loop. -/
  | closing
  | returned
deriving DecidableEq

/-- The thread with the fields of the call and of its RTP socket that it writes. -/
structure RtpThread where
  pc : ThreadPc := .top
  ts : Nat
  numPlay : Nat := 0
  rs : RtpSock
  mb : Mbuf := {}

/-- What a step finds: whether `access` and `fopen` find the file, and the fields of the call and
of its campaign that others write. -/
structure ThreadEnv where
  access : Bool
  file : Option (List UInt8)
  maxPlay : Nat
  ended : Bool
  eventReceived : Bool

/-- The two flags that end the thread. -/
def ThreadEnv.flagged (env : ThreadEnv) : Bool := env.ended || env.eventReceived

/-- What is handed to `udp_send`. -/
inductive Datagram
  | audio (bytes : List (Option UInt8))
  | silence (bytes : List (Option UInt8))

def Datagram.bytes : Datagram → List (Option UInt8)
  | .audio bytes => bytes
  | .silence bytes => bytes

namespace RtpThread

/-- `call->ts += frame_ts` -/
def advance (t : RtpThread) (codec : Nat) : RtpThread :=
  { t with ts := (t.ts + (frameFormat codec).frameTs) % 2 ^ 32 }

/-- The branch of `rtpThread` for silence: the data pointer of `mbuf_write_mem` is null. -/
def sendSilence (codec : Nat) (t : RtpThread) : RtpThread × Datagram :=
  let mb := Mbuf.alloc ((frameFormat codec).frameSize + 12)
  let (rs, mb) := rtpEncode t.rs false codec t.ts mb
  let mb := (mb.writeMem none).getD mb
  ({ t with rs := rs }.advance codec, .silence { mb with pos := 0 }.left)

/-- The body of the inner loop of `rtpThread`: first the frame, then the header before it. -/
def sendFrame (codec : Nat) (serial : List UInt8) (t : RtpThread) : RtpThread × Datagram :=
  let mb := { t.mb with pos := 12 }
  let mb := (mb.writeMem (some serial)).getD mb
  let (rs, mb) := rtpEncode t.rs false codec t.ts { mb with pos := 0 }
  ({ t with rs := rs, mb := mb }.advance codec, .audio { mb with pos := 0 }.left)

/-- The look at the flags at the end of the loop. -/
def checkFlags (t : RtpThread) (env : ThreadEnv) : RtpThread :=
  { t with pc := if env.flagged then .returned else .top }

/-- One step of `rtpThread`. -/
def step (codec : Nat) (t : RtpThread) (env : ThreadEnv) : RtpThread × Option Datagram :=
  match t.pc with
  | .top =>
    if !env.access || env.maxPlay ≤ t.numPlay then
      let (t, datagram) := t.sendSilence codec
      (t.checkFlags env, some datagram)
    else
      match env.file with
      | none => ({ t with pc := .returned }, none)
      | some content =>
        ({ t with pc := .playing content, mb := Mbuf.alloc ((frameFormat codec).frameSize + 12) },
          none)
  | .playing rest =>
    -- fread() gives a full frame or the file is at its end
    if (frameFormat codec).frameSize ≤ rest.length then
      let (t, datagram) := t.sendFrame codec (rest.take (frameFormat codec).frameSize)
      if env.flagged then ({ t with pc := .closing }, some datagram)
      else
        ({ t with
          pc := .playing (rest.drop (frameFormat codec).frameSize), mb := t.mb.reset }, some datagram)
    else ({ t with pc := .closing }, none)
  | .closing => ({ t with numPlay := (t.numPlay + 1) % 2 ^ 8 }.checkFlags env, none)
  | .returned => (t, none)

/-- The steps of a run, and the datagrams that they send. -/
def run (codec : Nat) (t : RtpThread) (envs : List ThreadEnv) : RtpThread × List Datagram :=
  Mealy.run (step codec) t envs

end RtpThread

/-! ## What a step does -/

variable {codec : Nat} {t t' : RtpThread} {env : ThreadEnv} {serial : List UInt8}

/-- What a step can do: the thread after it and the datagram that it sends. -/
inductive ThreadStep (codec : Nat) (t : RtpThread) (env : ThreadEnv) :
    RtpThread → Option Datagram → Prop
  | silence : t.pc = .top → env.access = false ∨ env.maxPlay ≤ t.numPlay →
      ThreadStep codec t env ((t.sendSilence codec).1.checkFlags env) (some (t.sendSilence codec).2)
  | lost : t.pc = .top → env.access = true → t.numPlay < env.maxPlay → env.file = none →
      ThreadStep codec t env { t with pc := .returned } none
  | opened {content : List UInt8} : t.pc = .top → env.access = true → t.numPlay < env.maxPlay →
      env.file = some content →
      ThreadStep codec t env
        { t with pc := .playing content, mb := Mbuf.alloc ((frameFormat codec).frameSize + 12) } none
  | frame {rest : List UInt8} : t.pc = .playing rest → (frameFormat codec).frameSize ≤ rest.length →
      env.flagged = false →
      ThreadStep codec t env
        { (t.sendFrame codec (rest.take (frameFormat codec).frameSize)).1 with
          pc := .playing (rest.drop (frameFormat codec).frameSize), mb := {} }
        (some (t.sendFrame codec (rest.take (frameFormat codec).frameSize)).2)
  | cut {rest : List UInt8} : t.pc = .playing rest → (frameFormat codec).frameSize ≤ rest.length →
      env.flagged = true →
      ThreadStep codec t env
        { (t.sendFrame codec (rest.take (frameFormat codec).frameSize)).1 with pc := .closing }
        (some (t.sendFrame codec (rest.take (frameFormat codec).frameSize)).2)
  | finished {rest : List UInt8} : t.pc = .playing rest →
      rest.length < (frameFormat codec).frameSize →
      ThreadStep codec t env { t with pc := .closing } none
  | closed : t.pc = .closing →
      ThreadStep codec t env ({ t with numPlay := (t.numPlay + 1) % 2 ^ 8 }.checkFlags env) none
  | returned : t.pc = .returned → ThreadStep codec t env t none

theorem threadStep_cases (codec : Nat) (t : RtpThread) (env : ThreadEnv) :
    ThreadStep codec t env (t.step codec env).1 (t.step codec env).2 := by
  unfold RtpThread.step
  cases pc : t.pc with
  | top =>
    dsimp only
    split
    next quiet =>
      refine .silence pc ?_
      simpa using quiet
    next found =>
      simp only [Bool.or_eq_true, Bool.not_eq_true', decide_eq_true_eq, not_or, Bool.not_eq_false,
        Nat.not_le] at found
      cases file : env.file with
      | none => exact .lost pc found.1 found.2 file
      | some content => exact .opened pc found.1 found.2 file
  | playing rest =>
    dsimp only
    split
    next full =>
      cases flag : env.flagged with
      | true => exact .cut pc full flag
      | false => exact .frame pc full flag
    next short => exact .finished pc (Nat.not_le.mp short)
  | closing => exact .closed pc
  | returned => exact .returned pc

/-! ## What is sent -/

/-- The header of the next datagram. -/
def RtpThread.header (t : RtpThread) (codec : Nat) : RtpHeader where
  m := false
  pt := codec
  seq := t.rs.seq
  ts := t.ts
  ssrc := t.rs.ssrc

theorem frameSize_pos (codec : Nat) : 0 < (frameFormat codec).frameSize := by
  unfold frameFormat
  split
  · decide
  · split <;> decide

/-- Silence is a header and nothing behind it; without a header it is nothing. -/
theorem silence_bytes : (t.sendSilence codec).2 =
    .silence (if codec < 128 then (t.header codec).bytes.map some else []) := by
  unfold RtpThread.sendSilence rtpEncode
  split
  next large =>
    rw [if_neg (Nat.not_lt.mpr large)]
    rfl
  next small =>
    have room : (Mbuf.alloc ((frameFormat codec).frameSize + 12)).pos + 12 ≤
        (Mbuf.alloc ((frameFormat codec).frameSize + 12)).buf.length := by
      simp [Mbuf.alloc]
    rw [if_pos (Nat.not_le.mp small)]
    simp only [rtpHdrEncode_eq room, Option.getD_some, Mbuf.writeMem, Option.getD_none]
    exact congrArg Datagram.silence (Mbuf.left_put_zero rfl (Nat.zero_le _))

/-- A frame goes out behind a header; without a header the bytes before it are those of fresh
memory. -/
theorem playing_frame (blank : t.mb.Blank) (serial : List UInt8) : (t.sendFrame codec serial).2 =
    .audio ((if codec < 128 then (t.header codec).bytes.map some else List.replicate 12 none) ++
      serial.map some) := by
  have blank' : ({ t.mb with pos := 12 } : Mbuf).Blank := ⟨blank.fresh, blank.endPos⟩
  have grown := blank'.grow (12 + serial.length)
  have long := Mbuf.length_grow { t.mb with pos := 12 } (12 + serial.length)
  have pos : (({ t.mb with pos := 12 } : Mbuf).grow (12 + serial.length)).pos = 12 :=
    (Mbuf.pos_grow _).1
  unfold RtpThread.sendFrame
  simp only [Mbuf.writeMem, Option.getD_some]
  generalize ({ t.mb with pos := 12 } : Mbuf).grow (12 + serial.length) = mb at grown long pos
  have short : mb.endPos ≤ mb.pos + serial.length := by
    rw [grown.endPos]
    exact Nat.zero_le _
  unfold rtpEncode
  split
  next large =>
    rw [if_neg (Nat.not_lt.mpr large)]
    refine congrArg Datagram.audio ((Mbuf.left_put_behind short (by omega)).trans ?_)
    rw [pos, List.eq_replicate_of_mem fun b mem => grown.fresh b (List.mem_of_mem_take mem),
      List.length_take, Nat.min_eq_left (by omega)]
  next small =>
    have room : ({ mb.put serial with pos := 0 } : Mbuf).pos + 12 ≤
        ({ mb.put serial with pos := 0 } : Mbuf).buf.length := by
      show 0 + 12 ≤ (mb.put serial).buf.length
      rw [Mbuf.put_length (by omega)]
      omega
    rw [if_pos (Nat.not_le.mp small), rtpHdrEncode_eq room, Option.getD_some, ← List.map_append]
    exact congrArg Datagram.audio (Mbuf.left_put_front short pos (by omega))

end Autodialer
