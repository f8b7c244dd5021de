import Autodialer.RtpThread

/-!
# The stream of RTP packets of a call

* `datagrams_full`: every datagram is a header and a full frame exactly if the thread never
  sends silence, and plays nothing under a payload number from 128 on.
* `run_onAir`: while the file stays readable and no flag is set, the datagrams are the frames of
  the file, repeated, and then silence, on one clock.
* `run_flagged`: once a flag is set at most one datagram follows.
-/

namespace Autodialer

open RtpThread

variable {codec n m : Nat} {t t' : RtpThread} {env : ThreadEnv} {envs : List ThreadEnv}
  {content : List UInt8}

/-! ## Full frames -/

/-- A datagram that starts with a header and holds a frame behind it. -/
structure FullFrame (codec : Nat) (d : Datagram) : Prop where
  length : d.bytes.length = 12 + (frameFormat codec).frameSize
  header : ∃ hdr : RtpHeader, d.bytes.take 12 = hdr.bytes.map some

/-- The step sends silence. -/
def Silent (t : RtpThread) (env : ThreadEnv) : Prop :=
  t.pc = .top ∧ (env.access = false ∨ env.maxPlay ≤ t.numPlay)

/-- The step sends a frame of the file. -/
def Plays (codec : Nat) (t : RtpThread) : Prop :=
  ∃ rest, t.pc = .playing rest ∧ (frameFormat codec).frameSize ≤ rest.length

/-- The buffer of the inner loop is new at the start of each of its rounds. -/
def BufferReady (t : RtpThread) : Prop := ∀ rest, t.pc = .playing rest → t.mb.Blank

theorem step_ready (ready : BufferReady t) : BufferReady (t.step codec env).1 := by
  intro rest pc
  have result := threadStep_cases codec t env
  generalize (t.step codec env).1 = t', (t.step codec env).2 = o at pc result ⊢
  cases result with
  | silence =>
    rw [checkFlags] at pc
    dsimp only at pc
    split at pc <;> cases pc
  | lost => cases pc
  | opened => exact Mbuf.blank_alloc _
  | frame => exact Mbuf.blank_reset {}
  | cut => cases pc
  | finished => cases pc
  | closed =>
    rw [checkFlags] at pc
    dsimp only at pc
    split at pc <;> cases pc
  | returned => exact ready rest pc

/-- A datagram of silence is no full frame, and one of the file is if it has a header. -/
theorem silence_not_full (codec : Nat) (t : RtpThread) : ¬ FullFrame codec (t.sendSilence codec).2 := by
  intro full
  have length := full.length
  have positive := frameSize_pos codec
  rw [silence_bytes] at length
  split at length
  · rw [Datagram.bytes, List.length_map, RtpHeader.length_bytes] at length
    omega
  · rw [Datagram.bytes, List.length_nil] at length
    omega

theorem frame_full {rest : List UInt8} (blank : t.mb.Blank)
    (long : (frameFormat codec).frameSize ≤ rest.length) :
    FullFrame codec (t.sendFrame codec (rest.take (frameFormat codec).frameSize)).2 ↔
      codec < 128 := by
  rw [playing_frame blank]
  split
  next small =>
    refine iff_of_true ⟨?_, t.header codec, ?_⟩ small
    · simp [Datagram.bytes, Nat.min_eq_left long]
    · rw [Datagram.bytes, List.take_append_of_le_length (by simp), List.take_of_length_le (by simp)]
  next large =>
    refine iff_of_false (fun full => ?_) large
    obtain ⟨hdr, header⟩ := full.header
    have first := congrArg List.head? header
    rw [Datagram.bytes, List.take_append_of_le_length (by simp)] at first
    cases first

theorem not_silent (other : t.pc ≠ .top) : ¬ Silent t env := fun silent => other silent.1

theorem not_plays (other : ∀ rest, t.pc ≠ .playing rest) : ¬ Plays codec t :=
  fun ⟨rest, pc, _⟩ => other rest pc

/-- One step: its datagram is full unless it sends silence or a frame without a header. -/
theorem step_full (ready : BufferReady t) : (∀ d ∈ (t.step codec env).2, FullFrame codec d) ↔
    ¬ Silent t env ∧ (Plays codec t → codec < 128) := by
  have quiet : ¬ Silent t env → ¬ Plays codec t → ((∀ d ∈ (none : Option Datagram),
      FullFrame codec d) ↔ ¬ Silent t env ∧ (Plays codec t → codec < 128)) :=
    fun notSilent notPlays => iff_of_true (fun d mem => by cases mem)
      ⟨notSilent, fun plays => absurd plays notPlays⟩
  have found : env.access = true → t.numPlay < env.maxPlay → ¬ Silent t env := by
    rintro access more ⟨-, none | done⟩
    · rw [access] at none
      cases none
    · omega
  have frames : ∀ {rest : List UInt8}, t.pc = .playing rest →
      (frameFormat codec).frameSize ≤ rest.length →
      ((∀ d ∈ some (t.sendFrame codec (rest.take (frameFormat codec).frameSize)).2,
        FullFrame codec d) ↔ ¬ Silent t env ∧ (Plays codec t → codec < 128)) := by
    intro rest pc long
    have notSilent : ¬ Silent t env := not_silent (by simp [pc])
    simp only [Option.mem_some_iff, forall_eq', frame_full (ready rest pc) long, notSilent,
      not_false_eq_true, true_and]
    exact ⟨fun small _ => small, fun small => small ⟨rest, pc, long⟩⟩
  have result := threadStep_cases codec t env
  generalize (t.step codec env).1 = t', (t.step codec env).2 = o at result ⊢
  cases result with
  | silence pc silent =>
    exact iff_of_false (fun full => silence_not_full codec t (full _ rfl))
      fun cond => cond.1 ⟨pc, silent⟩
  | lost pc access more => exact quiet (found access more) (not_plays (by simp [pc]))
  | opened pc access more => exact quiet (found access more) (not_plays (by simp [pc]))
  | frame pc long => exact frames pc long
  | cut pc long => exact frames pc long
  | finished pc short =>
    refine quiet (not_silent (by simp [pc])) ?_
    rintro ⟨rest, pc', long⟩
    cases pc.symm.trans pc'
    omega
  | closed pc => exact quiet (not_silent (by simp [pc])) (not_plays (by simp [pc]))
  | returned pc => exact quiet (not_silent (by simp [pc])) (not_plays (by simp [pc]))

/-- For every file, every number of repetitions and every alternation of the two modes: all
datagrams are full frames exactly if no step of the run sends silence, and none sends a frame of
the file under a payload number from 128 on. -/
theorem datagrams_full (start : t.pc = .top) : (∀ d ∈ (run codec t envs).2, FullFrame codec d) ↔
    ∀ before env, before ++ [env] <+: envs → ¬ Silent (run codec t before).1 env ∧
      (Plays codec (run codec t before).1 → codec < 128) :=
  Mealy.outputs_iff (fun _ _ => step_ready) (fun _ _ => step_full)
    (fun rest pc => by cases start.symm.trans pc)

/-- A thread that starts. -/
def firstThread : RtpThread where
  ts := 0
  rs := { seq := 65535, ssrc := 7 }

/-- What the steps of a run find while a file can be read and no flag is set. -/
def quietEnv (maxPlay : Nat) (content : List UInt8) : ThreadEnv where
  access := true
  file := some content
  maxPlay := maxPlay
  ended := false
  eventReceived := false

/-- The file is opened and a frame of it is sent. -/
theorem datagrams_full_frame : firstThread.pc = .top ∧
    ((∀ d ∈ (run 0 firstThread (List.replicate 2 (quietEnv 1 (List.replicate 200 0)))).2,
      FullFrame 0 d) ↔
      ∀ before env, before ++ [env] <+: List.replicate 2 (quietEnv 1 (List.replicate 200 0)) →
        ¬ Silent (run 0 firstThread before).1 env ∧
          (Plays 0 (run 0 firstThread before).1 → 0 < 128)) :=
  ⟨rfl, datagrams_full rfl⟩

/-- Without the file, silence is sent: a header and nothing behind it. -/
theorem silence_too_short : ¬ ∀ codec t envs, t.pc = .top →
    ∀ d ∈ (run codec t envs).2, FullFrame codec d := by
  intro always
  refine silence_not_full 0 firstThread ?_
  exact always 0 firstThread [{ quietEnv 1 [] with access := false }] rfl _ List.mem_cons_self

/-! ## The file, repeated -/

/-- The file stays readable, `max_play` is `n`, and no flag is set. -/
structure Quiet (n : Nat) (content : List UInt8) (env : ThreadEnv) : Prop where
  access : env.access = true
  file : env.file = some content
  maxPlay : env.maxPlay = n
  unflagged : env.flagged = false

/-- The number of complete frames of the file. -/
def frameCount (codec : Nat) (content : List UInt8) : Nat :=
  content.length / (frameFormat codec).frameSize

def frameAt (codec : Nat) (content : List UInt8) (i : Nat) : List UInt8 :=
  (content.drop (i * (frameFormat codec).frameSize)).take (frameFormat codec).frameSize

/-- The complete frames of the file, in order. -/
def frames (codec : Nat) (content : List UInt8) : List (List UInt8) :=
  (List.range (frameCount codec content)).map (frameAt codec content)

/-- The header of the datagram number `k`, from the thread as it starts. -/
def RtpThread.headerAt (t : RtpThread) (codec k : Nat) : RtpHeader where
  m := false
  pt := codec
  seq := (t.rs.seq + k) % 2 ^ 16
  ts := (t.ts + k * (frameFormat codec).frameTs) % 2 ^ 32
  ssrc := t.rs.ssrc

/-- The datagram number `k`. -/
def datagramAt (codec n : Nat) (content : List UInt8) (t : RtpThread) (k : Nat) : Datagram :=
  if k < n * frameCount codec content then
    .audio ((t.headerAt codec k).bytes.map some ++
      (frameAt codec content (k % frameCount codec content)).map some)
  else .silence ((t.headerAt codec k).bytes.map some)

/-- The thread after `m` datagrams, from `t₀` on. -/
structure OnAir (codec n : Nat) (content : List UInt8) (t₀ : RtpThread) (m : Nat) (t : RtpThread) :
    Prop where
  header : t.header codec = t₀.headerAt codec m
  place :
    match t.pc with
    | .top => t.numPlay ≤ n ∧ (t.numPlay < n → m = t.numPlay * frameCount codec content) ∧
        (t.numPlay = n → n * frameCount codec content ≤ m)
    | .playing rest => t.numPlay < n ∧ t.mb.Blank ∧ ∃ i, i ≤ frameCount codec content ∧
        rest = content.drop (i * (frameFormat codec).frameSize) ∧
        m = t.numPlay * frameCount codec content + i
    | .closing => t.numPlay < n ∧ m = (t.numPlay + 1) * frameCount codec content
    | .returned => False

variable {t₀ : RtpThread}

/-- The clock goes on by one datagram. -/
theorem header_next {t' : RtpThread} (header : t.header codec = t₀.headerAt codec m)
    (rs : t'.rs = { t.rs with seq := (t.rs.seq + 1) % 2 ^ 16 })
    (ts : t'.ts = (t.ts + (frameFormat codec).frameTs) % 2 ^ 32) :
    t'.header codec = t₀.headerAt codec (m + 1) := by
  rw [RtpThread.header, headerAt, RtpHeader.mk.injEq] at header ⊢
  obtain ⟨-, -, seq, stamp, ssrc⟩ := header
  refine ⟨rfl, rfl, ?_, ?_, ?_⟩
  · rw [rs]
    show (t.rs.seq + 1) % 2 ^ 16 = _
    rw [seq]
    omega
  · rw [ts, stamp, Nat.add_mul, Nat.one_mul]
    omega
  · rw [rs, ← ssrc]

theorem rtpEncode_rs (small : codec < 128) (rs : RtpSock) (ts : Nat) (mb : Mbuf) :
    (rtpEncode rs false codec ts mb).1 = { rs with seq := (rs.seq + 1) % 2 ^ 16 } := by
  rw [rtpEncode, if_neg (Nat.not_le.mpr small)]

theorem sendSilence_next (small : codec < 128) (header : t.header codec = t₀.headerAt codec m) :
    (t.sendSilence codec).1.header codec = t₀.headerAt codec (m + 1) :=
  header_next header (rtpEncode_rs small _ _ _) rfl

theorem sendFrame_next (small : codec < 128) (header : t.header codec = t₀.headerAt codec m)
    (serial : List UInt8) :
    (t.sendFrame codec serial).1.header codec = t₀.headerAt codec (m + 1) :=
  header_next header (rtpEncode_rs small _ _ _) rfl

theorem frame_rest {i : Nat} (le : i ≤ frameCount codec content)
    (long : (frameFormat codec).frameSize ≤
      (content.drop (i * (frameFormat codec).frameSize)).length) :
    i < frameCount codec content := by
  have positive := frameSize_pos codec
  rw [List.length_drop] at long
  rw [frameCount, Nat.lt_iff_add_one_le, Nat.le_div_iff_mul_le positive, Nat.add_mul, Nat.one_mul]
  have fits : i * (frameFormat codec).frameSize ≤ content.length := by
    refine (Nat.mul_le_mul_right _ le).trans ?_
    exact Nat.div_mul_le_self _ _
  omega

theorem frame_short {i : Nat} (le : i ≤ frameCount codec content)
    (short : (content.drop (i * (frameFormat codec).frameSize)).length <
      (frameFormat codec).frameSize) : i = frameCount codec content := by
  have positive := frameSize_pos codec
  rw [List.length_drop] at short
  refine Nat.le_antisymm le ?_
  rw [frameCount, Nat.le_iff_lt_add_one, Nat.div_lt_iff_lt_mul positive, Nat.add_mul, Nat.one_mul]
  omega

/-- One step on the air. -/
theorem step_onAir (small : codec < 128) (bound : n < 2 ^ 8) (onAir : OnAir codec n content t₀ m t)
    (quiet : Quiet n content env) :
    OnAir codec n content t₀ (m + (t.step codec env).2.toList.length) (t.step codec env).1 ∧
      ∀ d ∈ (t.step codec env).2, d = datagramAt codec n content t₀ m := by
  obtain ⟨header, place⟩ := onAir
  have result := threadStep_cases codec t env
  generalize (t.step codec env).1 = t', (t.step codec env).2 = o at result ⊢
  cases result with
  | silence pc silent =>
    rw [pc] at place
    obtain ⟨le, -, full⟩ := place
    -- the file is found, so silence is sent only after it has been played `n` times
    have done : t.numPlay = n := by
      rcases silent with none | done
      · rw [quiet.access] at none
        cases none
      · rw [quiet.maxPlay] at done
        exact Nat.le_antisymm le done
    refine ⟨⟨sendSilence_next small header, ?_⟩, fun d mem => ?_⟩
    · rw [checkFlags, quiet.unflagged]
      exact ⟨le, fun lt => absurd done (Nat.ne_of_lt lt), fun _ => Nat.le_succ_of_le (full done)⟩
    · cases mem
      rw [silence_bytes, if_pos small, header, datagramAt, if_neg (Nat.not_lt.mpr (full done))]
  | lost pc access more none =>
    rw [quiet.file] at none
    cases none
  | opened pc access more file =>
    rw [pc] at place
    cases quiet.file.symm.trans file
    rw [quiet.maxPlay] at more
    refine ⟨⟨header, more, Mbuf.blank_alloc _, 0, Nat.zero_le _, ?_, place.2.1 more⟩,
      fun d mem => by cases mem⟩
    rw [Nat.zero_mul, List.drop_zero]
  | @frame rest pc long unflagged =>
    rw [pc] at place
    obtain ⟨more, blank, i, le, rfl, isM⟩ := place
    have lt := frame_rest le long
    refine ⟨⟨sendFrame_next small header _, more, Mbuf.blank_reset {}, i + 1, lt, ?_, ?_⟩,
      fun d mem => ?_⟩
    · rw [List.drop_drop, Nat.add_mul, Nat.one_mul]
    · rw [isM]
      rfl
    · cases mem
      -- the `i`-th frame of this play, after the frames of the plays before it
      have early : m < n * frameCount codec content := by
        have next := Nat.mul_le_mul_right (frameCount codec content) (Nat.succ_le_of_lt more)
        rw [Nat.succ_mul] at next
        omega
      have place : m % frameCount codec content = i := by
        rw [isM, Nat.mul_add_mod_of_lt lt]
      rw [playing_frame blank, if_pos small, header, datagramAt, if_pos early, place]
      rfl
  | cut pc long flagged =>
    rw [quiet.unflagged] at flagged
    cases flagged
  | @finished rest pc short =>
    rw [pc] at place
    obtain ⟨more, blank, i, le, rfl, isM⟩ := place
    -- less than a frame is left, so all frames of the play have been sent
    refine ⟨⟨header, more, ?_⟩, fun d mem => by cases mem⟩
    rw [isM, frame_short le short, Nat.add_mul, Nat.one_mul]
    rfl
  | closed pc =>
    rw [pc] at place
    obtain ⟨more, isM⟩ := place
    have count : (t.numPlay + 1) % 2 ^ 8 = t.numPlay + 1 := Nat.mod_eq_of_lt (by omega)
    refine ⟨⟨header, ?_⟩, fun d mem => by cases mem⟩
    rw [checkFlags, quiet.unflagged, count]
    exact ⟨more, fun _ => isM, fun done => by rw [isM, ← done]; exact Nat.le_refl _⟩
  | returned pc =>
    rw [pc] at place
    exact place.elim

/-- The steps that are left until the file has been played often enough. -/
def stepsLeft (codec n : Nat) (content : List UInt8) (t : RtpThread) : Nat :=
  match t.pc with
  | .top => (n - t.numPlay) * (frameCount codec content + 3)
  | .playing rest => (n - 1 - t.numPlay) * (frameCount codec content + 3) +
      (rest.length / (frameFormat codec).frameSize + 2)
  | .closing => (n - 1 - t.numPlay) * (frameCount codec content + 3) + 1
  | .returned => 0

theorem step_left (bound : n < 2 ^ 8) (onAir : OnAir codec n content t₀ m t)
    (quiet : Quiet n content env) :
    stepsLeft codec n content (t.step codec env).1 = stepsLeft codec n content t - 1 := by
  have positive := frameSize_pos codec
  obtain ⟨-, place⟩ := onAir
  have result := threadStep_cases codec t env
  generalize (t.step codec env).1 = t', (t.step codec env).2 = o at result ⊢
  cases result with
  | silence pc silent =>
    have done : n ≤ t.numPlay := by
      rcases silent with none | done
      · rw [quiet.access] at none
        cases none
      · rwa [quiet.maxPlay] at done
    rw [checkFlags, quiet.unflagged, stepsLeft, stepsLeft, pc]
    show (n - t.numPlay) * _ = (n - t.numPlay) * _ - 1
    rw [Nat.sub_eq_zero_of_le done, Nat.zero_mul]
  | lost pc access more none =>
    rw [quiet.file] at none
    cases none
  | opened pc access more file =>
    cases quiet.file.symm.trans file
    rw [quiet.maxPlay] at more
    rw [stepsLeft, stepsLeft, pc]
    show (n - 1 - t.numPlay) * _ + (frameCount codec content + 2) = (n - t.numPlay) * _ - 1
    rw [show n - t.numPlay = n - 1 - t.numPlay + 1 by omega, Nat.add_mul, Nat.one_mul]
    omega
  | @frame rest pc long unflagged =>
    rw [stepsLeft, stepsLeft, pc]
    show _ + ((rest.drop _).length / _ + 2) = _ + (rest.length / _ + 2) - 1
    rw [List.length_drop, Nat.div_eq_sub_div positive long]
    rfl
  | cut pc long flagged =>
    rw [quiet.unflagged] at flagged
    cases flagged
  | @finished rest pc short =>
    rw [stepsLeft, stepsLeft, pc]
    show _ + 1 = _ + (rest.length / _ + 2) - 1
    rw [Nat.div_eq_of_lt short]
    rfl
  | closed pc =>
    rw [pc] at place
    have count : (t.numPlay + 1) % 2 ^ 8 = t.numPlay + 1 := Nat.mod_eq_of_lt (by omega)
    rw [checkFlags, quiet.unflagged, count, stepsLeft, stepsLeft, pc]
    show (n - (t.numPlay + 1)) * _ = (n - 1 - t.numPlay) * _ + 1 - 1
    rw [Nat.add_sub_cancel, Nat.sub_sub, Nat.add_comm]
  | returned pc =>
    rw [pc] at place
    exact place.elim

/-- The payload of a datagram with audio: what stands behind the header. -/
def Datagram.audioPayload : Datagram → Option (List UInt8)
  | .audio bytes => some ((bytes.drop 12).filterMap id)
  | .silence _ => none

theorem datagramAt_payload (codec n : Nat) (content : List UInt8) (t : RtpThread) (k : Nat) :
    (datagramAt codec n content t k).audioPayload =
      if k < n * frameCount codec content then
        some (frameAt codec content (k % frameCount codec content))
      else none := by
  unfold datagramAt
  split
  · rw [Datagram.audioPayload, List.drop_left' (by simp)]
    simp
  · rfl

/-- The frames of the file, repeated, are those of the first datagrams. -/
theorem frames_repeated (codec n : Nat) (content : List UInt8) :
    (List.replicate n (frames codec content)).flatten =
      (List.range (n * frameCount codec content)).map fun k =>
        frameAt codec content (k % frameCount codec content) := by
  induction n with
  | zero => simp
  | succ n ih =>
    rw [List.replicate_succ', List.flatten_append, ih, Nat.succ_mul, List.range_add, List.map_append,
      List.flatten_singleton, List.map_map, frames]
    congr 1
    refine List.map_congr_left fun i mem => ?_
    rw [Function.comp_apply, Nat.mul_add_mod_of_lt (List.mem_range.mp mem)]

/-- The audio in the first datagrams. -/
theorem audio_first (codec n : Nat) (content : List UInt8) (t : RtpThread) (m : Nat) :
    ((List.range m).map (datagramAt codec n content t)).filterMap Datagram.audioPayload =
      ((List.replicate n (frames codec content)).flatten).take m := by
  rw [frames_repeated, ← List.map_take, List.take_range, List.filterMap_map]
  induction m with
  | zero => simp
  | succ m ih =>
    have next : (Datagram.audioPayload ∘ datagramAt codec n content t) m =
        if m < n * frameCount codec content then
          some (frameAt codec content (m % frameCount codec content))
        else none := datagramAt_payload codec n content t m
    rw [List.range_succ, List.filterMap_append, ih]
    split at next
    next early =>
      rw [List.filterMap_cons_some next, Nat.min_eq_left (Nat.le_of_lt early),
        Nat.min_eq_left early, List.range_succ, List.map_append]
      rfl
    next late =>
      rw [List.filterMap_cons_none next, List.filterMap_nil, List.append_nil,
        Nat.min_eq_right (Nat.not_lt.mp late), Nat.min_eq_right (by omega)]

/-- A thread that starts. -/
structure Starts (t : RtpThread) : Prop where
  pc : t.pc = .top
  numPlay : t.numPlay = 0
  ts : t.ts < 2 ^ 32
  seq : t.rs.seq < 2 ^ 16
  ssrc : t.rs.ssrc < 2 ^ 32

theorem Starts.onAir (starts : Starts t) (codec n : Nat) (content : List UInt8) :
    OnAir codec n content t 0 t := by
  refine ⟨?_, ?_⟩
  · rw [RtpThread.header, headerAt, Nat.add_zero, Nat.zero_mul, Nat.add_zero,
      Nat.mod_eq_of_lt starts.seq, Nat.mod_eq_of_lt starts.ts]
  · rw [starts.pc]
    refine ⟨?_, fun _ => ?_, fun none => ?_⟩
    · rw [starts.numPlay]
      exact Nat.zero_le _
    · rw [starts.numPlay, Nat.zero_mul]
    · rw [← none, starts.numPlay, Nat.zero_mul]

/-- The datagrams of a run, in order. -/
theorem run_onAir (small : codec < 128) (bound : n < 2 ^ 8) (starts : Starts t)
    (quiet : ∀ env ∈ envs, Quiet n content env) :
    OnAir codec n content t (run codec t envs).2.length (run codec t envs).1 ∧
      (run codec t envs).2 =
        (List.range (run codec t envs).2.length).map (datagramAt codec n content t) := by
  have rule := Mealy.outputs_rule (fun _ _ _ => step_onAir small bound) (starts.onAir codec n content)
    quiet
  rw [Nat.zero_add, ← List.range_eq_range'] at rule
  exact rule

/-- The steps that a run leaves. -/
theorem run_left (small : codec < 128) (bound : n < 2 ^ 8) (starts : Starts t)
    (quiet : ∀ env ∈ envs, Quiet n content env) :
    stepsLeft codec n content (run codec t envs).1 =
      n * (frameCount codec content + 3) - envs.length := by
  have start : stepsLeft codec n content t = n * (frameCount codec content + 3) := by
    rw [stepsLeft, starts.pc, starts.numPlay]
    rfl
  rw [← start]
  refine Mealy.measure_rule (fun s => ∃ m, OnAir codec n content t m s) (stepsLeft codec n content)
    ?_ ⟨0, starts.onAir codec n content⟩ quiet
  rintro s env ⟨m, onAir⟩ quiet
  exact ⟨⟨_, (step_onAir small bound onAir quiet).1⟩, step_left bound onAir quiet⟩

/-- A thread with no steps left has played the file often enough. -/
theorem OnAir.done (onAir : OnAir codec n content t₀ m t) (none : stepsLeft codec n content t = 0) :
    t.numPlay = n ∧ n * frameCount codec content ≤ m := by
  obtain ⟨-, place⟩ := onAir
  rw [stepsLeft] at none
  cases pc : t.pc with
  | top =>
    rw [pc] at place none
    obtain ⟨le, -, full⟩ := place
    have done : t.numPlay = n := by
      rcases Nat.mul_eq_zero.mp none with less | none
      · exact Nat.le_antisymm le (Nat.sub_eq_zero_iff_le.mp less)
      · cases none
    exact ⟨done, full done⟩
  | playing rest =>
    rw [pc] at none
    cases Nat.add_eq_zero_iff.mp none |>.2
  | closing =>
    rw [pc] at none
    cases Nat.add_eq_zero_iff.mp none |>.2
  | returned =>
    rw [pc] at place
    exact place.elim

theorem OnAir.numPlay_le (onAir : OnAir codec n content t₀ m t) : t.numPlay ≤ n := by
  obtain ⟨-, place⟩ := onAir
  cases pc : t.pc with
  | top =>
    rw [pc] at place
    exact place.1
  | playing rest =>
    rw [pc] at place
    exact Nat.le_of_lt place.1
  | closing =>
    rw [pc] at place
    exact Nat.le_of_lt place.1
  | returned =>
    rw [pc] at place
    exact place.elim

/-! ## The clock -/

/-- The datagrams are whole packets; the one number `k` has the header number `k`. -/
def Stamped (codec : Nat) (t : RtpThread) (datagrams : List Datagram) : Prop :=
  ∀ k d, datagrams[k]? = some d → ∃ packet payload,
    d.bytes = packet.map some ∧ rtpDecode packet = some (t.headerAt codec k, payload)

theorem datagramAt_decode (small : codec < 128) (ssrc : t.rs.ssrc < 2 ^ 32) (n : Nat)
    (content : List UInt8) (k : Nat) : ∃ packet payload,
      (datagramAt codec n content t k).bytes = packet.map some ∧
        rtpDecode packet = some (t.headerAt codec k, payload) := by
  have decoded := rtpDecode_bytes (t.headerAt codec k) small
    (Nat.mod_lt _ (by decide)) (Nat.mod_lt _ (by decide)) ssrc
  unfold datagramAt
  split
  · refine ⟨_, _, ?_, decoded (frameAt codec content (k % frameCount codec content))⟩
    rw [List.map_append]
    rfl
  · refine ⟨_, _, ?_, decoded []⟩
    rw [List.append_nil]
    rfl

/-! ## The flags -/

/-- The datagrams and the steps that a flag leaves to the thread. -/
def lastSteps (t : RtpThread) : Nat × Nat :=
  match t.pc with
  | .top => (1, 3)
  | .playing _ => (1, 2)
  | .closing => (0, 1)
  | .returned => (0, 0)

theorem step_flagged (codec : Nat) (t : RtpThread) (flagged : env.flagged = true) :
    (t.step codec env).2.toList.length + (lastSteps (t.step codec env).1).1 ≤ (lastSteps t).1 ∧
      (lastSteps (t.step codec env).1).2 ≤ (lastSteps t).2 - 1 := by
  have result := threadStep_cases codec t env
  generalize (t.step codec env).1 = t', (t.step codec env).2 = o at result ⊢
  cases result with
  | silence pc =>
    rw [checkFlags, flagged, lastSteps, lastSteps, pc]
    exact ⟨Nat.le_refl 1, Nat.zero_le _⟩
  | lost pc =>
    rw [lastSteps, lastSteps, pc]
    exact ⟨Nat.zero_le _, Nat.zero_le _⟩
  | opened pc =>
    rw [lastSteps, lastSteps, pc]
    exact ⟨Nat.le_refl _, Nat.le_refl _⟩
  | frame pc long unflagged =>
    rw [flagged] at unflagged
    cases unflagged
  | cut pc =>
    rw [lastSteps, lastSteps, pc]
    exact ⟨Nat.le_refl _, Nat.le_refl _⟩
  | finished pc =>
    rw [lastSteps, lastSteps, pc]
    exact ⟨Nat.zero_le _, Nat.le_refl _⟩
  | closed pc =>
    rw [checkFlags, flagged, lastSteps, lastSteps, pc]
    exact ⟨Nat.zero_le _, Nat.zero_le _⟩
  | returned pc =>
    rw [lastSteps, pc]
    exact ⟨Nat.zero_le _, Nat.zero_le _⟩

/-- Once a flag is set, at most one datagram follows, and the thread returns. -/
theorem run_flagged (codec : Nat) (t : RtpThread) (flagged : ∀ env ∈ envs, env.flagged = true) :
    (run codec t envs).2.length + (lastSteps (run codec t envs).1).1 ≤ (lastSteps t).1 ∧
      (lastSteps (run codec t envs).1).2 ≤ (lastSteps t).2 - envs.length := by
  induction envs generalizing t with
  | nil => exact ⟨Nat.le_of_eq (Nat.zero_add _), Nat.le_refl _⟩
  | cons env envs ih =>
    obtain ⟨sent, steps⟩ := step_flagged codec t (flagged env List.mem_cons_self)
    obtain ⟨sent', steps'⟩ := ih (t.step codec env).1 fun env mem =>
      flagged env (List.mem_cons_of_mem _ mem)
    rw [run] at sent' steps' ⊢
    rw [Mealy.run_cons]
    show (List.length (_ ++ _)) + (lastSteps (Mealy.run _ _ envs).1).1 ≤ _ ∧ _
    rw [List.length_append, List.length_cons]
    exact ⟨by omega, steps'.trans (by omega)⟩

theorem lastSteps_le (t : RtpThread) : (lastSteps t).1 ≤ 1 ∧ (lastSteps t).2 ≤ 3 := by
  rw [lastSteps]
  cases t.pc with
  | top => exact ⟨Nat.le_refl _, Nat.le_refl _⟩
  | playing rest => exact ⟨Nat.le_refl _, Nat.le_succ _⟩
  | closing => exact ⟨Nat.zero_le _, by decide⟩
  | returned => exact ⟨Nat.zero_le _, Nat.zero_le _⟩

theorem returned_of_lastSteps (none : (lastSteps t).2 = 0) : t.pc = .returned := by
  rw [lastSteps] at none
  cases pc : t.pc with
  | returned => rfl
  | top => rw [pc] at none; cases none
  | playing rest => rw [pc] at none; cases none
  | closing => rw [pc] at none; cases none

/-! ## The stream -/

/-- While the file can be read, `max_play` is `n` and no flag is set, the datagrams run on one clock
and their audio is the file, repeated: in every run so much of it as there are datagrams, and after
enough steps `n` times all of it. When a flag is set, whatever was before, at most one datagram
follows, and three steps later the thread has returned. -/
theorem stream_repeats (small : codec < 128) (bound : n < 2 ^ 8) (starts : Starts t) :
    (∀ envs, (∀ env ∈ envs, Quiet n content env) →
      Stamped codec t (run codec t envs).2 ∧
      (run codec t envs).2.filterMap Datagram.audioPayload =
        ((List.replicate n (frames codec content)).flatten).take (run codec t envs).2.length ∧
      (run codec t envs).1.numPlay ≤ n ∧
      (n * (frameCount codec content + 3) ≤ envs.length →
        (run codec t envs).2.filterMap Datagram.audioPayload =
          (List.replicate n (frames codec content)).flatten ∧
        (run codec t envs).1.numPlay = n)) ∧
    ∀ before stop, (∀ env ∈ stop, env.flagged = true) →
      (run codec (run codec t before).1 stop).2.length ≤ 1 ∧
      (3 ≤ stop.length → (run codec (run codec t before).1 stop).1.pc = .returned) := by
  refine ⟨fun envs quiet => ?_, fun before stop flagged => ?_⟩
  · obtain ⟨onAir, datagrams⟩ := run_onAir small bound starts quiet
    have left := run_left small bound starts quiet
    have audio := audio_first codec n content t (run codec t envs).2.length
    rw [← datagrams] at audio
    refine ⟨?_, audio, onAir.numPlay_le, fun enough => ?_⟩
    · intro k d at_
      rw [datagrams, List.getElem?_map, Option.map_eq_some_iff] at at_
      obtain ⟨k', found, rfl⟩ := at_
      obtain ⟨_, rfl⟩ := List.getElem?_eq_some_iff.mp found
      rw [List.getElem_range]
      exact datagramAt_decode small starts.ssrc n content k
    · obtain ⟨done, full⟩ := onAir.done (left.trans (Nat.sub_eq_zero_of_le enough))
      refine ⟨audio.trans (List.take_of_length_le ?_), done⟩
      rwa [frames_repeated, List.length_map, List.length_range]
  · obtain ⟨sent, steps⟩ := run_flagged codec (run codec t before).1 flagged
    obtain ⟨sentMost, stepsMost⟩ := lastSteps_le (run codec t before).1
    exact ⟨by omega, fun enough => returned_of_lastSteps (by omega)⟩

theorem stream_repeats_twice :
    (0 < 128 ∧ 2 < 2 ^ 8 ∧ Starts firstThread) ∧
    (∀ envs, (∀ env ∈ envs, Quiet 2 (List.replicate 400 7) env) →
      Stamped 0 firstThread (run 0 firstThread envs).2 ∧
      (run 0 firstThread envs).2.filterMap Datagram.audioPayload =
        ((List.replicate 2 (frames 0 (List.replicate 400 7))).flatten).take
          (run 0 firstThread envs).2.length ∧
      (run 0 firstThread envs).1.numPlay ≤ 2 ∧
      (2 * (frameCount 0 (List.replicate 400 7) + 3) ≤ envs.length →
        (run 0 firstThread envs).2.filterMap Datagram.audioPayload =
          (List.replicate 2 (frames 0 (List.replicate 400 7))).flatten ∧
        (run 0 firstThread envs).1.numPlay = 2)) ∧
    ∀ before stop, (∀ env ∈ stop, env.flagged = true) →
      (run 0 (run 0 firstThread before).1 stop).2.length ≤ 1 ∧
      (3 ≤ stop.length → (run 0 (run 0 firstThread before).1 stop).1.pc = .returned) :=
  have starts : Starts firstThread := ⟨rfl, rfl, by decide, by decide, by decide⟩
  ⟨⟨by decide, by decide, starts⟩, stream_repeats (by decide) (by decide) starts⟩

end Autodialer
