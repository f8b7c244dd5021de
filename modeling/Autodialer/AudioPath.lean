import Autodialer.CallSteps
import Autodialer.Print
import Autodialer.RtpThread

/-!
# The audio file of a call: the path that is checked and the path that is played

`start_fake_calling` checks a file with the extension `.wav`; `rtpThread` makes of its path that
of the file for the codec. Both cut at the first dot, the one the file name and the other the
whole path.

* `dialPlaced_audio`: what a placed call plays, or that it is dropped.
* `playFile_checked`, `playFile_short`: the two paths differ in their extension only, if the
  directory has no dot; else the one that is played is cut in the directory.
* `step_audio`: the path stays the same as long as the call lives.
* `checked_played_iff`: the file that is checked is the file that is played.
-/

namespace Autodialer

variable {s s' : Sys} {d : DestId} {c : CallId} {dest : Destination} {call call' : Call}
  {camp : Campaign} {now : Time} {env : DialEnv} {audioPath fileName : String}

/-- The path that `rtpThread` prints into `audio`. Without a dot in `call->audio` the length of the
first piece underflows, and nothing is printed. -/
def playFile (codec : Nat) (audio : String) : String :=
  if '.' ∈ audio.toList then
    String.ofList (reSnprintf 512
      [audio.toList.takeWhile (· ≠ '.'), (frameFormat codec).extension.toList])
  else ""

/-- The path of the file in the directory that has this extension and, up to the first dot, this
name. -/
def audioName (audioPath fileName extension : String) : String :=
  audioPath ++ "/" ++ String.ofList (fileName.toList.takeWhile (· ≠ '.')) ++ extension

theorem audioName_toList (audioPath fileName extension : String) :
    (audioName audioPath fileName extension).toList = audioPath.toList ++
      ('/' :: (fileName.toList.takeWhile (· ≠ '.') ++ extension.toList)) := by
  simp [audioName]

theorem audioName_length (audioPath fileName extension : String) :
    (audioName audioPath fileName extension).toList.length = audioPath.toList.length +
      ((fileName.toList.takeWhile (· ≠ '.')).length + extension.toList.length + 1) := by
  rw [audioName_toList, List.length_append, List.length_cons, List.length_append]

theorem audioFile_eq (audioPath fileName : String) : audioFile audioPath fileName =
    if '.' ∈ fileName.toList then some (audioName audioPath fileName ".wav") else none := rfl

/-! ## Cutting at the first dot -/

theorem takeWhile_dot {front back : List Char} (plain : '.' ∉ front) :
    (front ++ '.' :: back).takeWhile (· ≠ '.') = front := by
  rw [List.takeWhile_append_of_pos]
  · simp
  · intro x mem
    rw [decide_eq_true_iff]
    exact fun isDot => plain (isDot ▸ mem)

theorem not_mem_takeWhile (name : List Char) : '.' ∉ name.takeWhile (· ≠ '.') := by
  intro mem
  have other := List.all_eq_true.mp List.all_takeWhile _ mem
  rw [decide_eq_true_iff] at other
  exact other rfl

/-- The cut of a text with a dot in it ends before the text does. -/
theorem length_takeWhile_append {front : List Char} (dot : '.' ∈ front) (back : List Char) :
    ((front ++ back).takeWhile (· ≠ '.')).length < front.length := by
  induction front with
  | nil => cases dot
  | cons x front ih =>
    rw [List.cons_append]
    rcases eq_or_ne x '.' with rfl | other
    · rw [List.takeWhile_cons_of_neg (by simp)]
      exact Nat.succ_pos _
    · rw [List.takeWhile_cons_of_pos (by simpa using other), List.length_cons, List.length_cons]
      have dot' : '.' ∈ front := (List.mem_cons.mp dot).resolve_left other.symm
      exact Nat.succ_lt_succ (ih dot')

theorem extension_length (codec : Nat) : (frameFormat codec).extension.toList.length = 5 := by
  unfold frameFormat
  split
  · rfl
  · split <;> rfl

/-- Where the directory has no dot the thread cuts the extension off and nothing else. -/
theorem playFile_checked {codec : Nat} (plain : '.' ∉ audioPath.toList)
    (fits : (audioName audioPath fileName (frameFormat codec).extension).toList.length < 512) :
    playFile codec (audioName audioPath fileName ".wav") =
      audioName audioPath fileName (frameFormat codec).extension := by
  have isCut : (audioName audioPath fileName ".wav").toList =
      (audioPath.toList ++ ('/' :: fileName.toList.takeWhile (· ≠ '.'))) ++ '.' :: "wav".toList := by
    simp [audioName_toList]
  have noDot : '.' ∉ audioPath.toList ++ ('/' :: fileName.toList.takeWhile (· ≠ '.')) := by
    rw [List.mem_append, List.mem_cons]
    rintro (mem | isSlash | mem)
    · exact plain mem
    · cases isSlash
    · exact not_mem_takeWhile _ mem
  have dot : '.' ∈ (audioName audioPath fileName ".wav").toList := by
    rw [isCut]
    simp
  have whole : [audioPath.toList ++ ('/' :: fileName.toList.takeWhile (· ≠ '.')),
      (frameFormat codec).extension.toList].flatten =
        (audioName audioPath fileName (frameFormat codec).extension).toList := by
    rw [audioName_toList]
    simp
  rw [playFile, if_pos dot, isCut, takeWhile_dot noDot, reSnprintf_eq (by rwa [whole]), whole,
    String.ofList_toList]

/-- Where it has one the thread's path is too short. -/
theorem playFile_short {codec : Nat} (dot : '.' ∈ audioPath.toList)
    (fits : (audioName audioPath fileName (frameFormat codec).extension).toList.length < 512) :
    playFile codec (audioName audioPath fileName ".wav") ≠
      audioName audioPath fileName (frameFormat codec).extension := by
  intro same
  have long := congrArg (fun path => path.toList.length) same
  have dotted : '.' ∈ (audioName audioPath fileName ".wav").toList := by
    rw [audioName_toList]
    exact List.mem_append_left _ dot
  have short := length_takeWhile_append dot
    ('/' :: (fileName.toList.takeWhile (· ≠ '.') ++ ".wav".toList))
  rw [← audioName_toList] at short
  rw [audioName_length, extension_length] at fits
  have flat : [(audioName audioPath fileName ".wav").toList.takeWhile (· ≠ '.'),
      (frameFormat codec).extension.toList].flatten.length < 512 := by
    rw [List.flatten_cons, List.flatten_singleton, List.length_append, extension_length]
    omega
  rw [playFile, if_pos dotted, reSnprintf_eq flat, String.toList_ofList, List.flatten_cons,
    List.flatten_singleton, List.length_append, extension_length, audioName_length,
    extension_length] at long
  omega

/-! ## The dial loop -/

theorem dialTarget_file {access : Bool} (file : camp.fileName = some fileName) :
    dialTarget s camp d c access =
      if '.' ∈ fileName.toList ∧ access = true then
        pure (s.setCall c fun call =>
          { call with audio := some (audioName s.audioPath fileName ".wav") })
      else dropCall (s.setCall c fun call =>
        { call with audio := audioFile s.audioPath fileName }) d c := by
  simp only [dialTarget, file, audioFile_eq]
  rcases em ('.' ∈ fileName.toList) with dot | none
  · simp [dot]
  · simp [none]

/-- A placed call is kept if its file name has a dot and the file is found. -/
theorem dialPlaced_owner (live : s.book.dests.get d = some dest) (has : dest.call = some c)
    (liveCamp : s.book.camps.get dest.cp = some camp) (file : camp.fileName = some fileName)
    (run : dialPlaced s now env d c = .ok s') : s'.book.owner d =
      if '.' ∈ fileName.toList ∧ env.access = true then some c else none := by
  obtain ⟨camp', f, liveCamp', -, -, outcome⟩ := dialPlaced_cases live has run
  cases liveCamp.symm.trans liveCamp'
  have target : hasTarget s.audioPath camp env.access = true ↔
      '.' ∈ fileName.toList ∧ env.access = true := by
    rw [hasTarget, file]
    show ((audioFile s.audioPath fileName).isSome && env.access) = true ↔ _
    rw [audioFile_eq, Bool.and_eq_true]
    split <;> simp [*]
  rcases outcome with ⟨found, call', -, rfl⟩ | ⟨missing, media, -, rfl⟩
  · rw [if_pos (target.mp found)]
    exact (congrFun (owner_setDest live _) d).trans ((Function.update_self ..).trans has)
  · rw [if_neg fun kept => by rw [target.mpr kept] at missing; cases missing]
    exact (congrFun (owner_setDest live _) d).trans (Function.update_self ..)

/-- What a call that is kept plays: the file whose path was checked. -/
theorem dialPlaced_audio (live : s.book.dests.get d = some dest) (has : dest.call = some c)
    (liveCall : s.media.calls.get c = some call) (liveCamp : s.book.camps.get dest.cp = some camp)
    (file : camp.fileName = some fileName) (kept : '.' ∈ fileName.toList ∧ env.access = true)
    (run : dialPlaced s now env d c = .ok s') : s'.media.calls.get c =
      some { call with audio := some (audioName s.audioPath fileName ".wav") } := by
  generalize tried : (s.setDest d fun dest =>
    { dest with tryCount := (dest.tryCount + 1) % 2 ^ 8, lastTry := now }) = t at run
  have liveTried : t.book.dests.get d =
      some { dest with tryCount := (dest.tryCount + 1) % 2 ^ 8, lastTry := now } := by
    simp [← tried, Sys.setDest, live]
  have sameMedia : t.media = s.media := by rw [← tried]; rfl
  have samePath : t.audioPath = s.audioPath := by rw [← tried]; rfl
  have sameCamp : t.book.camps.get dest.cp = some camp := by rw [← tried]; exact liveCamp
  simp only [dialPlaced, tried, Sys.loadDest, Sys.loadCamp, load, liveTried, sameCamp,
    Fallible.get?_some, Fallible.ok_bind, dialTarget_file file, samePath, if_pos kept,
    pure_bind] at run
  have liveTarget : (t.setCall c fun call =>
    { call with audio := some (audioName s.audioPath fileName ".wav") }).book.dests.get d = _ :=
      liveTried
  simp only [liveTarget, Fallible.get?_some, Fallible.ok_bind, has] at run
  rw [updateCallStatus_media run]
  show (t.media.setCall c _).calls.get c = _
  rw [calls_setCall, Heap.get_modify_self, sameMedia, liveCall]
  rfl

/-! ## Until the thread starts -/

theorem CallWrite.audio {e : Event} (write : CallWrite s c call e call') :
    call'.audio = call.audio := by
  cases write <;> rfl

/-- The path stays what was printed into it, as long as the call lives. -/
theorem step_audio {ans : CallId → Addr → Prop} {e : Event} (inv : Inv ans s)
    (step : dialer.step s e s') (live : s.media.calls.get c = some call)
    (live' : s'.media.calls.get c = some call') : call'.audio = call.audio := by
  rcases step_calls inv step live' with ⟨before, was, write⟩ | ⟨new, -⟩
  · cases live.symm.trans was
    exact write.audio
  · rw [s.media.calls.fresh c new] at live
    cases live

/-! ## The two paths -/

/-- The call is kept, and so it plays the file that was checked, under the extension of its
codec. -/
def PlaysChecked (s' : Sys) (d : DestId) (c : CallId) (audioPath fileName : String) : Prop :=
  s'.book.owner d = some c → ∃ call audio, s'.media.calls.get c = some call ∧
    call.audio = some audio ∧ audio = audioName audioPath fileName ".wav" ∧
    ∀ codec, playFile codec audio = audioName audioPath fileName (frameFormat codec).extension

/-- A call that is placed for a campaign with a file name plays the file that was checked, or is
not kept, exactly if the audio directory has no dot in its path, or the file name has none, or the
file is not found. -/
theorem checked_played_iff (live : s.book.dests.get d = some dest) (has : dest.call = some c)
    (liveCall : s.media.calls.get c = some call) (liveCamp : s.book.camps.get dest.cp = some camp)
    (file : camp.fileName = some fileName)
    (fits : ∀ codec, (audioName s.audioPath fileName (frameFormat codec).extension).toList.length < 512)
    (run : dialPlaced s now env d c = .ok s') :
    PlaysChecked s' d c s.audioPath fileName ↔
      ('.' ∈ fileName.toList → env.access = true → '.' ∉ s.audioPath.toList) := by
  have owner := dialPlaced_owner live has liveCamp file run
  rcases em ('.' ∈ fileName.toList ∧ env.access = true) with kept | dropped
  · have audio := dialPlaced_audio live has liveCall liveCamp file kept run
    rw [if_pos kept] at owner
    constructor
    · intro plays _ _ dot
      obtain ⟨call', path, live', isAudio, rfl, same⟩ := plays owner
      exact playFile_short dot (fits 0) (same 0)
    · intro plain _
      exact ⟨_, _, audio, rfl, rfl, fun codec =>
        playFile_checked (plain kept.1 kept.2) (fits codec)⟩
  · rw [if_neg dropped] at owner
    refine iff_of_true (fun kept => ?_) fun dot access => absurd ⟨dot, access⟩ dropped
    cases owner.symm.trans kept

/-- A destination whose call has just been placed. -/
def justPlaced : Destination where
  destId := 1
  dest := some "100"
  call := some 0
  cp := 0

def greetingCampaign : Campaign where
  fileName := some "greeting.mp3"

/-- The call is placed; nothing else has happened yet. -/
def placedSys (audioPath : String) : Sys where
  media := { calls := Heap.empty.alloc {} }
  book := { dests := Heap.empty.alloc justPlaced, camps := Heap.empty.alloc greetingCampaign }
  audioPath := audioPath

theorem greeting_fits (audioPath : String) (short : audioPath.toList.length < 100) (codec : Nat) :
    (audioName audioPath "greeting.mp3" (frameFormat codec).extension).toList.length < 512 := by
  have base : ("greeting.mp3".toList.takeWhile (· ≠ '.')).length = 8 := by decide
  rw [audioName_length, extension_length, base]
  omega

theorem checked_played_iff_greeting : ∃ s', dialPlaced (placedSys "/audio") 100 {} 0 0 = .ok s' ∧
    (PlaysChecked s' 0 0 "/audio" "greeting.mp3" ↔
      ('.' ∈ "greeting.mp3".toList → ({} : DialEnv).access = true → '.' ∉ "/audio".toList)) := by
  have live : (placedSys "/audio").book.dests.get 0 = some justPlaced := rfl
  have liveCamp : (placedSys "/audio").book.camps.get justPlaced.cp = some greetingCampaign := rfl
  have fits := greeting_fits "/audio" (by decide)
  obtain ⟨s', run⟩ : ∃ s', dialPlaced (placedSys "/audio") 100 {} 0 0 = .ok s' := ⟨_, rfl⟩
  have plays := checked_played_iff live rfl rfl liveCamp rfl fits run
  exact ⟨s', run, plays⟩

/-- In a directory with a dot in its path the thread looks for another file. -/
theorem other_file_played : ¬ ∀ (s s' : Sys) (d : DestId) (c : CallId) (dest : Destination)
    (camp : Campaign) (call : Call) (now : Time) (env : DialEnv) (fileName : String),
    s.book.dests.get d = some dest → dest.call = some c → s.media.calls.get c = some call →
    s.book.camps.get dest.cp = some camp → camp.fileName = some fileName →
    (∀ codec, (audioName s.audioPath fileName (frameFormat codec).extension).toList.length < 512) →
    dialPlaced s now env d c = .ok s' → PlaysChecked s' d c s.audioPath fileName := by
  intro always
  have fits := greeting_fits "./audio" (by decide)
  obtain ⟨call, _, -, -, rfl, same⟩ := always (placedSys "./audio") _ 0 0 justPlaced
    greetingCampaign {} 100 {} "greeting.mp3" rfl rfl rfl rfl rfl fits rfl rfl
  exact playFile_short (by decide) (fits 0) (same 0)

end Autodialer
