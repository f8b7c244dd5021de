import Autodialer.CallEnd
import Autodialer.Uri

/-!
# The URI of a gateway

`pull_groups` pastes the columns of a gateway row into a URI string, without escaping.
`uri_decode` takes the string apart, `auth_handler` and `call_alloc` take the columns from
its parts, and `call_alloc` pastes them into the URI that is called.

* `roundTrip_iff`: the columns and the number that is called come back unchanged exactly
  if the user, the password and the number have none of the characters that separate the
  parts of a URI.
-/

namespace Autodialer

/-- The columns of a row of `gateway`; the texts are empty where the column is null. -/
structure GatewayColumns where
  id : Nat
  ip : List Char
  port : List Char
  user : List Char
  password : List Char
  dialPrefix : List Char
  codec : List Char
deriving DecidableEq, Repr

/-- `parseInt` -/
def parseInt (s : List Char) : Int := toInt32 (plU32 s)

/-! ## What the code does with it -/

/-- `uristr` of `pull_groups`. -/
def uriPieces (row : GatewayColumns) : List (List Char) :=
  let ending := ["@".toList, row.ip, ":".toList, row.port, ";prefix=".toList, row.dialPrefix,
    ";codec=".toList] ++ printInt (parseInt row.codec)
  if 0 < row.user.length ∧ 0 < row.password.length then
    ["sip:".toList, row.user, ":".toList, row.password] ++ ending
  else if 0 < row.user.length then ["sip:".toList, row.user] ++ ending
  else ["sip:autodialer".toList] ++ ending

def uristr (row : GatewayColumns) : List Char := reSnprintf 1024 (uriPieces row)

/-- `auth_handler`: `pl_strdup` fails on a `struct pl` without a pointer. -/
def authHandler (gateway : Uri) : Option (List Char × List Char) :=
  match gateway.user, gateway.password with
  | some user, some password => some (user, password)
  | _, _ => none

/-- The codec of `call_alloc`, for the first leg of a call. -/
def gatewayCodec (gateway : Uri) : Nat :=
  match uriParamGet gateway.params "codec".toList with
  | some value => plU32 value % 2 ^ 8
  | none => 0

/-- The prefix of `call_alloc`; without the parameter its length stays 0. -/
def gatewayPrefix (gateway : Uri) : List Char :=
  (uriParamGet gateway.params "prefix".toList).getD []

/-- `remote` of `call_alloc`. -/
def remoteUri (tel : List Char) (gateway : Uri) : List Char :=
  if (gatewayPrefix gateway).isEmpty then
    (["sip:".toList, tel, "@".toList, gateway.host, ":".toList] ++ printInt gateway.port).flatten
  else
    (["sip:".toList, gatewayPrefix gateway, tel, "@".toList, gateway.host, ":".toList] ++
      printInt gateway.port).flatten

/-! ## The round trip -/

/-- A row of the gateway table: an address, a port, and digits where there are numbers. -/
structure GatewayColumns.Valid (row : GatewayColumns) : Prop where
  hasUser : row.user ≠ []
  isHost : HostName row.ip
  isPort : PortText row.port
  isPrefix : ∀ c ∈ row.dialPrefix, c.isDigit = true
  isCodec : ∀ c ∈ row.codec, c.isDigit = true
  codecBound : Nat.ofDigitChars 10 row.codec 0 ≤ 127
  fits : (uriPieces row).flatten.length < 1024

/-- Everything in the row, and the number `tel`, comes back from the URI strings. -/
def RoundTrip (row : GatewayColumns) (tel : List Char) : Prop :=
  ∃ gateway, uriDecode (uristr row) = some gateway ∧
    authHandler gateway = some (row.user, row.password) ∧
    gatewayCodec gateway = Nat.ofDigitChars 10 row.codec 0 ∧
    gatewayPrefix gateway = row.dialPrefix ∧
    ∃ remote, uriDecode (remoteUri tel gateway) = some remote ∧
      remote.user = some (row.dialPrefix ++ tel) ∧ remote.host = row.ip ∧
      remote.port = Nat.ofDigitChars 10 row.port 0

variable {row : GatewayColumns} {tel : List Char}

theorem printInt_nat (n : Nat) : (printInt n).flatten = Nat.toDigits 10 n := by
  rw [printInt, if_neg (Int.not_lt.mpr (Int.natCast_nonneg n))]
  simp

theorem toDigits_digits (n : Nat) : ∀ c ∈ Nat.toDigits 10 n, c.isDigit = true := fun _ mem =>
  Nat.isDigit_of_mem_toDigits (by decide) (by decide) mem

theorem not_mem_digits {s : List Char} {x : Char} (digits : ∀ c ∈ s, c.isDigit = true)
    (other : x.isDigit = false) : x ∉ s := by
  intro mem
  rw [digits x mem] at other
  cases other

/-- A codec from 0 to 127 is printed as its decimal digits. -/
theorem parseInt_codec (valid : row.Valid) :
    parseInt row.codec = (Nat.ofDigitChars 10 row.codec 0 : Nat) := by
  have bound := valid.codecBound
  rw [parseInt, plU32_digits valid.isCodec, toInt32, Int.bmod_def]
  omega

/-- The part of the string after the port. -/
def uriTail (row : GatewayColumns) : List Char :=
  ';' :: ("prefix".toList ++ '=' :: (row.dialPrefix ++
    ';' :: ("codec".toList ++ '=' :: Nat.toDigits 10 (Nat.ofDigitChars 10 row.codec 0))))

theorem uristr_eq (valid : row.Valid) : ∃ sep,
    (sep = [] ∧ row.password = [] ∨ sep = [':']) ∧
    uristr row = "sip".toList ++ ':' :: (row.user ++ (sep ++ (row.password ++
      '@' :: (row.ip ++ ':' :: row.port ++ uriTail row)))) := by
  rw [uristr, reSnprintf_eq valid.fits]
  have hasUser : 0 < row.user.length := List.length_pos_iff.mpr valid.hasUser
  cases noPassword : row.password with
  | nil =>
    refine ⟨[], .inl ⟨rfl, rfl⟩, ?_⟩
    simp [uriPieces, hasUser, noPassword, uriTail, printInt_nat, parseInt_codec valid]
  | cons c password =>
    refine ⟨[':'], .inr rfl, ?_⟩
    simp [uriPieces, hasUser, noPassword, uriTail, printInt_nat, parseInt_codec valid]

/-- What the code reads back from the parameters. -/
theorem params_read (gateway : Uri) (valid : row.Valid) (isTail : gateway.params = uriTail row) :
    gatewayPrefix gateway = row.dialPrefix ∧
      gatewayCodec gateway = Nat.ofDigitChars 10 row.codec 0 := by
  have noEqual := not_mem_digits valid.isPrefix (x := '=') rfl
  have noSemi := not_mem_digits valid.isPrefix (x := ';') rfl
  have codecDigits := toDigits_digits (Nat.ofDigitChars 10 row.codec 0)
  have isCodec : uriParamGet (uriTail row) "codec".toList =
      some (Nat.toDigits 10 (Nat.ofDigitChars 10 row.codec 0)) := by
    have passed := uriParamGet_next 'c' 'p' "odec".toList ("refix".toList ++ '=' :: row.dialPrefix)
      (';' :: ("codec".toList ++ '=' :: Nat.toDigits 10 (Nat.ofDigitChars 10 row.codec 0)))
      ⟨by decide, by decide⟩ (by decide) (by simpa using noSemi)
    have read := uriParamGet_first "codec".toList
      (Nat.toDigits 10 (Nat.ofDigitChars 10 row.codec 0)) [] ⟨by decide, by decide⟩
      (not_mem_digits codecDigits rfl) (not_mem_digits codecDigits rfl) (by simp)
    rw [List.append_nil] at read
    rw [← read]
    simpa [uriTail] using passed
  constructor
  · rw [gatewayPrefix, isTail, uriTail, uriParamGet_first _ _ _ ⟨by decide, by decide⟩ noEqual noSemi
      (by intro c head; cases head; rfl)]
    rfl
  · have bound := valid.codecBound
    rw [gatewayCodec, isTail, isCodec]
    show plU32 (Nat.toDigits 10 _) % 2 ^ 8 = _
    rw [plU32_digits codecDigits, Nat.ofDigitChars_ten_toDigits]
    omega

/-- The URI that is called, taken apart again. -/
theorem remoteUri_decode {gateway : Uri} (valid : row.Valid) (isHost : gateway.host = row.ip)
    (isPort : gateway.port = Nat.ofDigitChars 10 row.port 0)
    (isPrefix : gatewayPrefix gateway = row.dialPrefix) (clean : CleanUser (row.dialPrefix ++ tel) []) :
    uriDecode (remoteUri tel gateway) = some {
      scheme := "sip".toList, user := some (row.dialPrefix ++ tel), password := some [],
      host := row.ip, port := Nat.ofDigitChars 10 row.port 0, params := [], headers := [] } := by
  have printed : PortText (Nat.toDigits 10 (Nat.ofDigitChars 10 row.port 0)) := by
    refine ⟨toDigits_digits _, ?_, ?_⟩
    · rw [Nat.ofDigitChars_ten_toDigits]
      exact valid.isPort.positive
    · rw [Nat.ofDigitChars_ten_toDigits]
      exact valid.isPort.bound
  have decoded := uriDecode_append [] clean (.inl ⟨rfl, rfl⟩) valid.isHost printed
    (by simp) (by simp)
  rw [Nat.ofDigitChars_ten_toDigits] at decoded
  rw [← decoded]
  congr 1
  cases noPrefix : row.dialPrefix with
  | nil => simp [remoteUri, isPrefix, noPrefix, isHost, isPort, printInt_nat]
  | cons c dialPrefix => simp [remoteUri, isPrefix, noPrefix, isHost, isPort, printInt_nat]

theorem clean_number (valid : row.Valid) (plain : ':' ∉ tel ∧ '@' ∉ tel) :
    CleanUser (row.dialPrefix ++ tel) [] := by
  refine ⟨⟨?_, ?_⟩, by simp, by simp⟩
  · rw [List.mem_append, not_or]
    exact ⟨not_mem_digits valid.isPrefix rfl, plain.1⟩
  · rw [List.mem_append, not_or]
    exact ⟨not_mem_digits valid.isPrefix rfl, plain.2⟩

/-- What comes back has no separators. -/
theorem RoundTrip.clean (trip : RoundTrip row tel) :
    CleanUser row.user row.password ∧ ':' ∉ tel ∧ '@' ∉ tel := by
  obtain ⟨gateway, decoded, auth, -, -, remote, decodedRemote, isNumber, -, -⟩ := trip
  unfold authHandler at auth
  split at auth
  next user password isUser isPassword =>
    cases auth
    obtain ⟨password', isPassword', clean⟩ := uriDecode_clean decoded isUser
    cases isPassword.symm.trans isPassword'
    obtain ⟨_, -, cleanNumber⟩ := uriDecode_clean decodedRemote isNumber
    refine ⟨clean, fun mem => ?_, fun mem => ?_⟩
    · exact cleanNumber.user.1 (List.mem_append_right _ mem)
    · exact cleanNumber.user.2 (List.mem_append_right _ mem)
  next => cases auth

/-- What has no separators comes back. -/
theorem roundTrip_of_clean (valid : row.Valid) (clean : CleanUser row.user row.password)
    (plain : ':' ∉ tel ∧ '@' ∉ tel) : RoundTrip row tel := by
  obtain ⟨sep, shape, isUri⟩ := uristr_eq valid
  have noHeaders : '?' ∉ uriTail row := by
    have inPrefix := not_mem_digits valid.isPrefix (x := '?') rfl
    have inCodec := not_mem_digits (toDigits_digits (Nat.ofDigitChars 10 row.codec 0))
      (x := '?') rfl
    simp [uriTail, inPrefix, inCodec]
  have decoded := uriDecode_append (uriTail row) clean shape valid.isHost valid.isPort
    (by intro c head; cases head; rfl) noHeaders
  rw [← isUri] at decoded
  obtain ⟨isPrefix, isCodec⟩ := params_read {
    scheme := "sip".toList, user := some row.user, password := some row.password, host := row.ip,
    port := Nat.ofDigitChars 10 row.port 0, params := uriTail row, headers := [] } valid rfl
  exact ⟨_, decoded, rfl, isCodec, isPrefix, _,
    remoteUri_decode valid rfl rfl isPrefix (clean_number valid plain), rfl, rfl, rfl⟩

/-- The columns and the number come back exactly if none of the separators is in the user, the
password or the number. -/
theorem roundTrip_iff (valid : row.Valid) :
    RoundTrip row tel ↔ CleanUser row.user row.password ∧ ':' ∉ tel ∧ '@' ∉ tel :=
  ⟨RoundTrip.clean, fun ⟨clean, plain⟩ => roundTrip_of_clean valid clean plain⟩

/-- A gateway with a password. -/
def trunkRow : GatewayColumns where
  id := 1
  ip := "10.0.0.9".toList
  port := "5060".toList
  user := "dialer".toList
  password := "s3cret".toList
  dialPrefix := "88".toList
  codec := "8".toList

/-- The same gateway with the sign before the host in its password. -/
def atPassword : GatewayColumns := { trunkRow with password := "s3cret@".toList }

theorem trunkRow_valid : trunkRow.Valid where
  hasUser := by decide
  isHost := ⟨by decide, by decide⟩
  isPort := ⟨by decide, by decide, by decide⟩
  isPrefix := by decide
  isCodec := by decide
  codecBound := by decide
  fits := by decide

theorem roundTrip_iff_trunk : trunkRow.Valid ∧
    (RoundTrip trunkRow "1700".toList ↔ CleanUser trunkRow.user trunkRow.password ∧
      ':' ∉ "1700".toList ∧ '@' ∉ "1700".toList) :=
  ⟨trunkRow_valid, roundTrip_iff trunkRow_valid⟩

/-- The password is cut at the sign, and the rest of it becomes a part of the host. -/
theorem password_cut : ¬ ∀ row tel, row.Valid → RoundTrip row tel := by
  intro always
  have valid : atPassword.Valid :=
    { trunkRow_valid with fits := by decide }
  exact absurd (always atPassword "1700".toList valid).clean.1.noAt (by decide)

/-! ## The rows that `pull_groups` reads -/

/-- What the dialer uses of a URI. -/
def Uri.toSipUri (uri : Uri) : SipUri where
  user := uri.user.map String.ofList
  codec := (uriParamGet uri.params "codec".toList).map plU32

/-- The codec that `callAlloc` takes from it. -/
theorem toSipUri_codec (uri : Uri) : uri.toSipUri.codec.getD 0 % 2 ^ 8 = gatewayCodec uri := by
  unfold Uri.toSipUri gatewayCodec
  cases uriParamGet uri.params "codec".toList <;> rfl

def GatewayColumns.uriString (row : GatewayColumns) : String := String.ofList (uristr row)

/-- A row with the URI string built from its columns and what that string decodes to. -/
def GatewayColumns.toRow (row : GatewayColumns) : GatewayRow where
  id := row.id
  uristr := row.uriString
  sipUri := (uriDecode (uristr row)).map Uri.toSipUri

/-- The URI of a blank row, `sip:autodialer@:;prefix=;codec=0`, decodes to one without a user. -/
example : (GatewayColumns.mk 1 [] [] [] [] [] []).toRow.sipUri.map SipUri.user = some none := by
  decide

end Autodialer
