import Autodialer.Print
import Autodialer.Pull
import Autodialer.Regex

/-!
# Uniform resource identifiers (`uri.c`)

`uri_decode` takes a URI apart, first as one with a user and then as one
without, and `uri_param_get` finds a parameter in its parameter part.

* `uriDecode_append`: the parts of a URI that is put together without separators
  in its user and its password.
* `uriDecode_clean`: no decoded user and no decoded password has one.
* `uriParamGet_first`, `uriParamGet_next`: a parameter and those after it.
-/

namespace Autodialer

/-- `struct uri`. A `struct pl` without a pointer is `none` where it makes a difference. -/
structure Uri where
  scheme : List Char := []
  user : Option (List Char) := none
  password : Option (List Char) := none
  host : List Char := []
  port : Nat := 0
  params : List Char := []
  headers : List Char := []
deriving DecidableEq, Repr

def ipv6Expr : List Char := "\\[[0-9a-f:]+\\][:]*[0-9]*".toList

def hostExpr : List Char := "[^:]+[:]*[0-9]*".toList

/-- `decode_hostport`: the host and the digits of the port. -/
def decodeHostport (hostport : List Char) : Option (List Char × List Char) :=
  match reRegex ipv6Expr hostport with
  | some [host, _, port] => some (host, port)
  | _ =>
    match reRegex hostExpr hostport with
    | some [host, _, port] => some (host, port)
    | _ => none

def userExpr : List Char := "[^:]+:[^@:]*[:]*[^@]*@[^;? ]+[^?]*[^]*".toList

def noUserExpr : List Char := "[^:]+:[^;? ]+[^?]*[^]*".toList

/-- `uri->port` from the digits that were found. -/
def uriPort (port : List Char) : Nat := if port.isEmpty then 0 else plU32 port % 2 ^ 16

/-- The first attempt of `uri_decode`. -/
def uriDecodeUser (pl : List Char) : Option Uri :=
  match reRegex userExpr pl with
  | some [scheme, user, _, password, hostport, params, headers] =>
    (decodeHostport hostport).map fun (host, port) =>
      { scheme := scheme, user := some user, password := some password, host := host,
        port := uriPort port, params := params, headers := headers }
  | _ => none

/-- The second attempt. -/
def uriDecodeNoUser (pl : List Char) : Option Uri :=
  match reRegex noUserExpr pl with
  | some [scheme, hostport, params, headers] =>
    (decodeHostport hostport).map fun (host, port) =>
      { scheme := scheme, host := host, port := uriPort port, params := params,
        headers := headers }
  | _ => none

/-- `uri_decode`, without the address family of the host. -/
def uriDecode (pl : List Char) : Option Uri :=
  match uriDecodeUser pl with
  | some uri => some uri
  | none => uriDecodeNoUser pl

/-- The expression of `uri_param_get`. -/
def uriParamExpr (pname : List Char) : List Char :=
  reSnprintf 128 [";".toList, pname, "[=]*[^;]*".toList]

/-- `uri_param_get` -/
def uriParamGet (pl pname : List Char) : Option (List Char) :=
  match reRegex (uriParamExpr pname) pl with
  | some [_, pvalue] => some pvalue
  | _ => none

/-! ## What the expressions say -/

/-- The characters outside `xs`. -/
def outside (xs : List Char) (c : Char) : Bool := !xs.elem c

theorem exprMatch_outside {xs : List Char} (plain : ∀ x ∈ xs, x.isAlpha = false) (c : Char) :
    exprMatch (xs.map fun x => (x, x)) c.toLower true = outside xs c := by
  rw [exprMatch_chars xs plain, Bool.bne_true, outside]

theorem exprMatch_colon (c : Char) : exprMatch [(':', ':')] c.toLower false = decide (c = ':') := by
  have chars := exprMatch_chars [':'] (by decide) false c
  simpa using chars

/-- A negated class of single characters, none of them a letter. -/
theorem Reads.outside (text xs : List Char) {q : Char} {nmin : Nat} {ep : List Char}
    {items : List RegexItem}
    (opens : ∀ ep p classes, regexAt (text ++ ep) {} p classes =
      regexAt ep { fm := true, ec := true, neg := true, chrv := xs.map fun x => (x, x) } p classes)
    (repeats : repetition q = some (nmin, none)) (plain : ∀ x ∈ xs, x.isAlpha = false)
    (rest : Reads ep items) : Reads (text ++ q :: ep) (.many nmin (Autodialer.outside xs) :: items) :=
  .many text _ true opens repeats (exprMatch_outside plain) rest

/-- `[:]*[0-9]*` -/
theorem portExpr_reads : Reads "[:]*[0-9]*".toList
    [.many 0 fun c => decide (c = ':'), .many 0 Char.isDigit] :=
  .many "[:]".toList [(':', ':')] false (fun _ _ _ => rfl) rfl exprMatch_colon <|
  .many "[0-9]".toList [('0', '9')] false (fun _ _ _ => rfl) rfl exprMatch_digit .nil

theorem hostExpr_reads : Reads hostExpr
    [.many 1 (outside [':']), .many 0 fun c => decide (c = ':'), .many 0 Char.isDigit] :=
  .outside "[^:]".toList [':'] (fun _ _ _ => rfl) rfl (by decide) portExpr_reads

/-- The expression for an IPv6 address starts with a bracket. -/
theorem ipv6Expr_reads : ∃ items, Reads ipv6Expr (.lit '[' :: items) :=
  ⟨_, .escaped <|
    .many "[0-9a-f:]".toList [(':', ':'), ('a', 'f'), ('0', '9')] false (fun _ _ _ => rfl) rfl
      (fun _ => rfl) <|
    .escaped portExpr_reads⟩

theorem userExpr_reads : Reads userExpr
    [.many 1 (outside [':']), .lit ':', .many 0 (outside [':', '@']), .many 0 fun c => decide (c = ':'),
      .many 0 (outside ['@']), .lit '@', .many 1 (outside [' ', '?', ';']), .many 0 (outside ['?']),
      .many 0 (outside [])] :=
  .outside "[^:]".toList [':'] (fun _ _ _ => rfl) rfl (by decide) <|
  .lit (by decide) <|
  .outside "[^@:]".toList [':', '@'] (fun _ _ _ => rfl) rfl (by decide) <|
  .many "[:]".toList [(':', ':')] false (fun _ _ _ => rfl) rfl exprMatch_colon <|
  .outside "[^@]".toList ['@'] (fun _ _ _ => rfl) rfl (by decide) <|
  .lit (by decide) <|
  .outside "[^;? ]".toList [' ', '?', ';'] (fun _ _ _ => rfl) rfl (by decide) <|
  .outside "[^?]".toList ['?'] (fun _ _ _ => rfl) rfl (by decide) <|
  .outside "[^]".toList [] (fun _ _ _ => rfl) rfl (by decide) .nil

theorem outside_eq_true {xs : List Char} {c : Char} : outside xs c = true ↔ c ∉ xs := by
  simp [outside]

/-- All of a text without `x` is in a class that leaves out `x` alone. -/
theorem outside_singleton {x : Char} {text : List Char} (without : x ∉ text) :
    ∀ c ∈ text, outside [x] c = true := by
  intro c mem
  refine outside_eq_true.mpr fun isX => without ?_
  rwa [← List.mem_singleton.mp isX]

/-! ## Putting together and taking apart -/

theorem plU32_digits {s : List Char} (digits : ∀ c ∈ s, c.isDigit = true) :
    plU32 s = Nat.ofDigitChars 10 s 0 % 2 ^ 32 :=
  if_pos (List.all_eq_true.mpr digits)

variable {user sep password host port tail : List Char}

/-- A host name or an IPv4 address: none of the characters that separate the parts of a URI. -/
structure HostName (host : List Char) : Prop where
  nonempty : host ≠ []
  plain : ∀ c ∈ host, c ∉ [' ', '?', ';', ':', '@', '[']

/-- The decimal digits of a port. -/
structure PortText (port : List Char) : Prop where
  digits : ∀ c ∈ port, c.isDigit = true
  positive : 0 < Nat.ofDigitChars 10 port 0
  bound : Nat.ofDigitChars 10 port 0 < 2 ^ 16

theorem decodeHostport_append (isHost : HostName host) (digits : ∀ c ∈ port, c.isDigit = true) :
    decodeHostport (host ++ ':' :: port) = some (host, port) := by
  obtain ⟨items, reads⟩ := ipv6Expr_reads
  have noBracket : ∀ c ∈ host ++ ':' :: port, '['.toLower ≠ c.toLower := by
    intro c mem isBracket
    obtain rfl : c = '[' := (toLower_eq_iff (by decide)).mp isBracket.symm
    rcases List.mem_append.mp mem with inHost | inRest
    · exact isHost.plain '[' inHost (by decide)
    · rcases List.mem_cons.mp inRest with isColon | inPort
      · cases isColon
      · cases digits '[' inPort
  have noIpv6 : reRegex ipv6Expr (host ++ ':' :: port) = none := by
    have skipped := reRegex_skip (b := []) reads noBracket
    rw [List.append_nil] at skipped
    rw [skipped, reRegex_nil reads]
  have found : itemsAt [.many 1 (outside [':']), .many 0 fun c => decide (c = ':'),
      .many 0 Char.isDigit] (host ++ ':' :: port) [] = .out (some [host, [':'], port]) := by
    have inHost : ∀ c ∈ host, outside [':'] c = true :=
      outside_singleton fun mem => isHost.plain ':' mem (by decide)
    rw [itemsAt_append inHost (by intro c head; cases head; rfl)
      (List.length_pos_iff.mpr isHost.nonempty)]
    rw [show ':' :: port = [':'] ++ port from rfl, itemsAt_append (by simp) ?_ (Nat.zero_le 1)]
    · rw [← List.append_nil port, itemsAt_append digits (by simp) (Nat.zero_le _), List.append_nil]
      rfl
    · intro c head
      have isDigit := digits c (List.mem_of_head? head)
      rw [decide_eq_false_iff_not]
      rintro rfl
      cases isDigit
  unfold decodeHostport
  rw [noIpv6, reRegex_found hostExpr_reads (by simp) found]

/-- No separator in a user, no sign before the host in a password, which does not start with a
colon. -/
structure CleanUser (user password : List Char) : Prop where
  user : ':' ∉ user ∧ '@' ∉ user
  noColon : ':' ∉ password.head?
  noAt : '@' ∉ password

theorem userExpr_found (clean : CleanUser user password)
    (shape : sep = [] ∧ password = [] ∨ sep = [':']) {hostport : List Char} (nonempty : hostport ≠ [])
    (inHostport : ∀ c ∈ hostport, c ∉ [' ', '?', ';']) (isTail : ∀ c ∈ tail.head?, c = ';')
    (noHeaders : '?' ∉ tail) :
    reRegex userExpr
        ("sip".toList ++ ':' :: (user ++ (sep ++ (password ++ '@' :: (hostport ++ tail))))) =
      some ["sip".toList, user, sep, password, hostport, tail, []] := by
  -- the password goes up to the sign, the host up to the parameters
  have rest : ∀ classes, itemsAt [.many 0 (outside ['@']), .lit '@', .many 1 (outside [' ', '?', ';']),
      .many 0 (outside ['?']), .many 0 (outside [])] (password ++ '@' :: (hostport ++ tail)) classes =
      .out (some (classes ++ [password, hostport, tail, []])) := by
    intro classes
    have upToAt : ∀ c ∈ ('@' :: (hostport ++ tail)).head?, outside ['@'] c = false := by
      intro c head
      cases head
      rfl
    have upToTail : ∀ c ∈ tail.head?, outside [' ', '?', ';'] c = false := by
      intro c head
      rw [isTail c head]
      rfl
    rw [itemsAt_append (outside_singleton clean.noAt) upToAt (Nat.zero_le _), itemsAt_lit,
      itemsAt_append (fun c mem => outside_eq_true.mpr (inHostport c mem)) upToTail
        (List.length_pos_iff.mpr nonempty)]
    rw [← List.append_nil tail, itemsAt_append (outside_singleton noHeaders) (by simp)
      (Nat.zero_le _), List.append_nil]
    simp [itemsAt]
  have inUser : ∀ c ∈ user, outside [':', '@'] c = true := by
    intro c mem
    refine outside_eq_true.mpr fun isSep => ?_
    rcases List.mem_cons.mp isSep with rfl | isSep
    · exact clean.user.1 mem
    · exact clean.user.2 (List.mem_singleton.mp isSep ▸ mem)
  have isColon : ∀ c ∈ sep, decide (c = ':') = true := by
    rcases shape with ⟨rfl, -⟩ | rfl
    · exact fun c mem => absurd mem List.not_mem_nil
    · simp
  refine reRegex_found userExpr_reads (by simp) ?_
  rw [itemsAt_append (by decide) (by intro c head; cases head; rfl) (by decide), itemsAt_lit,
    itemsAt_append inUser ?_ (Nat.zero_le _), itemsAt_append isColon ?_ (Nat.zero_le _), rest]
  · rfl
  · -- after the colon comes the password, or the sign before the host
    intro c head
    rw [decide_eq_false_iff_not]
    rintro rfl
    cases password with
    | nil => cases head
    | cons c password => exact clean.noColon head
  · intro c head
    rcases shape with ⟨rfl, rfl⟩ | rfl
    · cases head
      rfl
    · cases head
      rfl

/-- The parts of a URI that is put together from a clean user and password, which a colon
separates if there is a password. -/
theorem uriDecode_append (tail : List Char) (clean : CleanUser user password)
    (shape : sep = [] ∧ password = [] ∨ sep = [':']) (isHost : HostName host)
    (isPort : PortText port) (isTail : ∀ c ∈ tail.head?, c = ';') (noHeaders : '?' ∉ tail) :
    uriDecode ("sip".toList ++
        ':' :: (user ++ (sep ++ (password ++ '@' :: (host ++ ':' :: port ++ tail))))) =
      some {
        scheme := "sip".toList, user := some user, password := some password, host := host,
        port := Nat.ofDigitChars 10 port 0, params := tail, headers := [] } := by
  have inHostport : ∀ c ∈ host ++ ':' :: port, c ∉ [' ', '?', ';'] := by
    intro c mem isSep
    rcases List.mem_append.mp mem with inHost | inRest
    · exact isHost.plain c inHost (List.mem_append_left [':', '@', '['] isSep)
    · rcases List.mem_cons.mp inRest with rfl | inPort
      · exact absurd isSep (by decide)
      · have isDigit := isPort.digits c inPort
        simp only [List.mem_cons, List.not_mem_nil, or_false] at isSep
        rcases isSep with rfl | rfl | rfl <;> cases isDigit
  have isPortNumber : uriPort port = Nat.ofDigitChars 10 port 0 := by
    have bound := isPort.bound
    have nonempty : port ≠ [] := by
      rintro rfl
      exact absurd isPort.positive (by decide)
    rw [uriPort, if_neg (by simpa using nonempty), plU32_digits isPort.digits]
    omega
  unfold uriDecode uriDecodeUser
  rw [userExpr_found clean shape (by simp) inHostport isTail noHeaders]
  simp only [decodeHostport_append isHost isPort.digits, Option.map_some, isPortNumber]

/-! ## What is decoded -/

variable {pl : List Char} {uri : Uri}

theorem not_mem_takeWhile_outside {x : Char} {xs p : List Char} (mem : x ∈ xs) :
    x ∉ p.takeWhile (outside xs) := fun taken =>
  outside_eq_true.mp (List.mem_takeWhile_imp taken) mem

theorem userExpr_clean {scheme hostport params headers : List Char}
    (found : reRegex userExpr pl = some [scheme, user, sep, password, hostport, params, headers]) :
    CleanUser user password := by
  obtain ⟨p, out⟩ := reRegex_some userExpr_reads (by decide) found
  obtain ⟨-, p₁, -, out⟩ := itemsAt_lit_out (itemsAt_many_out out)
  have out₂ := itemsAt_many_out (itemsAt_many_out (itemsAt_many_out out))
  obtain ⟨-, p₂, -, out₃⟩ := itemsAt_lit_out out₂
  have out₄ := itemsAt_many_out (itemsAt_many_out (itemsAt_many_out out₃))
  simp only [itemsAt, List.nil_append, List.cons_append, RegexEnd.out.injEq, Option.some.injEq,
    List.cons.injEq] at out₄
  obtain ⟨-, isUser, -, isPassword, -⟩ := out₄
  subst isUser
  subst isPassword
  refine ⟨⟨not_mem_takeWhile_outside (by decide), not_mem_takeWhile_outside (by decide)⟩, ?_,
    not_mem_takeWhile_outside (by decide)⟩
  -- what follows the colons does not start with one
  intro head
  rw [List.head?_takeWhile] at head
  have first := (Option.filter_eq_some_iff.mp head).1
  have stopped := List.head?_dropWhile_not (fun c => decide (c = ':'))
    (p₁.dropWhile (outside [':', '@']))
  rw [first] at stopped
  exact absurd stopped (by decide)

theorem uriDecodeUser_clean (run : uriDecodeUser pl = some uri) :
    ∃ user password, uri.user = some user ∧ uri.password = some password ∧ CleanUser user password := by
  unfold uriDecodeUser at run
  split at run
  next found =>
    obtain ⟨_, -, isUri⟩ := Option.map_eq_some_iff.mp run
    subst isUri
    exact ⟨_, _, rfl, rfl, userExpr_clean found⟩
  next => cases run

theorem uriDecodeNoUser_user (run : uriDecodeNoUser pl = some uri) : uri.user = none := by
  unfold uriDecodeNoUser at run
  split at run
  next =>
    obtain ⟨_, -, isUri⟩ := Option.map_eq_some_iff.mp run
    subst isUri
    rfl
  next => cases run

/-- A decoded user and its password are clean. -/
theorem uriDecode_clean (run : uriDecode pl = some uri) (isUser : uri.user = some user) :
    ∃ password, uri.password = some password ∧ CleanUser user password := by
  unfold uriDecode at run
  split at run
  next decoded =>
    cases run
    obtain ⟨user', password, isUser', isPassword, clean⟩ := uriDecodeUser_clean decoded
    cases isUser.symm.trans isUser'
    exact ⟨password, isPassword, clean⟩
  next =>
    rw [uriDecodeNoUser_user run] at isUser
    cases isUser

/-! ## Parameters -/

variable {pname : List Char}

/-- The literals of an expression. -/
theorem Reads.lits {ep : List Char} {items : List RegexItem} (name : List Char)
    (plain : ∀ x ∈ name, x ≠ '\\' ∧ x ≠ '[') (reads : Reads ep items) :
    Reads (name ++ ep) (name.map .lit ++ items) := by
  induction name with
  | nil => exact reads
  | cons x name ih =>
    exact .lit (plain x List.mem_cons_self) (ih fun x mem => plain x (List.mem_cons_of_mem _ mem))

theorem itemsAt_lits {items : List RegexItem} {p : List Char} {classes : List (List Char)}
    (name : List Char) : itemsAt (name.map .lit ++ items) (name ++ p) classes =
      itemsAt items p classes := by
  induction name with
  | nil => rfl
  | cons x name ih => exact itemsAt_lit.trans ih

/-- A parameter name: letters that fit. -/
structure ParamName (pname : List Char) : Prop where
  letters : ∀ c ∈ pname, c.isAlpha = true
  length : pname.length ≤ 64

theorem uriParamExpr_reads (isName : ParamName pname) : Reads (uriParamExpr pname)
    (.lit ';' :: (pname.map .lit ++ [.many 0 fun c => decide (c = '='), .many 0 (outside [';'])])) := by
  have fits : [";".toList, pname, "[=]*[^;]*".toList].flatten.length < 128 := by
    have length := isName.length
    simp
    omega
  have plain : ∀ x ∈ pname, x ≠ '\\' ∧ x ≠ '[' := by
    intro x mem
    have isLetter := isName.letters x mem
    constructor <;> rintro rfl <;> cases isLetter
  unfold uriParamExpr
  rw [reSnprintf_eq fits]
  simp only [List.flatten_cons, List.flatten_nil, List.append_nil]
  refine .lit (by decide) (.lits pname plain ?_)
  exact .many "[=]".toList [('=', '=')] false (fun _ _ _ => rfl) rfl
    (fun c => by simpa using exprMatch_chars ['='] (by decide) false c) <|
    .outside "[^;]".toList [';'] (fun _ _ _ => rfl) rfl (by decide) .nil

/-- The value of a parameter that comes first. -/
theorem uriParamGet_first (pname value rest : List Char) (isName : ParamName pname)
    (noEqual : '=' ∉ value) (noSemi : ';' ∉ value) (isRest : ∀ c ∈ rest.head?, c = ';') :
    uriParamGet (';' :: (pname ++ '=' :: (value ++ rest))) pname = some value := by
  have isEqual : ∀ c ∈ (value ++ rest).head?, decide (c = '=') = false := by
    intro c head
    rw [decide_eq_false_iff_not]
    rintro rfl
    cases value with
    | nil => cases isRest '=' head
    | cons c value => exact noEqual (List.mem_of_mem_head? head)
  have upToRest : ∀ c ∈ rest.head?, outside [';'] c = false := by
    intro c head
    rw [isRest c head]
    rfl
  have found : itemsAt (.lit ';' ::
      (pname.map .lit ++ [.many 0 fun c => decide (c = '='), .many 0 (outside [';'])]))
      (';' :: (pname ++ '=' :: (value ++ rest))) [] = .out (some [['='], value]) := by
    rw [itemsAt_lit, itemsAt_lits, show '=' :: (value ++ rest) = ['='] ++ (value ++ rest) from rfl,
      itemsAt_append (by decide) isEqual (Nat.zero_le _),
      itemsAt_append (outside_singleton noSemi) upToRest (Nat.zero_le _)]
    rfl
  unfold uriParamGet
  rw [reRegex_found (uriParamExpr_reads isName) (List.cons_ne_nil _ _) found]

/-- A parameter with another first letter is passed over. -/
theorem uriParamGet_next (x y : Char) (pname name rest : List Char) (isName : ParamName (x :: pname))
    (other : x.toLower ≠ y.toLower) (noSemi : ';' ∉ y :: name) :
    uriParamGet (';' :: (y :: name ++ rest)) (x :: pname) = uriParamGet rest (x :: pname) := by
  have reads := uriParamExpr_reads isName
  have skipped : reRegex (uriParamExpr (x :: pname)) (y :: name ++ rest) =
      reRegex (uriParamExpr (x :: pname)) rest := by
    refine reRegex_skip reads fun c mem isSemi => noSemi ?_
    rwa [← (toLower_eq_iff (x := ';') (by decide)).mp isSemi.symm]
  unfold uriParamGet
  rw [reRegex, reads, itemsAt_lit, List.map_cons, List.cons_append, List.cons_append, itemsAt,
    if_pos other, ← List.cons_append, skipped]

end Autodialer
