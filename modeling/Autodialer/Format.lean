import Autodialer.Print

/-!
# Formats and their arguments (`re_vhprintf`)

`re_vhprintf` reads a format character by character. What is no directive is printed as it
stands; a directive starts with a percent sign, may have flags, and takes the argument that its
conversion asks for. `re_vsdprintf` allocates a string for all of it.

* `vhprintf_pieces`: a format put together from literal texts and plain conversions prints the
  texts and the arguments, one after the other.
-/

namespace Autodialer

/-! ## The formatter -/

/-- An argument, by the type under which `va_arg` takes it. -/
inductive FormatArg
  | signed (n : Int)
  | signedLong (n : Int)
  | string (s : Option (List Char))

/-- Where `re_vhprintf` is in a format: in a directive if `fm` is set, with the flags that the
directive has so far. -/
structure FormatState where
  fm : Bool := false
  pch : Char := ' '
  plr : Bool := false
  pad : Nat := 0
  lenmod : Nat := 0

/-- `write_padded`; a prefix that is null is the empty one. -/
def writePadded (text : List Char) (pad : Nat) (pch : Char) (plr : Bool) (prfx : List Char) :
    List Char :=
  let fill := List.replicate (pad - prfx.length - text.length) pch
  (if pch = '0' then prfx else []) ++ (if plr then [] else fill) ++
    (if pch = '0' then [] else prfx) ++ text ++ (if plr then fill else [])

/-- The characters of a directive that change how it converts. -/
def FormatState.flag (st : FormatState) (c : Char) : Option FormatState :=
  if c = '-' then some { st with plr := true }
  else if c = '.' then some { st with pad := 0 }
  else if c = 'l' then some { st with lenmod := st.lenmod + 1 }
  else if c.isDigit then
    if st.pad = 0 ∧ c = '0' then some { st with pch := '0' }
    else some { st with pad := 10 * st.pad + (c.toNat - '0'.toNat) }
  else none

/-- The conversion `%d` of a number. -/
def FormatState.decimal (st : FormatState) (n : Int) : List Char :=
  writePadded (Nat.toDigits 10 n.natAbs) st.pad (if st.plr then ' ' else st.pch) st.plr
    (if n < 0 then ['-'] else [])

/-- The conversions with arguments of other types. -/
def otherConversions : List Char := "bcfFHprXxuvWwzjJ".toList

/-- The character that ends a directive: what it prints, and the arguments that it leaves.
There is no result for an argument of another type than the conversion takes, nor for a
conversion with arguments of other types. -/
def FormatState.convert (st : FormatState) (c : Char) (args : List FormatArg) :
    Option (List Char × List FormatArg) :=
  if c = '%' then some (['%'], args)
  else if c = 'd' ∨ c = 'i' then
    match st.lenmod, args with
    | 0, .signed n :: args => some (st.decimal n, args)
    | 1, .signedLong n :: args => some (st.decimal n, args)
    | _, _ => none
  else if c = 's' then
    match args with
    | .string s :: args => some (writePadded (s.getD []) st.pad ' ' st.plr [], args)
    | _ => none
  else if c ∈ otherConversions then none
  else some (['?'], args)

/-- `re_vhprintf`. The flags are set back where the next directive starts. -/
def vhprintf : List Char → FormatState → List FormatArg → Option (List Char)
  | [], _, _ => some []
  | c :: fmt, st, args =>
    if st.fm then
      match st.flag c with
      | some st => vhprintf fmt st args
      | none => do
        let (text, args) ← st.convert c args
        let rest ← vhprintf fmt {} args
        pure (text ++ rest)
    else if c = '%' then vhprintf fmt { fm := true } args
    else do
      let rest ← vhprintf fmt st args
      pure (c :: rest)

/-- `re_vsdprintf` where the memory suffices. -/
def reVsdprintf (fmt : List Char) (args : List FormatArg) : Option (List Char) :=
  vhprintf fmt {} args

/-! ## Pieces -/

/-- A piece of a format with its argument. -/
inductive FormatPiece
  | literal (text : List Char)
  | int (n : Int)
  | long (n : Int)
  | string (s : Option (List Char))

namespace FormatPiece

/-- How the piece is written in the format. -/
def format : FormatPiece → List Char
  | literal text => text
  | int _ => "%d".toList
  | long _ => "%ld".toList
  | string _ => "%s".toList

def args : FormatPiece → List FormatArg
  | literal _ => []
  | int n => [.signed n]
  | long n => [.signedLong n]
  | string s => [.string s]

/-- How the piece is printed. -/
def text : FormatPiece → List Char
  | literal text => text
  | int n => (printInt n).flatten
  | long n => (printInt n).flatten
  | string s => s.getD []

/-- A literal text starts no directive. -/
def Plain : FormatPiece → Prop
  | literal text => '%' ∉ text
  | _ => True

end FormatPiece

theorem vhprintf_literal {text : List Char} (plain : '%' ∉ text) (fmt : List Char)
    (args : List FormatArg) :
    vhprintf (text ++ fmt) {} args = (vhprintf fmt {} args).map (text ++ ·) := by
  induction text with
  | nil => simp
  | cons c text ih =>
    rw [List.mem_cons, not_or] at plain
    rw [List.cons_append, vhprintf, if_neg Bool.false_ne_true, if_neg (Ne.symm plain.1),
      ih plain.2]
    cases vhprintf fmt {} args with
    | none => rfl
    | some rest => rfl

/-- Without a width a number is printed as its sign and its digits. -/
theorem decimal_eq {st : FormatState} (noWidth : st.pad = 0) (noFill : st.pch = ' ') (n : Int) :
    st.decimal n = (printInt n).flatten := by
  have blank : (if st.plr then ' ' else st.pch) ≠ '0' := by
    rw [noFill, ite_self]
    decide
  simp only [FormatState.decimal, writePadded, if_neg blank, noWidth, Nat.zero_sub,
    List.replicate_zero, ite_self, List.nil_append, List.append_nil, printInt]
  split
  · simp
  · simp

theorem string_eq (s : List Char) : writePadded s 0 ' ' false [] = s := by
  simp [writePadded]

/-- A conversion prints its argument. -/
theorem vhprintf_conversion {piece : FormatPiece} (takes : piece.args ≠ []) (fmt : List Char)
    (args : List FormatArg) :
    vhprintf (piece.format ++ fmt) {} (piece.args ++ args) =
      (vhprintf fmt {} args).map (piece.text ++ ·) := by
  cases piece with
  | literal => exact absurd rfl takes
  | int n =>
    show (do
      let rest ← vhprintf fmt {} args
      pure (FormatState.decimal { fm := true } n ++ rest)) = _
    rw [decimal_eq rfl rfl]
    cases vhprintf fmt {} args <;> rfl
  | long n =>
    show (do
      let rest ← vhprintf fmt {} args
      pure (FormatState.decimal { fm := true, lenmod := 1 } n ++ rest)) = _
    rw [decimal_eq rfl rfl]
    cases vhprintf fmt {} args <;> rfl
  | string s =>
    show (do
      let rest ← vhprintf fmt {} args
      pure (writePadded (s.getD []) 0 ' ' false [] ++ rest)) = _
    rw [string_eq]
    cases vhprintf fmt {} args <;> rfl

/-- What a format of such pieces prints. -/
theorem vhprintf_pieces {pieces : List FormatPiece} (plain : ∀ piece ∈ pieces, piece.Plain) :
    reVsdprintf (pieces.flatMap FormatPiece.format) (pieces.flatMap FormatPiece.args) =
      some (pieces.flatMap FormatPiece.text) := by
  rw [reVsdprintf]
  induction pieces with
  | nil => rfl
  | cons piece pieces ih =>
    rw [List.flatMap_cons, List.flatMap_cons, List.flatMap_cons]
    have rest := ih fun piece mem => plain piece (List.mem_cons_of_mem _ mem)
    have here := plain piece List.mem_cons_self
    cases piece with
    | literal text =>
      exact (vhprintf_literal here _ _).trans (congrArg (Option.map (text ++ ·)) rest)
    | int | long | string =>
      rw [vhprintf_conversion (by simp [FormatPiece.args]), rest]
      rfl

end Autodialer
