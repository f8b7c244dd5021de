import Mathlib.Data.List.Basic
import Mathlib.Algebra.Group.Nat.Defs

/-!
# Formatted printing (`print.c`)

`re_vhprintf` hands the pieces of its output, the literal parts of the format
and the printed arguments, to a print handler one after the other. The handler
of `re_snprintf` copies a piece that fits and fails on one that does not, and
nothing is printed after that. A string is the list of its bytes, one character
each; a null string prints as an empty one.
-/

namespace Autodialer

/-- `print_handler` on the pieces, with `l` bytes left. -/
def printPieces : Nat → List (List Char) → List Char
  | _, [] => []
  | l, piece :: rest =>
    if l < piece.length then [] else piece ++ printPieces (l - piece.length) rest

/-- `re_snprintf` into a buffer of `size` bytes. -/
def reSnprintf (size : Nat) (pieces : List (List Char)) : List Char := printPieces (size - 1) pieces

/-- The pieces of a number printed with `%d`. -/
def printInt (n : Int) : List (List Char) :=
  if n < 0 then [['-'], Nat.toDigits 10 n.natAbs] else [Nat.toDigits 10 n.natAbs]

theorem printPieces_eq {l : Nat} {pieces : List (List Char)} (fits : pieces.flatten.length ≤ l) :
    printPieces l pieces = pieces.flatten := by
  induction pieces generalizing l with
  | nil => rfl
  | cons piece rest ih =>
    rw [List.flatten_cons, List.length_append] at fits
    rw [printPieces, if_neg (by omega), ih (by omega), List.flatten_cons]

/-- What fits is printed whole. -/
theorem reSnprintf_eq {size : Nat} {pieces : List (List Char)}
    (fits : pieces.flatten.length < size) : reSnprintf size pieces = pieces.flatten :=
  printPieces_eq (by omega)

end Autodialer
