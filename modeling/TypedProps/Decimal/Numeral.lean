import TypedProps.Decimal.Double
import TypedProps.Token.Lexer

/-!
# `TypedProps.Decimal.Numeral`: what a numeral denotes

A numeral of a script is decimal, with an optional fraction and exponent, or hexadecimal, octal or
binary; underscores between digits mean nothing. `numeralText` writes the number it denotes, as a
double in positional notation, so that two spellings of one number have one text.
-/

set_option autoImplicit false

namespace TypedProps.Decimal

/-- The number that digits of a radix spell. -/
def digitsValue (radix : Nat) (cs : List Char) : Nat :=
  cs.foldl (fun n c => radix * n + (Lexer.hexValue? c).getD 0) 0

/-- The value of an exponent, sign included. Beyond ten thousand its size no longer matters. -/
def exponentValue (cs : List Char) : Int :=
  let size (ds : List Char) : Int := min (digitsValue 10 (ds.take 9)) 10000
  match cs with
  | '-' :: ds => -size ds
  | '+' :: ds => size ds
  | ds => size ds

/-- The fraction that a decimal numeral denotes. -/
def decimalFraction (cs : List Char) : Nat × Nat :=
  let isDigit := Char.isDigit
  let whole := cs.takeWhile isDigit
  let rest := cs.dropWhile isDigit
  let (places, rest) := match rest with
    | '.' :: ds => (ds.takeWhile isDigit, ds.dropWhile isDigit)
    | _ => ([], rest)
  let exponent := match rest with
    | _ :: ds => exponentValue ds
    | [] => 0
  let mantissa := digitsValue 10 (whole ++ places)
  let shift := exponent - places.length
  (mantissa * powUp 10 shift, powUp 10 (-shift))

/-- The fraction that a numeral denotes. A decimal numeral that begins with a needless zero is octal
when its digits allow it. -/
def numeralFraction (spelling : String) : Nat × Nat :=
  let cs := spelling.toList.filter (· != '_')
  match cs with
  | '0' :: x :: ds =>
    if x == 'x' || x == 'X' then (digitsValue 16 ds, 1)
    else if x == 'o' || x == 'O' then (digitsValue 8 ds, 1)
    else if x == 'b' || x == 'B' then (digitsValue 2 ds, 1)
    else if (x :: ds).all fun c => '0' ≤ c && c ≤ '7' then (digitsValue 8 (x :: ds), 1)
    else decimalFraction cs
  | _ => decimalFraction cs

/-- The text of the number that a numeral denotes. -/
def numeralText (spelling : String) : String :=
  let (num, den) := numeralFraction spelling
  textOfFraction num den

end TypedProps.Decimal
