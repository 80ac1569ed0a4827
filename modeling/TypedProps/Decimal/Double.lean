/-!
# `TypedProps.Decimal.Double`: doubles and their shortest decimal text

A positive double is a natural number times a power of two. `nearest` rounds a positive fraction to
the nearest double, a tie to the even mantissa. `shortest` finds, for a double, the coarsest decimal
grid with a point that reads back as this double, and the point of that grid that is nearest. All
of it is arithmetic on natural numbers.
-/

set_option autoImplicit false

namespace TypedProps.Decimal

/-- The double `mantissa * 2 ^ exponent`. -/
structure Double where
  mantissa : Nat
  exponent : Int
deriving DecidableEq, Repr

/-- The decimal `digits * 10 ^ exponent`. -/
structure Scaled where
  digits : Nat
  exponent : Int
deriving DecidableEq, Repr

/-- The natural number nearest to a fraction; a tie goes to the even one. -/
def roundDiv (num den : Nat) : Nat :=
  let q := num / den
  let r := num % den
  if 2 * r < den || (2 * r == den && q % 2 == 0) then q else q + 1

/-- The power `b ^ e` as a factor, for an exponent that is not negative; `1` otherwise. -/
def powUp (b : Nat) (e : Int) : Nat := Nat.pow b e.toNat

/-- The least mantissa that has all its fifty-three binary digits. -/
def fullMantissa : Nat := 0x10000000000000

/-- Least exponent of a double. -/
def minExponent : Int := -1074

/-- Greatest exponent of a double. -/
def maxExponent : Int := 971

/-- The double nearest to the positive fraction `num / den`; `none` when it is too large. A fraction
too small becomes the mantissa zero. -/
def nearest (num den : Nat) : Option Double :=
  let scaled (e : Int) : Nat × Nat := (num * powUp 2 (-e), den * powUp 2 e)
  let guess : Int := max ((num.log2 : Int) - den.log2 - 52) minExponent
  let (n, d) := scaled guess
  -- the difference of the two logarithms is the logarithm of the fraction or one more
  let e := if n / d < fullMantissa then max (guess - 1) minExponent else guess
  let (n, d) := scaled e
  let m := roundDiv n d
  let (m, e) := if m == 2 * fullMantissa then (fullMantissa, e + 1) else (m, e)
  if e > maxExponent then none else some ⟨m, e⟩

/-- The point of the grid `10 ^ p` that reads back as `x` and is nearest to it, if there is one. -/
def Double.onGrid? (x : Double) (p : Int) : Option Scaled :=
  -- in quarters of the last binary place, so that both ends of the interval are whole
  let unit := x.exponent - 2
  let value := 4 * x.mantissa
  let narrow := x.mantissa == fullMantissa && x.exponent > minExponent
  let low := if narrow then value - 1 else value - 2
  let high := value + 2
  let grid := powUp 10 p * powUp 2 (-unit)
  let scale := powUp 2 unit * powUp 10 (-p)
  let closed := x.mantissa % 2 == 0
  let inside (d : Nat) : Bool :=
    let at10 := d * grid
    if closed then low * scale ≤ at10 && at10 ≤ high * scale
    else low * scale < at10 && at10 < high * scale
  let below := value * scale / grid
  let above := below + 1
  let nearerAbove := above * grid - value * scale < value * scale - below * grid
  match inside below && below != 0, inside above with
  | true, true => some ⟨if nearerAbove then above else below, p⟩
  | true, false => some ⟨below, p⟩
  | false, true => some ⟨above, p⟩
  | false, false => none

/-- The shortest decimal that reads back as `x`. The grids are tried from the coarsest a double can
need to the finest. -/
def Double.shortest (x : Double) : Scaled :=
  ((List.range 660).findSome? fun (i : Nat) => x.onGrid? (310 - (i : Int))).getD ⟨0, 0⟩

/-- A decimal in positional notation, never with an exponent. -/
def Scaled.positional (s : Scaled) : String :=
  let digits := Nat.toDigits 10 s.digits
  if s.exponent ≥ 0 then
    if s.digits == 0 then "0" else String.ofList (digits ++ List.replicate s.exponent.toNat '0')
  else
    let places := (-s.exponent).toNat
    let padded := List.replicate (places + 1 - digits.length) '0' ++ digits
    let whole := padded.length - places
    String.ofList (padded.take whole ++ '.' :: padded.drop whole)

/-- The text of a fraction once it is rounded to a double: its shortest decimal, or `inf`. -/
def textOfFraction (num den : Nat) : String :=
  if num == 0 then "0"
  else match nearest num den with
    | none => "inf"
    | some x => if x.mantissa == 0 then "0" else x.shortest.positional

end TypedProps.Decimal
