import TypedProps.Text.IdentifierTable

/-!
# `TypedProps.Text.Identifier`: the characters of an identifier

An identifier starts with a letter, `$` or `_` and goes on with these, digits and marks; letters
and marks are those of Unicode. Beyond ASCII the two tables decide.
-/

set_option autoImplicit false

namespace TypedProps.Text

/-- Whether a code point lies in one of the ranges. -/
def inRanges (ranges : Array (Nat × Nat)) (n : Nat) : Bool :=
  ranges.any fun r => r.1 ≤ n && n ≤ r.2

/-- Characters an identifier may start with. -/
def isIdentifierStart (c : Char) : Bool :=
  c.isAlpha || c == '$' || c == '_' || (0x80 ≤ c.toNat && inRanges idStartRanges c.toNat)

/-- Characters an identifier may go on with; the two joiners are among them. -/
def isIdentifierPart (c : Char) : Bool :=
  isIdentifierStart c || c.isDigit || c.toNat == 0x200C || c.toNat == 0x200D
    || (0x80 ≤ c.toNat && inRanges idExtendRanges c.toNat)

end TypedProps.Text
