/-!
# `TypedProps.Text.Position`: offsets, excerpts, lines and columns

Places in a script are offsets, counted in characters from its start. For a reader they are
turned into lines and columns, both counted from one. A line ends at a line feed, at a carriage
return, or at the two together; a line break that is the last thing in a script opens no further
line. Columns are counted in the 16-bit units in which editors index lines, so a character beyond
U+FFFF fills two of them.
-/

set_option autoImplicit false

namespace TypedProps

/-- A stretch of a script, from the offset `start` up to but not including `stop`. -/
structure Span where
  start : Nat
  stop : Nat
deriving DecidableEq, Repr, Inhabited

/-- A stretch of a script together with the text that stands there. -/
structure Excerpt where
  span : Span
  text : String
deriving DecidableEq, Repr, Inhabited

/-- A place as a reader names it. -/
structure Position where
  line : Nat
  column : Nat
deriving DecidableEq, Repr, Inhabited

namespace Position

/-- Whether a line ends after `c`, when `rest` follows it. -/
def endsLine (c : Char) (rest : List Char) : Bool :=
  match c, rest with
  | '\n', _ => true
  | '\r', '\n' :: _ => false
  | '\r', _ => true
  | _, _ => false

/-- How many columns a character fills. -/
def width (c : Char) : Nat := if c.toNat ≤ 0xFFFF then 1 else 2

/-- The position reached from `here` by passing over `n` characters of a text. -/
def after (here : Position) : Nat → List Char → Position
  | 0, _ => here
  | _ + 1, [] => here
  | n + 1, c :: rest =>
    if endsLine c rest && !rest.isEmpty then after ⟨here.line + 1, 1⟩ n rest
    else after ⟨here.line, here.column + width c⟩ n rest

/-- The position of an offset in a script. -/
def ofOffset (script : List Char) (offset : Nat) : Position := after ⟨1, 1⟩ offset script

@[simp] theorem ofOffset_zero (script : List Char) : ofOffset script 0 = ⟨1, 1⟩ := rfl

end Position

end TypedProps
