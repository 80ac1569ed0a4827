/-!
# `TypedProps.Token`: the words and marks of a script

A script is read as a sequence of tokens. A token carries what the grammar asks of it: its kind,
where it stands, whether a line ends before it, and the documentation comments that lead to it.
Punctuation is a closed set of marks; the many operators that only join two operands, or assign,
are one mark each, because nothing depends on which of them was written.
-/

set_option autoImplicit false

namespace TypedProps

/-- Punctuation, by what the grammar asks of it. Angle brackets are always one mark each. -/
inductive Mark where
  | braceOpen | braceClose | parenOpen | parenClose | bracketOpen | bracketClose
  | less | greater
  | semicolon | comma | dot | ellipsis | colon | question | questionDot
  | equal | arrow
  | plus | minus | star | slash | ampersand | bar | bang | tilde | backquote
  /-- `++` or `--` -/
  | step
  /-- an operator with an operand on each side, such as `===`, that is no other mark -/
  | binary
  /-- an assignment that also computes, such as `+=` -/
  | compound
  /-- `/=`, which may also be the beginning of a regular expression -/
  | slashEqual
deriving DecidableEq, Repr, Inhabited

/-- What a token is. -/
inductive Token.Kind where
  /-- An identifier or a keyword, with its escapes decoded. -/
  | word (name : String) (escaped : Bool)
  /-- A name that begins with `#`. -/
  | privateName
  /-- A number as it is spelled. -/
  | number (spelling : String)
  | bigint
  /-- A string with its escapes decoded. -/
  | string (value : String)
  | regex
  | mark (m : Mark)
  | endOfText
  /-- Text that begins no token. -/
  | malformed
deriving DecidableEq, Repr, Inhabited

/-- A token and its surroundings. -/
structure Token where
  kind : Token.Kind
  start : Nat
  stop : Nat
  /-- Whether a line ends between the previous token and this one. -/
  afterLineBreak : Bool
  /-- The bodies of the documentation comments attached to this token, in source order. -/
  docs : List String
deriving DecidableEq, Repr, Inhabited

/-- Words that are never plain identifiers. -/
def reservedWords : List String :=
  ["break", "case", "catch", "class", "const", "continue", "debugger", "default", "delete", "do",
   "else", "enum", "export", "extends", "false", "finally", "for", "function", "if", "import",
   "in", "instanceof", "new", "null", "return", "super", "switch", "this", "throw", "true", "try",
   "typeof", "var", "void", "while", "with"]

/-- Whether a word is reserved. -/
def isReserved (name : String) : Bool := reservedWords.contains name

/-- Words that count as keywords where comments are attached, although they may name things. -/
def quasiReservedWords : List String := ["await", "let", "module", "yield"]

/-- Whether a comment that follows this token on its line belongs to the token rather than to the
next one: so it is after `;`, after a brace, after a literal and after an identifier. -/
def Token.Kind.ownsTrailing : Token.Kind → Bool
  | .word name _ => !isReserved name && !quasiReservedWords.contains name
  | .number _ | .bigint | .string _ | .regex => true
  | .mark .semicolon | .mark .braceOpen | .mark .braceClose => true
  | _ => false

end TypedProps
