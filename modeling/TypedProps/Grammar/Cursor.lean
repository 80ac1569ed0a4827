import TypedProps.Script
import TypedProps.Token.Lexer

/-!
# `TypedProps.Grammar.Cursor`: reading a script token by token

A cursor stands in front of one token, which it has already read. A `Parser` moves the cursor and
answers with a value, or fails at an offset. `Parser.many` repeats, `knot` ties a grammar whose
phrases nest: both end because each round, and each inner phrase, begins behind the place where
the one before began.
-/

set_option autoImplicit false

namespace TypedProps.Grammar

open TypedProps.Text
open TypedProps.Lexer

/-- A place in a script: the next token, the text from its start on, the text behind it, and the
offset where the previous token ended. -/
structure Cursor where
  token : Token
  front : List Char
  rest : List Char
  lastStop : Nat
deriving Inhabited

/-- Where a script stops being one: the offset of the first token that does not fit. -/
structure Failure where
  offset : Nat
deriving DecidableEq, Repr, Inhabited

namespace Cursor

/-- How much text lies ahead. -/
def size (c : Cursor) : Nat := c.front.length

/-- Reads the next token from `text`, which begins at `offset`. `owns` says whether the token before
it keeps the comments behind it, `mode` and `fresh` whether reading begins inside a comment and on
a line of its own. -/
def read (owns : Bool) (mode : GapMode) (fresh : Bool) (offset : Nat) (text : List Char) : Cursor :=
  let g := gap owns mode fresh [] text
  let start := offset + (text.length - g.rest.length)
  let (kind, rest) := scan g.rest
  { token := ⟨kind, start, start + (g.rest.length - rest.length), g.lineBreak, g.docs.reverse⟩
    front := g.rest
    rest
    lastStop := offset }

/-- The cursor at the start of a script. A first line that begins with `#!` is a comment. -/
def ofScript (script : List Char) : Cursor :=
  match script with
  | '#' :: '!' :: _ => read false .lineComment true 0 script
  | _ => read false .blank true 0 script

/-- The cursor behind a stretch that ends at `offset`, with `text` after it. -/
def resume (owns : Bool) (offset : Nat) (text : List Char) : Cursor :=
  read owns .blank false offset text

/-- The cursor behind the current token. -/
def next (c : Cursor) : Cursor := resume c.token.kind.ownsTrailing c.token.stop c.rest

/-- The cursor behind a stretch of text that starts with the current token and of which `rest` is
left. -/
def skipTo (c : Cursor) (owns : Bool) (rest : List Char) : Cursor :=
  resume owns (c.token.start + (c.front.length - rest.length)) rest

def isMark (c : Cursor) (m : Mark) : Bool := c.token.kind == .mark m

/-- Whether the current token is a keyword. Escapes make a keyword an ordinary word. -/
def isWord (c : Cursor) (name : String) : Bool := c.token.kind == .word name false

/-- The word at the cursor, reserved or not. -/
def word? (c : Cursor) : Option String :=
  match c.token.kind with
  | .word name _ => some name
  | _ => none

/-- The identifier at the cursor. -/
def identifier? (c : Cursor) : Option String :=
  match c.token.kind with
  | .word name escaped => if !escaped && isReserved name then none else some name
  | _ => none

def isIdentifier (c : Cursor) : Bool := c.identifier?.isSome

/-- Whether a statement may end here without a semicolon. -/
def endsStatement (c : Cursor) : Bool :=
  c.token.afterLineBreak || c.isMark .braceClose || c.token.kind == .endOfText

end Cursor

/-- Reads from a cursor, or fails. -/
abbrev Parser := StateT Cursor (Except Failure)

namespace Parser

/-- Fails at the current token. -/
def fail {α : Type} : Parser α := fun c => .error ⟨c.token.start⟩

/-- The cursor itself. -/
def here : Parser Cursor := get

/-- Steps over the current token, which the caller has looked at. -/
def skip : Parser Unit := modify Cursor.next

/-- Reads with `p` and takes nothing when it fails. -/
def attempt {α : Type} (p : Parser α) : Parser (Option α) := fun c =>
  match p c with
  | .ok (a, c') => .ok (some a, c')
  | .error _ => .ok (none, c)

/-- The answer of `p`, without moving. -/
def lookAhead {α : Type} (p : Parser α) : Parser (Option α) := fun c =>
  match p c with
  | .ok (a, _) => .ok (some a, c)
  | .error _ => .ok (none, c)

/-- Repeats `step` while it asks for more and moves on. -/
def loop {σ : Type} (step : σ → Parser (σ × Bool)) (s : σ) (c : Cursor) :
    Except Failure (σ × Cursor) :=
  match step s c with
  | .error e => .error e
  | .ok ((s', more), c') =>
    if more then
      if c'.size < c.size then loop step s' c' else .error ⟨c'.token.start⟩
    else .ok (s', c')
termination_by c.size

/-- Reads with `p` until it answers `none`. -/
def many {α : Type} (p : Parser (Option α)) : Parser (List α) := do
  let found ← loop (fun acc => do
    match ← p with
    | some a => pure (a :: acc, true)
    | none => pure (acc, false)) []
  pure found.reverse

/-- Steps over a mark if it stands here. -/
def eat (m : Mark) : Parser Bool := do
  if (← here).isMark m then skip; pure true else pure false

/-- Steps over a mark that has to stand here. -/
def expect (m : Mark) : Parser Unit := do
  if (← here).isMark m then skip else fail

/-- Steps over a keyword if it stands here. -/
def eatWord (name : String) : Parser Bool := do
  if (← here).isWord name then skip; pure true else pure false

/-- Steps over a keyword that has to stand here. -/
def expectWord (name : String) : Parser Unit := do
  if (← here).isWord name then skip else fail

/-- Reads an identifier. -/
def identifier : Parser Identifier := do
  let c ← here
  match c.identifier? with
  | some name => skip; pure ⟨name, c.token.start, c.token.stop⟩
  | none => fail

/-- Reads a word, reserved or not. -/
def word : Parser String := do
  match (← here).word? with
  | some name => skip; pure name
  | none => fail

/-- Reads the end of a statement. -/
def semicolon : Parser Unit := do
  if (← here).isMark .semicolon then skip
  else if (← here).endsStatement then pure ()
  else fail

/-- The stretch from `start` to where the last token ended. -/
def spanFrom (start : Cursor) : Parser Span := do
  pure ⟨start.token.start, (← here).lastStop⟩

/-- The stretch from `start` to where the last token ended, with its text. -/
def excerptFrom (start : Cursor) : Parser Excerpt := do
  let span ← spanFrom start
  pure ⟨span, String.ofList (start.front.take (span.stop - span.start))⟩

/-- Reads elements separated by commas up to the mark `close`. A comma may follow the last one. -/
def commaElements {α : Type} (element : Parser α) (close : Mark) : Parser (List α) :=
  many do
    if (← here).isMark close then pure none
    else
      let a ← element
      if !(← here).isMark close then expect .comma
      pure (some a)

/-- Reads elements separated by commas up to the mark `close`, which it steps over. -/
def commaList {α : Type} (element : Parser α) (close : Mark) : Parser (List α) := do
  let found ← commaElements element close
  expect close
  pure found

/-- Reads a template at its opening mark, with `inner` for each embedded phrase. -/
def template (inner : Parser Unit) : Parser Unit := do
  let _ ← loop (fun _ => do
    let c ← here
    match templateChunk? c.rest with
    | none => fail
    | some (embeds, rest) =>
      set (c.skipTo false rest)
      if embeds then
        inner
        if (← here).isMark .braceClose then pure ((), true) else fail
      else pure ((), false)) ()

/-- Reads `p` when the mark stands here. -/
def after? {α : Type} (m : Mark) (p : Parser α) : Parser (Option α) := do
  if ← eat m then some <$> p else pure none

end Parser

/-- The phrases that contain each other. A type may be read without its conditional part, an
expression without the operator `in`, a statement with or without exports. -/
structure Phrases where
  /-- Whether markup is part of the language, in place of type assertions in angle brackets. -/
  markup : Bool
  type : (conditional : Bool) → Parser Ty
  pattern : Parser Pattern
  expression : (allowIn : Bool) → Parser Expr
  /-- An expression without operators. -/
  operand : Parser Expr
  /-- A markup element. The cursor stays in front of the mark that closes it, because plain text
  may follow. -/
  element : Parser Unit
  statement : (exports : Bool) → Parser Unit

/-- Ties a grammar to itself. What a rule reads from its `Phrases` must begin behind the place the
rule itself began, which is what makes the nesting end; `size` bounds the text ahead. -/
def knot (markup : Bool) (rules : Phrases → Phrases) (size : Nat) : Phrases :=
  let inside {α : Type} (pick : Phrases → Parser α) : Parser α := fun c =>
    if c.size < size then pick (knot markup rules c.size) c else .error ⟨c.token.start⟩
  rules
    { markup
      type := fun conditional => inside (·.type conditional)
      pattern := inside (·.pattern)
      expression := fun allowIn => inside (·.expression allowIn)
      operand := inside (·.operand)
      element := inside (·.element)
      statement := fun exports => inside (·.statement exports) }
termination_by size

end TypedProps.Grammar
