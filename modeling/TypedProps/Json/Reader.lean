import TypedProps.Decimal.Numeral
import TypedProps.Token.Lexer

/-!
# `TypedProps.Json.Reader`: reading JSON from left to right

Readers for the parts of a JSON document. Each takes text from the front of a list of characters and
answers with what is left, or with the first error: the text ends too early, it is not JSON, or it
is JSON of another shape than wanted. A value that nobody asks for is passed over by `skipValue`,
which is more generous than the readers of wanted values: it accepts lone surrogates and numbers of
any size.
-/

set_option autoImplicit false

namespace TypedProps.Json

/-- Why a document cannot be read. -/
inductive ReadError where
  /-- The text ends inside a value. -/
  | truncated
  /-- The text is not JSON. -/
  | malformed
  /-- A value has another shape than wanted. -/
  | mismatched
  /-- A string is not one of those wanted. -/
  | invalid (message : String)
deriving DecidableEq, Repr, Inhabited

/-- Reads from the front of a text. -/
abbrev Reader := StateT (List Char) (Except ReadError)

/-- Blanks between the parts of a document. -/
def isBlank (c : Char) : Bool := c == ' ' || c == '\n' || c == '\t' || c == '\r'

/-- Passes over blanks; answers with the next character. -/
def peek : Reader (Option Char) := do
  modify (·.dropWhile isBlank)
  pure (← get).head?

/-- Steps over one character. -/
def advance : Reader Unit := modify List.tail

/-- Steps over the characters of a word that has begun. -/
def word : List Char → Reader Unit
  | [] => pure ()
  | c :: cs => do
    match ← get with
    | [] => throw .truncated
    | d :: rest =>
      if c == d then
        set rest
        word cs
      else throw .malformed

/-! ### Strings -/

/-- Reads four hexadecimal digits. Fewer than four bytes of text are too few, whatever they are. -/
def fourDigits (cs : List Char) : Except ReadError Nat :=
  let digits := cs.take 4
  if digits.foldl (fun n c => n + c.utf8Size) 0 < 4 then .error .truncated
  else match digits.length == 4, Lexer.hexNumber? digits with
    | true, some n => .ok n
    | _, _ => .error .malformed

/-- Reads the part of an escape after the backslash; answers with the code points and the number of
characters read. A strict reading wants surrogates in pairs. -/
def escape (strict : Bool) (cs : List Char) : Except ReadError (List Nat × Nat) :=
  match cs with
  | [] => .error .truncated
  | 'b' :: _ => .ok ([0x8], 1)
  | 'f' :: _ => .ok ([0xC], 1)
  | 'n' :: _ => .ok ([0xA], 1)
  | 'r' :: _ => .ok ([0xD], 1)
  | 't' :: _ => .ok ([0x9], 1)
  | 'u' :: rest => do
    let n ← fourDigits rest
    if !strict || !(Lexer.isLeadSurrogate n || Lexer.isTrailSurrogate n) then pure ([n], 5)
    else if Lexer.isTrailSurrogate n then throw .malformed
    else match rest.drop 4 with
      | [] | ['\\'] => throw .truncated
      | '\\' :: 'u' :: more =>
        let m ← fourDigits more
        if Lexer.isTrailSurrogate m then pure ([n, m], 11) else throw .malformed
      | _ => throw .malformed
  | c :: _ =>
    if c.toNat == 0x22 || c == '\\' || c == '/' then .ok ([c.toNat], 1) else .error .malformed

/-- Reads the rest of a string behind its first quote; answers with its code points. -/
def stringBody (strict : Bool) (cs : List Char) : Except ReadError (List Nat × List Char) :=
  match cs with
  | [] => .error .truncated
  | c :: rest =>
    if c.toNat == 0x22 then .ok ([], rest)
    else if c.toNat < 0x20 then .error .malformed
    else if c == '\\' then
      match escape strict rest with
      | .error e => .error e
      | .ok (points, read) =>
        (stringBody strict (rest.drop read)).map fun (more, left) => (points ++ more, left)
    else (stringBody strict rest).map fun (more, left) => (c.toNat :: more, left)
termination_by cs.length

/-- Reads a string at its first quote. -/
def string : Reader String := do
  advance
  match stringBody true (← get) with
  | .ok (points, rest) =>
    set rest
    pure (String.ofList (Lexer.joinSurrogates points))
  | .error e => throw e

/-! ### Numbers -/

/-- Passes over at least one digit. The end of the text is an error of its own in a strict
reading. -/
def digits (strict : Bool) (cs : List Char) : Except ReadError (List Char) :=
  match cs with
  | [] => .error (if strict then .truncated else .malformed)
  | c :: rest => if c.isDigit then .ok (rest.dropWhile Char.isDigit) else .error .malformed

/-- Passes over a number. A zero in front stands alone. -/
def numberEnd (strict : Bool) (cs : List Char) : Except ReadError (List Char) := do
  let cs := match cs with
    | '-' :: rest => rest
    | _ => cs
  let rest ← match cs with
    | '0' :: d :: rest => if d.isDigit then throw .malformed else pure (d :: rest)
    | _ => digits strict cs
  let rest ← match rest with
    | '.' :: places => digits strict places
    | _ => pure rest
  match rest with
  | e :: power =>
    if e == 'e' || e == 'E' then
      match power with
      | sign :: ds => digits strict (if sign == '+' || sign == '-' then ds else power)
      | [] => digits strict []
    else pure rest
  | [] => pure []

/-- Reads a number, which has to be within the range of doubles. -/
def number : Reader Unit := do
  let cs ← get
  match numberEnd true cs with
  | .error e => throw e
  | .ok rest =>
    let spelled := cs.take (cs.length - rest.length)
    let (num, den) := Decimal.decimalFraction (spelled.dropWhile (· == '-'))
    if num != 0 && (Decimal.nearest num den).isNone then throw .malformed
    set rest

/-! ### Values nobody asks for -/

/-- What encloses a value. -/
inductive Frame where
  | list
  | object
deriving DecidableEq

/-- What may come next inside a value. -/
inductive Expected where
  | value
  | valueOrEnd
  | key
  | keyOrEnd
  /-- A value has ended. -/
  | more

/-- Passes over a value that stands inside `frames`. A strict reading checks strings and numbers,
and bounds the depth of nesting. -/
def skip (strict : Bool) (frames : List Frame) (expected : Expected) (cs : List Char) :
    Except ReadError (List Char) :=
  let ahead := cs.dropWhile isBlank
  let go (frames : List Frame) (expected : Expected) (rest : List Char) :
      Except ReadError (List Char) :=
    if rest.length < cs.length then skip strict frames expected rest else .error .malformed
  let enter (frame : Frame) (expected : Expected) (rest : List Char) :
      Except ReadError (List Char) :=
    if strict && frames.length + 2 ≥ 128 then .error .malformed
    else go (frame :: frames) expected rest
  let value : Except ReadError (List Char) :=
    match ahead with
    | [] => .error .truncated
    | c :: rest =>
      let named (name : String) : Except ReadError (List Char) := do
        let ((), left) ← (word name.toList).run rest
        go frames .more left
      if c == '[' then enter .list .valueOrEnd rest
      else if c == '{' then enter .object .keyOrEnd rest
      else if c.toNat == 0x22 then do
        let (_, left) ← stringBody strict rest
        go frames .more left
      else if c == 't' then named "rue"
      else if c == 'f' then named "alse"
      else if c == 'n' then named "ull"
      else if c == '-' || c.isDigit then do
        let left ← if strict then (·.2) <$> number.run ahead else numberEnd false ahead
        go frames .more left
      else .error .malformed
  let key : Except ReadError (List Char) :=
    match ahead with
    | [] => .error .truncated
    | c :: rest =>
      if c.toNat == 0x22 then do
        let (_, left) ← stringBody strict rest
        match left.dropWhile isBlank with
        | ':' :: left => go frames .value left
        | [] => throw .truncated
        | _ => throw .malformed
      else .error .malformed
  match expected with
  | .value => value
  | .key => key
  | .valueOrEnd =>
    match ahead with
    | ']' :: rest => go frames.tail .more rest
    | _ => value
  | .keyOrEnd =>
    match ahead with
    | '}' :: rest => go frames.tail .more rest
    | _ => key
  | .more =>
    match frames, ahead with
    | [], _ => .ok cs
    | _, [] => .error .truncated
    | .list :: _, ',' :: rest => go frames .value rest
    | .list :: outer, ']' :: rest => go outer .more rest
    | .object :: _, ',' :: rest => go frames .key rest
    | .object :: outer, '}' :: rest => go outer .more rest
    | _, _ => .error .malformed
termination_by cs.length

/-- Passes over a value. -/
def skipValue (strict : Bool) : Reader Unit := do
  match skip strict [] .value (← get) with
  | .ok rest => set rest
  | .error e => throw e

/-! ### Wanted values -/

/-- Reads the beginning of a value that is not of the wanted shape, and fails: because of the shape,
unless already the beginning is wrong. -/
def mismatch {α : Type} : Reader α := do
  match ← peek with
  | none => throw .truncated
  | some c =>
    if c == 't' || c == 'f' || c == 'n' then
      advance
      word (if c == 't' then "rue".toList else if c == 'f' then "alse".toList else "ull".toList)
      throw .mismatched
    else if c == '-' || c.isDigit then
      number
      throw .mismatched
    else if c.toNat == 0x22 then
      let _ ← string
      throw .mismatched
    else if c == '[' || c == '{' then throw .mismatched
    else throw .malformed

/-- Reads a truth value. -/
def bool : Reader Bool := do
  match ← peek with
  | some 't' => advance; word "rue".toList; pure true
  | some 'f' => advance; word "alse".toList; pure false
  | _ => mismatch

/-- Reads a string that is wanted. -/
def text : Reader String := do
  match ← peek with
  | some '\x22' => string
  | _ => mismatch

/-- Repeats a step while it asks for more and moves on. -/
def loop {σ : Type} (step : σ → Reader (σ × Bool)) (s : σ) (cs : List Char) :
    Except ReadError (σ × List Char) :=
  match step s cs with
  | .error e => .error e
  | .ok ((s', more), rest) =>
    if more then
      if rest.length < cs.length then loop step s' rest else .error .malformed
    else .ok (s', rest)
termination_by cs.length

/-- Steps to the next element of a list behind its bracket; answers whether there is one. -/
def nextElement (first : Bool) : Reader Bool := do
  match ← peek with
  | none => throw .truncated
  | some ']' => pure false
  | some ',' =>
    if first then pure true
    else
      advance
      match ← peek with
      | none => throw .truncated
      | some ']' => throw .malformed
      | _ => pure true
  | _ => if first then pure true else throw .malformed

/-- Reads the next string of a list, if there is one, behind those that are read. -/
def nextText : List String × Bool → Reader ((List String × Bool) × Bool)
  | (acc, first) => do
    if ← nextElement first then
      let s ← text
      pure ((s :: acc, false), true)
    else pure ((acc, first), false)

/-- Reads a list of wanted strings. -/
def textList : Reader (List String) := do
  match ← peek with
  | some '[' =>
    advance
    let (found, _) ← loop nextText ([], true)
    advance
    pure found.reverse
  | _ => mismatch

/-- Steps to the next key of an object behind its brace, and over it and its colon; answers with the
key, if there is one. -/
def nextKey (first : Bool) : Reader (Option String) := do
  let key : Reader (Option String) := do
    match ← peek with
    | none => throw .truncated
    | some '\x22' => some <$> string
    | _ => throw .malformed
  match ← peek with
  | none => throw .truncated
  | some '}' => pure none
  | some ',' =>
    if first then throw .malformed
    else
      advance
      key
  | _ => if first then key else throw .malformed

/-- Steps over the colon behind a key. -/
def colon : Reader Unit := do
  match ← peek with
  | none => throw .truncated
  | some ':' => advance
  | _ => throw .malformed

/-- Reads a whole document. -/
def document {α : Type} (value : Reader α) (text : String) : Except ReadError α := do
  let (a, rest) ← value.run text.toList
  if (rest.dropWhile isBlank).isEmpty then pure a else throw .malformed

end TypedProps.Json
