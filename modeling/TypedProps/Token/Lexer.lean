import TypedProps.Text.Blank
import TypedProps.Text.Identifier
import TypedProps.Token

/-!
# `TypedProps.Token.Lexer`: from characters to tokens

Each function here reads from the front of a list of characters and answers with what is left.
`gap` passes over blanks and comments, `scan` reads one token. Regular expressions, templates and
the text between markup tags cannot be told apart from other tokens by their first character; the
grammar asks for them by name (`regexRest`, `templateChunk`, `markupText`).
-/

set_option autoImplicit false

namespace TypedProps.Lexer

open TypedProps.Text

/-! ### Blanks and comments -/

/-- Where the reading of a gap stands. -/
inductive GapMode where
  | blank
  | lineComment
  /-- Inside a block comment: its body so far, last character first, and whether a line had ended
  before the comment began. -/
  | blockComment (body : List Char) (startsLine : Bool)

/-- What stands between two tokens. -/
structure Gap where
  lineBreak : Bool
  /-- Documentation comments that lead to the next token, last one first. -/
  docs : List String
  rest : List Char

/-- Adds a finished block comment to the documentation of the next token. A comment on the line of
the previous token belongs to that token if the token `owns` such comments, or if a semicolon
follows the comment directly. -/
def keepDoc (owns startsLine : Bool) (body rest : List Char) (docs : List String) : List String :=
  let ownedBefore := !startsLine && (owns || rest.head? == some ';')
  match body.reverse with
  | '*' :: text => if ownedBefore then docs else String.ofList ('*' :: text) :: docs
  | _ => docs

/-- Passes over blanks and comments. A comment that is never closed takes the rest of the text. -/
def gap (owns : Bool) : GapMode → Bool → List String → List Char → Gap
  | .blank, seen, docs, '/' :: '/' :: rest => gap owns .lineComment seen docs rest
  | .blank, seen, docs, '/' :: '*' :: rest => gap owns (.blockComment [] seen) seen docs rest
  | .blank, seen, docs, c :: rest =>
    if isLineBreak c then gap owns .blank true docs rest
    else if isScriptBlank c then gap owns .blank seen docs rest
    else ⟨seen, docs, c :: rest⟩
  | .lineComment, seen, docs, c :: rest =>
    if isLineBreak c then gap owns .blank true docs rest
    else gap owns .lineComment seen docs rest
  | .blockComment body startsLine, seen, docs, '*' :: '/' :: rest =>
    gap owns .blank seen (keepDoc owns startsLine body rest docs) rest
  | .blockComment body startsLine, seen, docs, c :: rest =>
    gap owns (.blockComment (c :: body) startsLine) (seen || isLineBreak c) docs rest
  | _, seen, docs, [] => ⟨seen, docs, []⟩

/-! ### Escapes -/

/-- The value of a hexadecimal digit. -/
def hexValue? (c : Char) : Option Nat :=
  if c.isDigit then some (c.toNat - '0'.toNat)
  else if 'a' ≤ c && c ≤ 'f' then some (c.toNat - 'a'.toNat + 10)
  else if 'A' ≤ c && c ≤ 'F' then some (c.toNat - 'A'.toNat + 10)
  else none

/-- The number that hexadecimal digits spell. -/
def hexNumber? (cs : List Char) : Option Nat :=
  if cs.isEmpty then none
  else cs.foldlM (fun n c => (hexValue? c).map (16 * n + ·)) 0

/-- Reads a code point escape after its backslash, `uXXXX` or `u` and braces; answers with the code
point and the number of characters read. -/
def codePointEscape? : List Char → Option (Nat × Nat)
  | 'u' :: '{' :: cs =>
    let digits := cs.takeWhile (· != '}')
    match hexNumber? digits, cs.drop digits.length with
    | some n, '}' :: _ => if n ≤ 0x10FFFF then some (n, digits.length + 3) else none
    | _, _ => none
  | 'u' :: cs =>
    let digits := cs.take 4
    if digits.length == 4 then (hexNumber? digits).map (·, 5) else none
  | _ => none

/-- Whether a code point is the first half of a surrogate pair. -/
def isLeadSurrogate (n : Nat) : Bool := 0xD800 ≤ n && n ≤ 0xDBFF

/-- Whether a code point is the second half of a surrogate pair. -/
def isTrailSurrogate (n : Nat) : Bool := 0xDC00 ≤ n && n ≤ 0xDFFF

/-- Makes characters of code points: two surrogates that form a pair become the character they
stand for, and a lone one becomes U+FFFD. -/
def joinSurrogates : List Nat → List Char
  | [] => []
  | [n] => [if isLeadSurrogate n || isTrailSurrogate n then Char.ofNat 0xFFFD else Char.ofNat n]
  | n :: m :: rest =>
    if isLeadSurrogate n && isTrailSurrogate m then
      Char.ofNat (0x10000 + (n - 0xD800) * 0x400 + (m - 0xDC00)) :: joinSurrogates rest
    else if isLeadSurrogate n || isTrailSurrogate n then
      Char.ofNat 0xFFFD :: joinSurrogates (m :: rest)
    else Char.ofNat n :: joinSurrogates (m :: rest)

/-- Reads the part of an escape that stands after the backslash; answers with the code points it
stands for and the number of characters read. A line break after a backslash stands for nothing. -/
def stringEscape? : List Char → Option (List Nat × Nat)
  | [] => none
  | '\r' :: '\n' :: _ => some ([], 2)
  | c :: cs =>
    if isLineBreak c then some ([], 1)
    else match c with
      | 'n' => some ([0xA], 1)
      | 't' => some ([0x9], 1)
      | 'r' => some ([0xD], 1)
      | 'b' => some ([0x8], 1)
      | 'v' => some ([0xB], 1)
      | 'f' => some ([0xC], 1)
      | 'x' =>
        let digits := cs.take 2
        if digits.length == 2 then (hexNumber? digits).map fun n => ([n], 3) else none
      | 'u' => (codePointEscape? (c :: cs)).map fun (n, read) => ([n], read)
      | _ =>
        let octal := fun d : Char => '0' ≤ d && d ≤ '7'
        if octal c then
          let digits := (c :: cs).takeWhile octal |>.take (if c ≤ '3' then 3 else 2)
          some ([digits.foldl (fun n d => 8 * n + (d.toNat - '0'.toNat)) 0], digits.length)
        else some ([c.toNat], 1)

/-! ### Words, strings and numbers -/

/-- Reads the rest of an identifier; answers with its name, whether it has an escape, and what
follows. -/
def identifier (accepts : Char → Bool) (cs : List Char) : List Char × Bool × List Char :=
  match cs with
  | [] => ([], false, [])
  | c :: rest =>
    if c == '\\' then
      match codePointEscape? rest with
      | some (n, read) =>
        if accepts (Char.ofNat n) then
          let (name, _, left) := identifier isIdentifierPart (rest.drop read)
          (Char.ofNat n :: name, true, left)
        else ([], false, cs)
      | none => ([], false, cs)
    else if accepts c then
      let (name, escaped, left) := identifier isIdentifierPart rest
      (c :: name, escaped, left)
    else ([], false, cs)
termination_by cs.length

/-- Reads a string up to its closing quote; answers with its code points and what follows. A string
ends on the line it begins on, closed or not. -/
def stringBody (quote : Char) (cs : List Char) : Option (List Nat × List Char) :=
  match cs with
  | [] => some ([], [])
  | c :: rest =>
    if c == quote then some ([], rest)
    else if c == '\n' || c == '\r' then some ([], cs)
    else if c == '\\' then
      match stringEscape? rest with
      | none => none
      | some (points, read) =>
        (stringBody quote (rest.drop read)).map fun (more, left) => (points ++ more, left)
    else (stringBody quote rest).map fun (more, left) => (c.toNat :: more, left)
termination_by cs.length

/-- Passes over digits of a class and the separators between them. -/
def dropDigits (p : Char → Bool) (cs : List Char) : List Char :=
  cs.dropWhile fun c => p c || c == '_'

/-- Passes over the exponent of a number, if there is one; `none` if it has no digits. -/
def dropExponent? : List Char → Option (List Char)
  | e :: cs =>
    if e == 'e' || e == 'E' then
      let digits := match cs with
        | '+' :: ds => ds
        | '-' :: ds => ds
        | ds => ds
      if (digits.head?.map Char.isDigit).getD false then some (dropDigits Char.isDigit digits)
      else none
    else some (e :: cs)
  | [] => some []

/-- Passes over the fraction of a number, if there is one. -/
def dropFraction : List Char → List Char
  | '.' :: cs => dropDigits Char.isDigit cs
  | cs => cs

/-- Passes over a number; answers with whether it is a big integer and with what follows. No
identifier may follow a number directly. -/
def number? (cs : List Char) : Option (Bool × List Char) :=
  let finish (rest : List Char) (big : Bool) : Option (Bool × List Char) :=
    if (rest.head?.map isIdentifierStart).getD false then none else some (big, rest)
  let radix (p : Char → Bool) (digits : List Char) : Option (Bool × List Char) :=
    if !(digits.head?.map p).getD false then none
    else match dropDigits p digits with
      | 'n' :: rest => finish rest true
      | rest => finish rest false
  match cs with
  | '0' :: x :: digits =>
    if x == 'x' || x == 'X' then radix (fun c => (hexValue? c).isSome) digits
    else if x == 'o' || x == 'O' then radix (fun c => '0' ≤ c && c ≤ '7') digits
    else if x == 'b' || x == 'B' then radix (fun c => c == '0' || c == '1') digits
    else decimal finish cs
  | _ => decimal finish cs
where
  /-- A number in decimal notation. -/
  decimal (finish : List Char → Bool → Option (Bool × List Char)) (cs : List Char) :
      Option (Bool × List Char) :=
    match dropDigits Char.isDigit cs with
    | 'n' :: rest => finish rest true
    | rest =>
      match dropExponent? (dropFraction rest) with
      | none => none
      | some left => finish left false

/-! ### Marks -/

/-- The marks, longest first among those that share their first characters. -/
def marks : List (String × Mark) :=
  [("...", .ellipsis), ("===", .binary), ("!==", .binary),
   ("**=", .compound), ("&&=", .compound), ("||=", .compound), ("??=", .compound),
   ("=>", .arrow), ("==", .binary), ("!=", .binary), ("++", .step), ("--", .step),
   ("+=", .compound), ("-=", .compound), ("*=", .compound), ("%=", .compound),
   ("&=", .compound), ("|=", .compound), ("^=", .compound), ("/=", .slashEqual),
   ("**", .binary), ("&&", .binary), ("||", .binary), ("??", .binary),
   ("\x7b", .braceOpen), ("\x7d", .braceClose), ("(", .parenOpen), (")", .parenClose),
   ("[", .bracketOpen), ("]", .bracketClose), ("<", .less), (">", .greater),
   (";", .semicolon), (",", .comma), (".", .dot), (":", .colon), ("?", .question),
   ("=", .equal), ("+", .plus), ("-", .minus), ("*", .star), ("/", .slash),
   ("&", .ampersand), ("|", .bar), ("!", .bang), ("~", .tilde), ("`", .backquote),
   ("%", .binary), ("^", .binary)]

/-- Reads a mark. A question mark and a dot are one mark unless a digit follows. -/
def mark? (cs : List Char) : Option (Mark × List Char) :=
  match cs with
  | '?' :: '.' :: rest =>
    if (rest.head?.map Char.isDigit).getD false then some (.question, '.' :: rest)
    else some (.questionDot, rest)
  | _ => marks.firstM fun (text, m) => (dropPrefix? text.toList cs).map (m, ·)

/-! ### Tokens -/

/-- Reads one token from text that begins with no blank. -/
def scan (cs : List Char) : Token.Kind × List Char :=
  match cs with
  | [] => (.endOfText, [])
  | c :: rest =>
    if isIdentifierStart c || c == '\\' then
      match identifier isIdentifierStart cs with
      | ([], _, _) => (.malformed, rest)
      | (name, escaped, left) => (.word (String.ofList name) escaped, left)
    else if c.isDigit || (c == '.' && (rest.head?.map Char.isDigit).getD false) then
      match number? cs with
      | none => (.malformed, rest)
      | some (true, left) => (.bigint, left)
      | some (false, left) =>
        (.number (String.ofList (cs.take (cs.length - left.length))), left)
    else if c == '\x22' || c == '\x27' then
      match stringBody c rest with
      | none => (.malformed, rest)
      | some (points, left) => (.string (String.ofList (joinSurrogates points)), left)
    else if c == '#' then
      match identifier isIdentifierStart rest with
      | ([], _, _) => (.malformed, rest)
      | (_, _, left) => (.privateName, left)
    else match mark? cs with
      | some (m, left) => (.mark m, left)
      | none => (.malformed, rest)

/-! ### Text the grammar asks for by name -/

/-- Passes over a regular expression after its first slash, flags included. Slashes inside brackets
do not end it. -/
def regexRest? (inBrackets : Bool) : List Char → Option (List Char)
  | [] => none
  | '\\' :: c :: cs => if isLineBreak c then none else regexRest? inBrackets cs
  | c :: cs =>
    if isLineBreak c then none
    else if c == '[' then regexRest? true cs
    else if c == ']' then regexRest? false cs
    else if c == '/' && !inBrackets then some (cs.dropWhile isIdentifierPart)
    else regexRest? inBrackets cs

/-- Passes over template text up to its end or to an embedded expression; answers with whether an
expression follows. -/
def templateChunk? : List Char → Option (Bool × List Char)
  | [] => none
  | '\\' :: _ :: cs => templateChunk? cs
  | '$' :: '{' :: cs => some (true, cs)
  | c :: cs => if c.toNat == 0x60 then some (false, cs) else templateChunk? cs

/-- Passes over the text between markup tags, up to a tag or an embedded expression. -/
def markupText (cs : List Char) : List Char :=
  cs.dropWhile fun c => c != '<' && c != '{'

/-- Passes over a name in a markup tag, which may hold hyphens. -/
def markupName (cs : List Char) : List Char :=
  cs.dropWhile fun c => isIdentifierPart c || c == '-'

/-- Passes over a quoted attribute value, which has no escapes and may span lines. -/
def markupString? : List Char → Option (List Char)
  | [] => none
  | quote :: cs =>
    match cs.dropWhile (· != quote) with
    | _ :: rest => some rest
    | [] => none

end TypedProps.Lexer
