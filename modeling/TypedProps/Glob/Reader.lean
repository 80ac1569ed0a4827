import TypedProps.Glob

/-!
# `TypedProps.Glob.Reader`: patterns as they are written

`Glob.ofText` reads a pattern character by character. `?`, `*`, `[…]` and `{…,…}` are special, a
backslash takes that from the next character. Two stars stand for directories if they fill all the
text between two slashes, or between a slash and an end of the pattern; elsewhere they mean the same
as one.
-/

set_option autoImplicit false

namespace TypedProps.Glob

/-- Why text is no pattern. -/
inductive ReadError where
  /-- A class is not closed. -/
  | openClass
  /-- The first character of a range comes after its last one. -/
  | emptyRange (first last : Char)
  /-- A group of alternatives is not closed. -/
  | openGroup
  /-- A group of alternatives is closed that was never opened. -/
  | unopenedGroup
  /-- There is nothing behind a backslash. -/
  | danglingEscape
deriving DecidableEq, Repr, Inhabited

/-- What is said about text that is no pattern. -/
def ReadError.message : ReadError → String
  | .openClass => "a class is not closed"
  | .emptyRange first last => s!"the range from {first} to {last} is empty"
  | .openGroup => "a group is not closed"
  | .unopenedGroup => "a group is closed that was not opened"
  | .danglingEscape => "nothing follows a backslash"

/-- A class whose end has not been read. -/
structure OpenClass where
  negated : Bool
  ranges : List (Char × Char)
  /-- Whether a character of the class has been read, its negation apart. -/
  begun : Bool
  /-- Whether a hyphen waits for the last character of a range. -/
  inRange : Bool
deriving Repr, Inhabited

/-- A group of alternatives that encloses the pattern that is being read. -/
structure OpenGroup where
  /-- The finished alternatives of the group around it. -/
  finished : List (List Part)
  /-- What stands in front of it. -/
  before : List Part
deriving Repr, Inhabited

/-- What the next character is part of. -/
inductive Mode where
  | plain
  | escaped
  /-- One star has been read; `before` is the character in front of it. -/
  | star (before : Option Char)
  /-- Two stars have been read. -/
  | stars (before : Option Char)
  /-- The bracket that opens a class has been read. -/
  | classStart
  | inClass (opened : OpenClass)
deriving Repr, Inhabited

/-- A pattern that has been read in part. -/
structure Draft where
  mode : Mode
  /-- The character that was read last. -/
  previous : Option Char
  /-- The groups that are open, the innermost first. -/
  groups : List OpenGroup
  /-- The finished alternatives of the innermost group. -/
  finished : List (List Part)
  /-- The parts of the pattern or alternative that is being read. -/
  parts : List Part
deriving Repr, Inhabited

namespace OpenClass

/-- Moves the end of the last range. -/
def extend (opened : OpenClass) (last : Char) : Except ReadError OpenClass :=
  match opened.ranges.getLast? with
  | none => .ok opened
  | some (first, _) =>
    if last < first then .error (.emptyRange first last)
    else .ok { opened with ranges := opened.ranges.dropLast ++ [(first, last)], inRange := false }

/-- Adds a character, or ends a range with it. -/
def add (opened : OpenClass) (c : Char) : Except ReadError OpenClass :=
  if opened.inRange then opened.extend c
  else .ok { opened with ranges := opened.ranges ++ [(c, c)], begun := true }

/-- The finished class; a hyphen that still waits is a character of it. -/
def close (opened : OpenClass) : Part :=
  .oneOf opened.negated (opened.ranges ++ if opened.inRange then [('-', '-')] else [])

end OpenClass

namespace Draft

/-- A pattern of which nothing has been read. -/
def start : Draft := ⟨.plain, none, [], [], []⟩

/-- Adds a part. -/
def push (d : Draft) (part : Part) : Draft := { d with mode := .plain, parts := d.parts ++ [part] }

/-- Whether the pattern stands in a group. -/
def isNested (d : Draft) : Bool := !d.groups.isEmpty

/-- Opens a group. -/
def openGroup (d : Draft) : Draft :=
  { d with mode := .plain, groups := ⟨d.finished, d.parts⟩ :: d.groups, finished := [], parts := [] }

/-- Ends an alternative. -/
def nextAlternative (d : Draft) : Draft :=
  { d with mode := .plain, finished := d.finished ++ [d.parts], parts := [] }

/-- Closes the innermost group. -/
def closeGroup (d : Draft) : Except ReadError Draft :=
  match d.groups with
  | [] => .error .unopenedGroup
  | group :: outer =>
    .ok { d with
      mode := .plain
      groups := outer
      finished := group.finished
      parts := group.before ++ [.alternatives (d.finished ++ [d.parts])] }

/-- Adds two stars that stand for directories, after a slash. They take the place of the slash, and
add nothing to stars that precede them. -/
def pushDirectories (d : Draft) (part : Part) : Draft :=
  match d.parts.getLast? with
  | some .directoriesBefore | some .everythingBelow => { d with mode := .plain }
  | _ => { d with mode := .plain, parts := d.parts.dropLast ++ [part] }

/-- Adds two stars between the characters `before` and `after`. Answers whether the second one, a
slash, belongs to them. -/
def doubleStar (d : Draft) (before after : Option Char) : Draft × Bool :=
  let twoTexts := (d.push .anyText).push .anyText
  let slash := after == some '/'
  if d.parts.isEmpty then
    if after.isNone || slash then (d.push .directoriesBefore, slash) else (twoTexts, false)
  else if before == some '/' || (d.isNested && (before == some ',' || before == some '{')) then
    if slash then (d.pushDirectories .directoriesBetween, true)
    else if after.isNone || (d.isNested && (after == some ',' || after == some '}')) then
      (d.pushDirectories .everythingBelow, false)
    else (twoTexts, false)
  else (twoTexts, false)

/-- Reads a character inside a class. -/
def inClass (d : Draft) (opened : OpenClass) (c : Char) : Except ReadError Draft := do
  if c == ']' && opened.begun then pure (d.push opened.close)
  else if c == '-' && opened.begun && !opened.inRange then
    pure { d with mode := .inClass { opened with inRange := true } }
  else pure { d with mode := .inClass (← opened.add c) }

/-- Reads a character that may be special. -/
def plain (d : Draft) (c : Char) : Except ReadError Draft :=
  match c with
  | '?' => .ok (d.push .anyByte)
  | '*' => .ok { d with mode := .star d.previous }
  | '[' => .ok { d with mode := .classStart }
  | '{' => .ok d.openGroup
  | '}' => d.closeGroup
  | ',' => .ok (if d.isNested then d.nextAlternative else d.push (.literal ','))
  | '\\' => .ok { d with mode := .escaped }
  | c => .ok (d.push (.literal c))

/-- Reads a character, whatever it is part of. -/
def take (d : Draft) (c : Char) : Except ReadError Draft :=
  match d.mode with
  | .plain => d.plain c
  | .escaped => .ok (d.push (.literal c))
  | .star before =>
    if c == '*' then .ok { d with mode := .stars before } else (d.push .anyText).plain c
  | .stars before =>
    let (d, belongs) := d.doubleStar before (some c)
    if belongs then .ok d else d.plain c
  | .classStart =>
    if c == '!' || c == '^' then .ok { d with mode := .inClass ⟨true, [], false, false⟩ }
    else d.inClass ⟨false, [], false, false⟩ c
  | .inClass opened => d.inClass opened c

/-- Reads a character and remembers it. -/
def step (d : Draft) (c : Char) : Except ReadError Draft := do
  pure { ← d.take c with previous := some c }

/-- The pattern, once all has been read. -/
def finish (d : Draft) : Except ReadError Glob := do
  let d ← match d.mode with
    | .plain => pure d
    | .escaped => throw .danglingEscape
    | .star _ => pure (d.push .anyText)
    | .stars before => pure (d.doubleStar before none).1
    | .classStart | .inClass _ => throw .openClass
  if d.isNested then throw .openGroup else pure ⟨d.parts⟩

end Draft

/-- The pattern that text writes. -/
def ofText (text : String) : Except ReadError Glob := do
  (← text.toList.foldlM Draft.step Draft.start).finish

end TypedProps.Glob
