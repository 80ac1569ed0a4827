/-!
# `TypedProps.Glob`: patterns for paths

A pattern is a list of parts, each of which takes a piece of text. Text is taken byte by byte, in
UTF-8, so `?` and a class take one byte of a character that has several. Wildcards take slashes like
any other byte; only the parts that `**` stands for know where a directory ends.

A part is described by what it leaves: `Part.rests` maps the texts that are still to be taken to the
texts that may be left after the part. Since each of them is an end of the whole text, they stay few
however many wildcards a pattern has.
-/

set_option autoImplicit false

namespace TypedProps.Glob

/-- A part of a pattern. -/
inductive Part where
  | literal (c : Char)
  /-- One byte. -/
  | anyByte
  /-- Any text, no text included. -/
  | anyText
  /-- Directories at the front: nothing, or text up to a slash. -/
  | directoriesBefore
  /-- Directories in the middle: a slash, or text between two slashes. -/
  | directoriesBetween
  /-- What lies in a directory: a slash and any text. -/
  | everythingBelow
  /-- A byte from some ranges of characters, or, when `negated`, any other byte. -/
  | oneOf (negated : Bool) (ranges : List (Char × Char))
  /-- One of several patterns. Those that stand for no text are left out. -/
  | alternatives (branches : List (List Part))
deriving Repr, Inhabited

/-- Text as it is taken. -/
abbrev Bytes := List UInt8

/-- The bytes of some characters. -/
def bytesOf (cs : List Char) : Bytes := cs.flatMap String.utf8EncodeChar

/-- The byte of a slash. -/
def slash : UInt8 := 47

/-- A text and all its ends. -/
def ends : Bytes → List Bytes
  | [] => [[]]
  | b :: rest => (b :: rest) :: ends rest

/-- The ends of a text that begin after a slash. -/
def endsAfterSlash : Bytes → List Bytes
  | [] => []
  | b :: rest => if b == slash then rest :: endsAfterSlash rest else endsAfterSlash rest

/-- What is left of a text behind a slash at its front. -/
def behindSlash : Bytes → List Bytes
  | [] => []
  | b :: rest => if b == slash then [rest] else []

/-- What is left of a text behind a first byte of a class. -/
def behindByte (wanted : UInt8 → Bool) : Bytes → List Bytes
  | [] => []
  | b :: rest => if wanted b then [rest] else []

/-- What is left of a text behind other text at its front. -/
def behindText : Bytes → Bytes → List Bytes
  | [], text => [text]
  | _ :: _, [] => []
  | b :: bs, c :: cs => if b == c then behindText bs cs else []

/-- The ranges of bytes that a range of characters stands for. Of a character that has several
bytes, those away from the middle of the range stand for themselves. -/
def byteRanges (range : Char × Char) : List (UInt8 × UInt8) :=
  let first := String.utf8EncodeChar range.1
  let last := String.utf8EncodeChar range.2
  let single (b : UInt8) : UInt8 × UInt8 := (b, b)
  if range.1 == range.2 then first.map single
  else first.dropLast.map single
    ++ (first.getLast?.bind fun low => last.head?.map (low, ·)).toList
    ++ last.tail.map single

/-- Whether a byte lies in one of some ranges of characters. -/
def inRanges (ranges : List (Char × Char)) (b : UInt8) : Bool :=
  (ranges.flatMap byteRanges).any fun (low, high) => low ≤ b && b ≤ high

mutual

/-- Whether a part stands for no text, whatever it is matched with. -/
def Part.isBlank : Part → Bool
  | .alternatives branches => areBlank branches
  | _ => false

/-- Whether all parts of a pattern stand for no text. -/
def isBlank : List Part → Bool
  | [] => true
  | part :: rest => part.isBlank && isBlank rest

/-- Whether all of several patterns stand for no text. -/
def areBlank : List (List Part) → Bool
  | [] => true
  | branch :: rest => isBlank branch && areBlank rest

end

mutual

/-- The texts that may be left when a part takes the front of one of some texts. -/
def Part.rests : Part → List Bytes → List Bytes
  | .literal c, texts => texts.flatMap (behindText (String.utf8EncodeChar c))
  | .anyByte, texts => texts.flatMap (behindByte fun _ => true)
  | .anyText, texts => (texts.flatMap ends).eraseDups
  | .directoriesBefore, texts => (texts.flatMap fun text => text :: endsAfterSlash text).eraseDups
  | .directoriesBetween, texts =>
    ((texts.flatMap behindSlash).flatMap fun text => text :: endsAfterSlash text).eraseDups
  | .everythingBelow, texts => ((texts.flatMap behindSlash).flatMap ends).eraseDups
  | .oneOf negated ranges, texts => texts.flatMap (behindByte fun b => inRanges ranges b != negated)
  | .alternatives branches, texts =>
    if areBlank branches then texts else (restsOfAny branches texts).eraseDups

/-- The texts that may be left behind a whole pattern. -/
def restsOfAll : List Part → List Bytes → List Bytes
  | [], texts => texts
  | part :: more, texts => restsOfAll more (part.rests texts)

/-- The texts that may be left behind one of several patterns, blank ones left out. -/
def restsOfAny : List (List Part) → List Bytes → List Bytes
  | [], _ => []
  | branch :: more, texts =>
    (if isBlank branch then [] else restsOfAll branch texts) ++ restsOfAny more texts

end

end TypedProps.Glob

namespace TypedProps

/-- A pattern for paths. -/
structure Glob where
  parts : List Glob.Part
deriving Repr, Inhabited

namespace Glob

/-- Whether a pattern takes a text as a whole. A lone `**` takes every text. -/
def accepts (glob : Glob) (text : String) : Bool :=
  match glob.parts with
  | [.directoriesBefore] => true
  | parts => (restsOfAll parts [bytesOf text.toList]).contains []

end Glob

end TypedProps
