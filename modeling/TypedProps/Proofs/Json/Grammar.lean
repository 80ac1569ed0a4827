import TypedProps.Json.Reader

/-!
# `TypedProps.Proofs.Json.Grammar`: the texts that are JSON

The grammar of JSON, apart from any reader: which characters may stand in a string, how a number is
written, and how values are put together. `IsText` is the grammar of values; blanks may stand around
every value and every key. Whether a string stands for characters is another question, because half
of a surrogate pair may be escaped in it: `Spells` says which characters those are. Where the items
of a list or of an object matter, `Sequence` says what they stand for.
-/

set_option autoImplicit false

namespace TypedProps.Json

/-- Blanks, and nothing else. -/
def Blanks (cs : List Char) : Prop := ∀ c ∈ cs, isBlank c = true

/-- A character that stands for itself in a string. -/
def IsPlain (c : Char) : Prop := 0x20 ≤ c.toNat ∧ c ≠ '\x22' ∧ c ≠ '\\'

/-- The letters that may stand behind a backslash, with the characters that they stand for. -/
def escapes : List (Char × Char) :=
  [('\x22', '\x22'), ('\\', '\\'), ('/', '/'), ('b', '\x08'), ('f', '\x0C'), ('n', '\n'),
    ('r', '\r'), ('t', '\t')]

/-- What stands between the quotes of a string. -/
inductive IsBody : List Char → Prop
  | nil : IsBody []
  | plain {c : Char} {rest : List Char} (isPlain : IsPlain c) (behind : IsBody rest) :
      IsBody (c :: rest)
  | escape {e c : Char} {rest : List Char} (escaped : (e, c) ∈ escapes) (behind : IsBody rest) :
      IsBody ('\\' :: e :: rest)
  | digits {digits rest : List Char} {n : Nat} (four : digits.length = 4)
      (isNumber : Lexer.hexNumber? digits = some n) (behind : IsBody rest) :
      IsBody ('\\' :: 'u' :: (digits ++ rest))

/-- `Spells body cs`: what stands between quotes stands for the characters `cs`. -/
inductive Spells : List Char → List Char → Prop
  | nil : Spells [] []
  | plain {c : Char} {body cs : List Char} (isPlain : IsPlain c) (behind : Spells body cs) :
      Spells (c :: body) (c :: cs)
  | escape {e c : Char} {body cs : List Char} (escaped : (e, c) ∈ escapes)
      (behind : Spells body cs) : Spells ('\\' :: e :: body) (c :: cs)
  | digits {digits body cs : List Char} {n : Nat} (four : digits.length = 4)
      (isNumber : Lexer.hexNumber? digits = some n) (whole : Lexer.isLeadSurrogate n = false ∧
        Lexer.isTrailSurrogate n = false) (behind : Spells body cs) :
      Spells ('\\' :: 'u' :: (digits ++ body)) (Char.ofNat n :: cs)
  | pair {first second body cs : List Char} {n m : Nat} (four : first.length = 4)
      (isNumber : Lexer.hexNumber? first = some n) (lead : Lexer.isLeadSurrogate n = true)
      (four' : second.length = 4) (isNumber' : Lexer.hexNumber? second = some m)
      (trail : Lexer.isTrailSurrogate m = true) (behind : Spells body cs) :
      Spells ('\\' :: 'u' :: (first ++ '\\' :: 'u' :: (second ++ body)))
        (Char.ofNat (0x10000 + (n - 0xD800) * 0x400 + (m - 0xDC00)) :: cs)

/-- One digit at least, and nothing else. -/
def Digits (cs : List Char) : Prop := cs ≠ [] ∧ ∀ c ∈ cs, c.isDigit = true

/-- The whole part of a number. A zero in front stands alone. -/
def IsWhole (cs : List Char) : Prop := cs = ['0'] ∨ Digits cs ∧ cs.head? ≠ some '0'

/-- The places behind a point, or none. -/
def IsPlaces (cs : List Char) : Prop := cs = [] ∨ ∃ ds, Digits ds ∧ cs = '.' :: ds

/-- A power of ten, or none. -/
def IsPower (cs : List Char) : Prop :=
  cs = [] ∨ ∃ e sign ds, (e = 'e' ∨ e = 'E') ∧ (sign = [] ∨ sign = ['+'] ∨ sign = ['-']) ∧
    Digits ds ∧ cs = e :: (sign ++ ds)

/-- The text of a number. -/
inductive IsNumber : List Char → Prop
  | mk {sign whole places power : List Char} (signed : sign = [] ∨ sign = ['-'])
      (isWhole : IsWhole whole) (isPlaces : IsPlaces places) (isPower : IsPower power) :
      IsNumber (sign ++ (whole ++ (places ++ power)))

/-- The parts of which values are made. -/
inductive Part where
  | value
  /-- The values of a list, with commas between them and blanks around them. -/
  | elements
  /-- The keys of an object and the values behind them. -/
  | members
deriving DecidableEq

/-- The text of a part of a value. -/
inductive IsText : Part → List Char → Prop
  | word {w : String} (known : w ∈ ["true", "false", "null"]) : IsText .value w.toList
  | number {cs : List Char} (isNumber : IsNumber cs) : IsText .value cs
  | string {body : List Char} (isBody : IsBody body) : IsText .value ('\x22' :: (body ++ ['\x22']))
  | emptyList {a : List Char} (blanks : Blanks a) : IsText .value ('[' :: (a ++ [']']))
  | list {es : List Char} (elements : IsText .elements es) : IsText .value ('[' :: (es ++ [']']))
  | emptyObject {a : List Char} (blanks : Blanks a) : IsText .value ('{' :: (a ++ ['}']))
  | object {ms : List Char} (members : IsText .members ms) : IsText .value ('{' :: (ms ++ ['}']))
  | element {a v b : List Char} (before : Blanks a) (value : IsText .value v) (after : Blanks b) :
      IsText .elements (a ++ (v ++ b))
  | elements {a v b es : List Char} (before : Blanks a) (value : IsText .value v)
      (after : Blanks b) (rest : IsText .elements es) :
      IsText .elements (a ++ (v ++ (b ++ ',' :: es)))
  | member {a k b c v d : List Char} (before : Blanks a) (key : IsBody k) (behind : Blanks b)
      (ahead : Blanks c) (value : IsText .value v) (after : Blanks d) :
      IsText .members (a ++ '\x22' :: (k ++ '\x22' :: (b ++ ':' :: (c ++ (v ++ d)))))
  | members {a k b c v d ms : List Char} (before : Blanks a) (key : IsBody k) (behind : Blanks b)
      (ahead : Blanks c) (value : IsText .value v) (after : Blanks d)
      (rest : IsText .members ms) :
      IsText .members (a ++ '\x22' :: (k ++ '\x22' :: (b ++ ':' :: (c ++ (v ++ (d ++ ',' :: ms))))))

/-! ### Sequences -/

/-- `Further Item cs xs`: the text `cs` goes on with items for `xs`, each behind a comma. -/
inductive Further {α : Type} (Item : List Char → α → Prop) : List Char → List α → Prop
  | stop {b : List Char} (blanks : Blanks b) : Further Item b []
  | more {b i cs : List Char} {x : α} {xs : List α} (blanks : Blanks b) (item : Item i x)
      (rest : Further Item cs xs) : Further Item (b ++ ',' :: (i ++ cs)) (x :: xs)

/-- `Sequence Item cs xs`: what stands between brackets is a sequence of items for `xs`. -/
inductive Sequence {α : Type} (Item : List Char → α → Prop) : List Char → List α → Prop
  | empty {b : List Char} (blanks : Blanks b) : Sequence Item b []
  | begun {i cs : List Char} {x : α} {xs : List α} (item : Item i x) (rest : Further Item cs xs) :
      Sequence Item (i ++ cs) (x :: xs)

section Sequence

variable {α : Type} {Item : List Char → α → Prop} {x y : α} {ys : List α} {i cs : List Char}

theorem Sequence.single (item : Item i x) : Sequence Item i [x] := by
  rw [← List.append_nil i]
  exact .begun item (.stop nofun)

theorem Sequence.cons (item : Item i x) (sequence : Sequence Item cs (y :: ys)) :
    Sequence Item (i ++ ',' :: cs) (x :: y :: ys) := by
  cases sequence with
  | begun next further => exact .begun item (.more (b := []) nofun next further)

end Sequence

/-- `Quotes cs s`: a string with blanks in front of it that stands for `s`. -/
inductive Quotes : List Char → String → Prop
  | mk {a body : List Char} {s : String} (before : Blanks a) (spells : Spells body s.toList) :
      Quotes (a ++ '\x22' :: (body ++ ['\x22'])) s

end TypedProps.Json
