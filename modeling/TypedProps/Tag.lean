/-!
# `TypedProps.Tag`: what a type is at run time

A tag says which values a type admits, as far as a running program can check it. A type has a list
of tags, one for each kind of value, without duplicates and in the order in which they were written.
-/

set_option autoImplicit false

namespace TypedProps

/-- The kind of value a literal type admits. -/
inductive LiteralKind where
  | string | number | boolean
deriving DecidableEq, Repr, Inhabited

/-- A kind of value. -/
inductive Tag where
  | string | number | boolean | object | function | any | undefined
  /-- An array whose elements have one of some tags. -/
  | array (elements : List Tag)
  /-- The one value that a literal denotes, as it is written. -/
  | literal (text : String) (kind : LiteralKind)
  /-- A type known by its name alone. `constructible` says whether the name is also a value, a
  constructor, where the tag is used. -/
  | named (name : String) (constructible : Bool)
deriving Repr, Inhabited

namespace Tag

mutual

/-- Whether two tags are equal. -/
def beq : Tag → Tag → Bool
  | .string, .string | .number, .number | .boolean, .boolean | .object, .object
  | .function, .function | .any, .any | .undefined, .undefined => true
  | .array as, .array bs => beqList as bs
  | .literal t k, .literal t' k' => t == t' && k == k'
  | .named n c, .named n' c' => n == n' && c == c'
  | _, _ => false

/-- Whether two lists of tags are equal. -/
def beqList : List Tag → List Tag → Bool
  | [], [] => true
  | a :: as, b :: bs => beq a b && beqList as bs
  | _, _ => false

end

mutual

theorem beq_iff_eq : ∀ a b : Tag, beq a b = true ↔ a = b
  | .array as, b => by cases b <;> simp [beq, beqList_iff_eq as]
  | .literal t k, b => by cases b <;> simp [beq]
  | .named n c, b => by cases b <;> simp [beq]
  | .string, b | .number, b | .boolean, b | .object, b | .function, b | .any, b
  | .undefined, b => by cases b <;> simp [beq]

theorem beqList_iff_eq : ∀ as bs : List Tag, beqList as bs = true ↔ as = bs
  | [], bs => by cases bs <;> simp [beqList]
  | a :: as, bs => by cases bs <;> simp [beqList, beq_iff_eq a, beqList_iff_eq as]

end

instance : DecidableEq Tag := fun a b => decidable_of_iff _ (beq_iff_eq a b)

/-- Adds a tag at the end unless it is there. -/
def add (tags : List Tag) (t : Tag) : List Tag := if t ∈ tags then tags else tags ++ [t]

/-- Adds the tags of a second list that a first one lacks. -/
def merge (tags more : List Tag) : List Tag := more.foldl add tags

mutual

/-- A type, as text, that has just this tag. -/
def typeText : Tag → String
  | .string => "string"
  | .number => "number"
  | .boolean => "boolean"
  | .object => "object"
  | .function => "Function"
  | .any => "any"
  | .undefined => "undefined"
  | .array [] => "unknown[]"
  | .array (t :: ts) => "Array<" ++ unionText (t :: ts) ++ ">"
  | .literal text _ => text
  | .named name constructible => if constructible then name else "unknown"

/-- The types of several tags, joined to a union. -/
def unionText : List Tag → String
  | [] => ""
  | [t] => typeText t
  | t :: ts => typeText t ++ " | " ++ unionText ts

end

/-- The global name that constructs the values of a tag; `none` for a tag without one. -/
def constructor? : Tag → Option String
  | .string | .literal _ .string => some "String"
  | .number | .literal _ .number => some "Number"
  | .boolean | .literal _ .boolean => some "Boolean"
  | .object => some "Object"
  | .function => some "Function"
  | .array _ => some "Array"
  | .named name true => some name
  | .named _ false | .any | .undefined => none

/-- The same tag where names of types are no values. Names inside arrays are left alone. -/
def erased : Tag → Tag
  | .named name _ => .named name false
  | t => t

end Tag

/-- What is known about a declared type: its tags, and the text that describes it in full where the
tags do not. -/
structure ResolvedType where
  tags : List Tag
  shown : Option String
deriving DecidableEq, Repr, Inhabited

/-- Whether a tag is among those of a type. -/
def ResolvedType.contains (type : ResolvedType) (t : Tag) : Bool := decide (t ∈ type.tags)

end TypedProps
