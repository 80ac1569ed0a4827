import TypedProps.Program.Basic

/-!
# `TypedProps.Diagnostic`: what can go wrong, and how it is said

A problem is a cause. Its code, severity and message follow from it. `Noted` is a value together
with the problems met on the way to it, in the order in which they were met.
-/

set_option autoImplicit false

namespace TypedProps

/-- How grave a diagnostic is. -/
inductive Severity where
  /-- Something was passed over; the rest of the result stands. -/
  | warning
  /-- A module could not be processed. -/
  | error
deriving DecidableEq, Repr, Inhabited

/-- The name of a severity. -/
def Severity.name : Severity → String
  | .warning => "warning"
  | .error => "error"

/-- Whether a severity is graver than a warning. -/
def Severity.aboveWarning : Severity → Bool
  | .warning => false
  | .error => true

/-- The classes of diagnostics. -/
inductive Code where
  | unresolvedSymbol | missingDeclaration | unsupportedDeclaration | unresolvedImport
  | unsupportedPattern | recursiveType | parseError
deriving DecidableEq, Repr, Inhabited

/-- The name of a code in reports. -/
def Code.name : Code → String
  | .unresolvedSymbol => "unresolved-symbol"
  | .missingDeclaration => "missing-declaration"
  | .unsupportedDeclaration => "unsupported-declaration"
  | .unresolvedImport => "unresolved-import"
  | .unsupportedPattern => "unsupported-pattern"
  | .recursiveType => "recursive-type"
  | .parseError => "parse-error"

/-- Only what keeps a module from being read is an error. -/
def Code.severity : Code → Severity
  | .parseError => .error
  | _ => .warning

/-- What keeps a declared type from being followed. -/
inductive Problem where
  /-- No declaration binds the name. -/
  | unknownType (name : String)
  /-- A name is bound, but to nothing. -/
  | undeclared (name : String)
  /-- A class or an enumeration stands where members are wanted. -/
  | memberless (name : String)
  | unresolvedImport (name : String)
  /-- A type is not made of members. -/
  | notAnObject
  /-- A part of an intersection is not made of members. -/
  | intersectionPart
  | qualifiedBase
  | spreadDeclaration
  | computedDeclaration
  | unreadableName
  /-- An alias is reached again while its own tags are wanted. -/
  | recursiveAlias (name : String)
  /-- A type is reached again while its own members are wanted. -/
  | recursiveMembers (name : String)
deriving DecidableEq, Repr, Inhabited

namespace Problem

/-- The class a problem belongs to. -/
def code : Problem → Code
  | .unknownType _ => .unresolvedSymbol
  | .undeclared _ => .missingDeclaration
  | .memberless _ => .unsupportedDeclaration
  | .unresolvedImport _ => .unresolvedImport
  | .notAnObject | .intersectionPart | .qualifiedBase | .spreadDeclaration | .computedDeclaration
  | .unreadableName => .unsupportedPattern
  | .recursiveAlias _ | .recursiveMembers _ => .recursiveType

/-- What is said about a problem. -/
def message : Problem → String
  | .unknownType name => s!"cannot find type `{name}`"
  | .undeclared name => s!"type `{name}` has no declaration"
  | .memberless name => s!"`{name}` is not a type alias or interface"
  | .unresolvedImport name =>
    s!"import `{name}` does not resolve to a local type alias or interface"
  | .notAnObject => "expected an object type, interface or intersection"
  | .intersectionPart => "intersection member is not an object type and is skipped"
  | .qualifiedBase => "qualified interface base is skipped"
  | .spreadDeclaration => "spread in hand-written declarations is ignored"
  | .computedDeclaration => "computed key in hand-written declarations is ignored"
  | .unreadableName => "only string literals are read from a hand-written name list"
  | .recursiveAlias name => s!"type alias `{name}` refers to itself"
  | .recursiveMembers name => s!"type `{name}` contains itself"

end Problem

/-- A problem and where it was met. -/
structure Diagnostic where
  problem : Problem
  module : ModuleId
  span : Span
deriving DecidableEq, Repr, Inhabited

namespace Diagnostic

def code (d : Diagnostic) : Code := d.problem.code

def severity (d : Diagnostic) : Severity := d.code.severity

def message (d : Diagnostic) : String := d.problem.message

end Diagnostic

/-- A value and the diagnostics that were made on the way to it. -/
structure Noted (α : Type) where
  value : α
  notes : List Diagnostic
deriving Inhabited

namespace Noted

instance : Monad Noted where
  pure a := ⟨a, []⟩
  bind a f := let b := f a.value; ⟨b.value, a.notes ++ b.notes⟩

/-- Notes a problem at a place. -/
def note (problem : Problem) (module : ModuleId) (span : Span) : Noted Unit :=
  ⟨(), [⟨problem, module, span⟩]⟩

@[simp] theorem pure_value {α : Type} (a : α) : (pure a : Noted α).value = a := rfl

@[simp] theorem pure_notes {α : Type} (a : α) : (pure a : Noted α).notes = [] := rfl

@[simp] theorem bind_value {α β : Type} (a : Noted α) (f : α → Noted β) :
    (a >>= f).value = (f a.value).value := rfl

@[simp] theorem bind_notes {α β : Type} (a : Noted α) (f : α → Noted β) :
    (a >>= f).notes = a.notes ++ (f a.value).notes := rfl

instance : LawfulMonad Noted :=
  LawfulMonad.mk' Noted
    (fun a => by simp [Functor.map])
    (fun a f => by simp [Bind.bind, Pure.pure])
    (fun a f g => by simp [Bind.bind, List.append_assoc])

end Noted

end TypedProps
