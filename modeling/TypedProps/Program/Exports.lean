import TypedProps.Program.Basic

/-!
# `TypedProps.Program.Exports`: following exports and imports

An export is looked up in the named exports of a module and, failing these, in the modules it
passes on as a whole, in source order. `default` is never passed on. A lookup may cost a number of
hops, which all its branches share, so cycles end. Following an import repeats the lookup with the
hops that are left, until a declaration is reached that is no named import.
-/

set_option autoImplicit false

namespace TypedProps.Program

/-- How many lookups resolving one import may take. -/
def maxHops : Nat := 32

/-- The answer of a lookup: the symbol, whether a step on the way is marked type-only, and the hops
left of the `budget` it began with. -/
structure Outcome (budget : Nat) where
  symbol : Option Symbol
  typeOnly : Bool
  left : Nat
  left_le : left ≤ budget

namespace Outcome

/-- A lookup that costs nothing. -/
def done (budget : Nat) (symbol : Option Symbol) (typeOnly : Bool) : Outcome budget :=
  ⟨symbol, typeOnly, budget, Nat.le_refl budget⟩

/-- The same answer as part of a lookup with more hops. -/
def widen {small large : Nat} (h : small ≤ large) (o : Outcome small) : Outcome large :=
  ⟨o.symbol, o.typeOnly, o.left, Nat.le_trans o.left_le h⟩

end Outcome

mutual

/-- Looks up the export `name` of a module. `typeOnly` says whether the way here is marked already.
A re-export marks the way whether or not it leads anywhere. -/
def resolveExport (p : Program) (budget : Nat) (m : ModuleId) (name : String) (typeOnly : Bool) :
    Outcome budget :=
  match budget with
  | 0 => .done 0 none typeOnly
  | left + 1 =>
    match p.module? m with
    | none => .widen (Nat.le_succ left) (.done left none typeOnly)
    | some module =>
      match module.exported? name with
      | some (.own own) => .widen (Nat.le_succ left) (.done left (p.lookup m own) typeOnly)
      | some (.reexport source inner marked) =>
        match source with
        | some next =>
          .widen (Nat.le_succ left) (resolveExport p left next inner (typeOnly || marked))
        | none => .widen (Nat.le_succ left) (.done left none (typeOnly || marked))
      | none =>
        if name == "default" then .widen (Nat.le_succ left) (.done left none typeOnly)
        else .widen (Nat.le_succ left) (resolveAny p left module.starTargets name typeOnly)
termination_by (budget, 0)
decreasing_by
  · exact Prod.Lex.left _ _ (Nat.lt_succ_self left)
  · exact Prod.Lex.left _ _ (Nat.lt_succ_self left)

/-- Looks up an export in several modules; the first that has it decides. Hops spent on the others
stay spent, marks on the way to them do not count. -/
def resolveAny (p : Program) (budget : Nat) (modules : List ModuleId) (name : String)
    (typeOnly : Bool) : Outcome budget :=
  match modules with
  | [] => .done budget none typeOnly
  | m :: rest =>
    let first := resolveExport p budget m name typeOnly
    if first.symbol.isSome then first
    else .widen first.left_le (resolveAny p first.left rest name typeOnly)
termination_by (budget, modules.length + 1)
decreasing_by
  · exact Prod.Lex.right _ (Nat.succ_pos _)
  · exact Prod.Lex.right' _ first.left_le (Nat.lt_succ_self _)

end

/-- Where an import leads, with `budget` hops: the symbol that is no named import any more. -/
def follow (p : Program) (budget : Nat) (s : Symbol) : Option Symbol :=
  match p.declaration? s with
  | some (.imported _ source (.named name) _) =>
    match source with
    | none => none
    | some m =>
      let next := resolveExport p budget m name false
      match next.symbol with
      | none => none
      | some t => if next.left < budget then follow p next.left t else none
  | _ => some s
termination_by budget

/-- The symbol that an import ultimately names; `none` if there is none, and for a symbol that is no
named import. -/
def aliased? (p : Program) (s : Symbol) : Option Symbol :=
  (p.follow maxHops s).filter (· != s)

/-- Whether a mark stands on the way an import leads, with `budget` hops. -/
def marked (p : Program) (budget : Nat) (s : Symbol) : Bool :=
  match p.declaration? s with
  | some (.imported _ source what typeOnly) =>
    match source, what with
    | some m, .named name =>
      let next := resolveExport p budget m name typeOnly
      match next.symbol with
      | none => next.typeOnly
      | some t => next.typeOnly || (if next.left < budget then marked p next.left t else false)
    | _, _ => typeOnly
  | _ => false
termination_by budget

/-- Whether an import exists for types only: its declaration or a re-export on its way says so. -/
def isTypeOnly (p : Program) (s : Symbol) : Bool := p.marked maxHops s

/-- The symbol that a type name stands for in a module. A qualified name has to be one export of a
module that is imported as a whole. -/
def symbolAt (p : Program) (m : ModuleId) (name : EntityName) : Option Symbol :=
  match name.more with
  | [] => p.lookup m name.first
  | [member] =>
    match p.declaration? ⟨m, name.first⟩ with
    | some (.imported _ (some source) .everything _) =>
      (resolveExport p maxHops source member false).symbol
    | _ => none
  | _ => none

end TypedProps.Program
