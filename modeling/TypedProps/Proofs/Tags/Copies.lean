import TypedProps.Proofs.Program.Relocation
import TypedProps.Proofs.Tags.Leaves

/-!
# `TypedProps.Proofs.Tags.Copies`: a type that is written twice

Two types are alike if they are written alike, wherever they stand. Their tags are the same in the
scope of one module: `value_tagsOf_of_alike` says so, also for two places whose scripts differ. Only
the problems that are noted on the way know where a type is written.
-/

set_option autoImplicit false

namespace TypedProps

/-- Two types are written alike, perhaps at different places. -/
def Ty.Alike (a b : Ty) : Prop := a.moved (fun _ => default) = b.moved (fun _ => default)

namespace Ty.Alike

/-- A type is written like itself. -/
theorem refl (a : Ty) : a.Alike a := rfl

/-- If one type is written like another one, then so is the other like the one. -/
theorem symm {a b : Ty} (alike : a.Alike b) : b.Alike a := Eq.symm alike

end Ty.Alike

namespace Program

variable {p : Program} {origin : ModuleId} {entered : List Symbol}

/-- The tags of a type depend neither on where in a script it is written nor on the script. -/
theorem value_tagsOf_moved (p : Program) (origin : ModuleId) (entered : List Symbol)
    (g : Span → Span) {place place' : Place} (scope : place.scope = place'.scope) (type : Ty) :
    (p.tagsOf origin entered place (type.moved g)).value
      = (p.tagsOf origin entered place' type).value := by
  -- The lists of parts, elements and arguments all come down to their members.
  have all (types : List Ty) (same : ∀ type ∈ types,
      (p.tagsOf origin entered place (type.moved g)).value
        = (p.tagsOf origin entered place' type).value) :
      (p.allTags origin entered place (Ty.movedAll g types)).value
        = (p.allTags origin entered place' types).value := by
    rw [value_allTags, value_allTags, Ty.movedAll_eq_map, List.flatMap_map]
    exact List.flatMap_congr same
  cases type with
  | keyword | function | object | mapped | other => rw [Ty.moved, tagsOf, tagsOf]
  | literal loc form =>
    rw [Ty.moved, tagsOf, tagsOf]
    rfl
  | array loc inner =>
    have inside := value_tagsOf_moved p origin entered g scope inner
    rw [Ty.moved, tagsOf, tagsOf]
    simp only [Noted.bind_value, Noted.pure_value, inside]
  | paren loc inner | optional loc inner | readonly loc inner =>
    rw [Ty.moved, tagsOf, tagsOf]
    exact value_tagsOf_moved p origin entered g scope inner
  | tuple loc parts | union loc parts | intersection loc parts =>
    have inside := all parts fun part mem => by
      have := List.sizeOf_lt_of_mem mem
      exact value_tagsOf_moved p origin entered g scope part
    rw [Ty.moved, tagsOf, tagsOf]
    simp only [Noted.bind_value, Noted.pure_value, inside]
  | reference loc name arguments =>
    -- What a name stands for is looked up in the scope. Only the argument of an array is read.
    have global : p.globalTags origin entered place name (Ty.movedAll g arguments)
        = p.globalTags origin entered place' name arguments := by
      unfold globalTags
      cases arguments with
      | nil => rw [Ty.movedAll]
      | cons argument rest =>
        rw [Ty.movedAll]
        dsimp only
        rw [value_tagsOf_moved p origin entered g scope argument]
    rw [Ty.moved, value_tagsOf_reference, value_tagsOf_reference]
    unfold referredTags
    rw [global, scope]
termination_by sizeOf type

/-- The tags of types that are written alike are the same in one scope. -/
theorem value_tagsOf_of_alike (place place' : Place) (scope : place.scope = place'.scope)
    {a b : Ty} (alike : a.Alike b) :
    (p.tagsOf origin entered place a).value = (p.tagsOf origin entered place' b).value := by
  have left := p.value_tagsOf_moved origin entered (fun _ => default)
    (rfl : place.scope = place.scope) a
  have right := p.value_tagsOf_moved origin entered (fun _ => default) scope b
  rw [← left, ← right]
  exact congrArg (fun type => (p.tagsOf origin entered place type).value) alike

end Program

end TypedProps
