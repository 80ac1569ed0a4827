import TypedProps.Proofs.Pass.Components
import TypedProps.Proofs.Property.Recursion

/-!
# `TypedProps.Proofs.Pass.Recursion`: a pass ends, and reports what contains itself

That the steps of a pass end is part of `computes_resolveType` and `computes_propertiesOf`. They
report what is noted, as far as it is shown, and `Program.readsAgain_nil_iff` and
`Program.expandsAgain_nil_iff` say when a type is noted for being recursive. So a pass reports it
exactly if there is an alias, or for members an alias or an interface, that can be reached and that
can be reached from itself (`recursiveType_reported_iff`). What is only shared by several ways is
released before it is entered again.
-/

set_option autoImplicit false

namespace TypedProps.Pass

open Relation

variable {p : Program} {options : Options} {origin : ModuleId}

/-- Problems are shown unless warnings are hidden. -/
theorem mem_shown_iff {diagnostics : List Diagnostic} {d : Diagnostic} :
    d ∈ options.shown diagnostics ↔ options.hideWarnings = false ∧ d ∈ diagnostics := by
  cases hidden : options.hideWarnings with
  | true => simp [shown_eq_nil hidden]
  | false => simp [Options.shown, hidden]

/-- It is noted that a type is recursive while its tags are resolved exactly if an alias is read on
the way, and again on the way from itself. -/
theorem exists_recursiveType_of_resolveType_iff {place : Place} {type : Ty} :
    (∃ d ∈ (p.resolveType origin place type).notes, d.code = .recursiveType) ↔
      ∃ s, ReflTransGen p.Reads (.type place.scope type) (.symbol s) ∧
        TransGen p.Reads (.symbol s) (.symbol s) := by
  rw [Program.notes_resolveType, ← Program.readsAgain_nil_iff,
    ← @Program.exists_mem_notes_tagsOf_iff p origin]
  refine exists_congr fun d => and_iff_left_of_imp fun mem => ?_
  obtain ⟨name, is⟩ := Program.problem_of_mem_notes_tagsOf mem
  rw [Diagnostic.code, is]
  rfl

/-- Every pass ends. It reports that a type is recursive while it resolves tags exactly if an alias
that is read on the way is read again on the way from itself, and while it collects members exactly
if an alias or an interface that can be reached can be reached from itself. -/
theorem recursiveType_reported_iff (p : Program) (options : Options) (origin : ModuleId)
    (place : Place) (type : Ty) (before : List Diagnostic) :
    (∀ extracting, ∃ resolved reported,
      resolveType p options origin place type ⟨before, [], extracting⟩
        = some (resolved, ⟨before ++ reported, [], extracting⟩) ∧
      ((∃ d ∈ reported, d.code = .recursiveType) ↔ options.hideWarnings = false ∧
        ∃ s, ReflTransGen p.Reads (.type place.scope type) (.symbol s) ∧
          TransGen p.Reads (.symbol s) (.symbol s))) ∧
    ∃ properties reported,
      propertiesOf p options origin place type ⟨before, [], []⟩
        = some (properties, ⟨before ++ reported, [], []⟩) ∧
      ((∃ d ∈ reported, ∃ name, d.problem = .recursiveMembers name) ↔
        options.hideWarnings = false ∧
        ∃ s, ReflTransGen p.Expands (.type place type) (.declared s) ∧
          TransGen p.Expands (.declared s) (.declared s)) := by
  constructor
  · intro extracting
    refine ⟨_, _, computes_resolveType place type before, ?_⟩
    rw [← @exists_recursiveType_of_resolveType_iff p origin]
    simp only [mem_shown_iff, and_assoc, exists_and_left]
  · refine ⟨_, _, computes_propertiesOf place type before, ?_⟩
    -- The types of members are resolved on the way, and their problems are of another kind.
    rw [← Program.expandsAgain_nil_iff,
      ← @Program.circular_expandShape_iff p origin [] place.script default]
    simp only [mem_shown_iff, and_assoc, exists_and_left, Program.propertiesOf, Noted.map_notes]
    rfl

end TypedProps.Pass
