import Mathlib.Order.Compare
import TypedProps.Command.Selection

/-!
# `TypedProps.Proofs.Paths.Order`: paths in the order of their components

Paths are compared by their components, and components by their kind or, for two names, by these.
Both comparisons are linear orders. Sorting keeps of several paths with the same components one, so a
list of sorted paths increases strictly (`pairwise_sortPaths`) and misses none
(`exists_same_mem_sortPaths`).
-/

set_option autoImplicit false

namespace TypedProps

namespace Path

/-- The text of a component, which only names have. -/
def Component.text : Component → String
  | .name s => s
  | .root | .here | .up => ""

/-- Components are compared by their kinds, and then by their text. -/
theorem Component.compare_eq :
    Component.compare = compareLex (compareOn compare.rank) (compareOn Component.text) := by
  funext a b
  cases a <;> cases b <;> rfl

instance : Std.TransCmp Component.compare := by
  rw [Component.compare_eq]
  infer_instance

instance : Std.LawfulEqCmp Component.compare where
  compare_self {a} := Std.ReflCmp.compare_self
  eq_of_compare {a b} h := by
    rw [Component.compare_eq, compareLex_eq_eq] at h
    obtain ⟨sameKind, sameText⟩ := h
    have kinds := Std.LawfulEqOrd.eq_of_compare sameKind
    have texts := Std.LawfulEqOrd.eq_of_compare sameText
    cases a <;> cases b <;> first | exact congrArg Component.name texts | rfl | cases kinds

/-- Component lists are compared by their first difference. -/
theorem compareComponents_eq : compareComponents = List.compareLex Component.compare := by
  funext as bs
  induction as generalizing bs with
  | nil => cases bs <;> rfl
  | cons a as ih =>
    cases bs with
    | nil => rfl
    | cons b bs => rw [List.compareLex_cons_cons, compareComponents, ih]

/-- One path comes before another in the order of components. -/
def Before (a b : String) : Prop := compareComponents (components a) (components b) = .lt

theorem Before.trans {a b c : String} (ab : Before a b) (bc : Before b c) : Before a c := by
  unfold Before at ab bc ⊢
  rw [compareComponents_eq] at ab bc ⊢
  exact Std.TransCmp.lt_trans ab bc

/-- A path that comes before another has other components. -/
theorem Before.components_ne {a b : String} (h : Before a b) : components a ≠ components b := by
  intro same
  unfold Before at h
  have self : List.compareLex Component.compare (components b) (components b) = .eq :=
    Std.ReflCmp.compare_self
  rw [compareComponents_eq, same, self] at h
  cases h

end Path

namespace Command

/-- A path that is put in its place is the only one that is new. -/
theorem mem_of_mem_insertPath {path p : String} {list : List String}
    (mem : p ∈ insertPath path list) : p = path ∨ p ∈ list := by
  induction list with
  | nil => exact Or.inl (List.mem_singleton.mp mem)
  | cons first rest ih =>
    rw [insertPath] at mem
    split at mem
    · exact List.mem_cons.mp mem
    · exact Or.inr mem
    · rcases List.mem_cons.mp mem with rfl | mem
      · exact Or.inr List.mem_cons_self
      · exact (ih mem).imp_right (List.mem_cons_of_mem _)

/-- Putting a path in its place keeps the order. -/
theorem pairwise_insertPath (path : String) {list : List String}
    (sorted : list.Pairwise Path.Before) : (insertPath path list).Pairwise Path.Before := by
  -- In its place the path is before all that follows by transitivity; on the way there the first
  -- path stays before the rest, of which the new one is now a part.
  induction list with
  | nil => exact List.pairwise_singleton _ _
  | cons first rest ih =>
    obtain ⟨smallest, sorted_rest⟩ := List.pairwise_cons.mp sorted
    rw [insertPath]
    split
    · rename_i less
      refine List.pairwise_cons.mpr ⟨fun p mem => ?_, sorted⟩
      rcases List.mem_cons.mp mem with rfl | mem
      · exact less
      · exact Path.Before.trans less (smallest p mem)
    · exact sorted
    · rename_i greater
      have less : Path.Before first path := by
        unfold Path.Before
        rw [Path.compareComponents_eq] at greater ⊢
        exact Std.OrientedCmp.lt_of_gt greater
      refine List.pairwise_cons.mpr ⟨fun p mem => ?_, ih sorted_rest⟩
      rcases mem_of_mem_insertPath mem with rfl | mem
      · exact less
      · exact smallest p mem

/-- Sorting adds no path. -/
theorem mem_of_mem_sortPaths {p : String} {paths : List String} (mem : p ∈ sortPaths paths) :
    p ∈ paths := by
  have from_fold (paths sorted : List String)
      (mem : p ∈ paths.foldl (fun sorted path => insertPath path sorted) sorted) :
      p ∈ sorted ∨ p ∈ paths := by
    induction paths generalizing sorted with
    | nil => exact Or.inl mem
    | cons path rest ih =>
      rcases ih _ mem with mem | mem
      · rcases mem_of_mem_insertPath mem with rfl | mem
        · exact Or.inr List.mem_cons_self
        · exact Or.inl mem
      · exact Or.inr (List.mem_cons_of_mem _ mem)
  exact (from_fold paths [] mem).resolve_left List.not_mem_nil

/-- Putting a path in its place takes no other one away. -/
theorem mem_insertPath_of_mem (path : String) {p : String} {list : List String} (mem : p ∈ list) :
    p ∈ insertPath path list := by
  induction list with
  | nil => cases mem
  | cons first rest ih =>
    rw [insertPath]
    split
    · exact List.mem_cons_of_mem _ mem
    · exact mem
    · rcases List.mem_cons.mp mem with rfl | mem
      · exact List.mem_cons_self
      · exact List.mem_cons_of_mem _ (ih mem)

/-- A path that is put in its place is there, or another one with the same components is. -/
theorem exists_same_mem_insertPath (path : String) (list : List String) :
    ∃ p ∈ insertPath path list, Path.components p = Path.components path := by
  induction list with
  | nil => exact ⟨path, List.mem_singleton.mpr rfl, rfl⟩
  | cons first rest ih =>
    rw [insertPath]
    split
    · exact ⟨path, List.mem_cons_self, rfl⟩
    · rename_i equal
      rw [Path.compareComponents_eq] at equal
      exact ⟨first, List.mem_cons_self, (Std.LawfulEqCmp.eq_of_compare equal).symm⟩
    · obtain ⟨p, mem, same⟩ := ih
      exact ⟨p, List.mem_cons_of_mem _ mem, same⟩

/-- Sorting keeps of each path itself or another one with the same components. -/
theorem exists_same_mem_sortPaths {path : String} {paths : List String} (mem : path ∈ paths) :
    ∃ p ∈ sortPaths paths, Path.components p = Path.components path := by
  have kept (paths : List String) {p : String} {sorted : List String} (mem : p ∈ sorted) :
      p ∈ paths.foldl (fun sorted path => insertPath path sorted) sorted := by
    induction paths generalizing sorted with
    | nil => exact mem
    | cons first rest ih => exact ih (mem_insertPath_of_mem first mem)
  have from_fold (sorted : List String) :
      ∃ p ∈ paths.foldl (fun sorted path => insertPath path sorted) sorted,
        Path.components p = Path.components path := by
    induction paths generalizing sorted with
    | nil => cases mem
    | cons first rest ih =>
      rcases List.mem_cons.mp mem with rfl | mem
      · obtain ⟨p, there, same⟩ := exists_same_mem_insertPath path sorted
        exact ⟨p, kept rest there, same⟩
      · exact ih mem _
  exact from_fold []

/-- Sorted paths increase strictly. -/
theorem pairwise_sortPaths (paths : List String) : (sortPaths paths).Pairwise Path.Before := by
  have from_fold (sorted : List String) (h : sorted.Pairwise Path.Before) :
      (paths.foldl (fun sorted path => insertPath path sorted) sorted).Pairwise Path.Before := by
    induction paths generalizing sorted with
    | nil => exact h
    | cons path rest ih => exact ih _ (pairwise_insertPath path h)
  exact from_fold [] List.Pairwise.nil

end Command

end TypedProps
