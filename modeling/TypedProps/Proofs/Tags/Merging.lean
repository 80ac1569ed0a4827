import Mathlib.Data.List.Perm.Basic
import TypedProps.Proofs.Program.BreadthFirst
import TypedProps.Proofs.Tags.Transparency

/-!
# `TypedProps.Proofs.Tags.Merging`: what a merged list of tags depends on

Merging tags keeps the first occurrence of each (`Tag.merge_nil`). So a merged list has no
repetitions, and it depends on the order of the first occurrences alone. That order survives where
lists are put together (`eraseDups_append_congr`), merged before or not. Without it there are still
the same tags, in some order (`eraseDups_perm`).
-/

set_option autoImplicit false

namespace TypedProps

section FirstOccurrences

variable {α : Type} [DecidableEq α]

/-- A list without repetitions stays as it is. -/
theorem eraseDups_of_nodup {list : List α} (nodup : list.Nodup) : list.eraseDups = list := by
  induction list with
  | nil => rfl
  | cons a rest ih =>
    obtain ⟨new, nodup⟩ := List.nodup_cons.mp nodup
    have others : rest.filter (fun b => !b == a) = rest := by
      refine List.filter_eq_self.mpr fun b mem => ?_
      have : b ≠ a := fun same => new (same ▸ mem)
      simp [this]
    rw [List.eraseDups_cons, others, ih nodup]

/-- Of a list, some elements and the repetitions are left out in either order. -/
theorem eraseDups_filter (keep : α → Bool) (list : List α) :
    (list.filter keep).eraseDups = list.eraseDups.filter keep := by
  cases list with
  | nil => rfl
  | cons a rest =>
    have others := eraseDups_filter keep (rest.filter fun b => !b == a)
    rw [List.eraseDups_cons]
    cases kept : keep a with
    | true =>
      rw [List.filter_cons_of_pos kept, List.filter_cons_of_pos kept, List.eraseDups_cons,
        ← others, List.filter_filter, List.filter_filter]
      simp only [Bool.and_comm]
    | false =>
      -- The repetitions of `a` are left out by `keep` anyway.
      have dropped : (rest.filter fun b => !b == a).filter keep = rest.filter keep := by
        rw [List.filter_filter]
        refine List.filter_congr fun b _ => ?_
        by_cases same : b = a
        · simp [same, kept]
        · simp [same]
      rw [List.filter_cons_of_neg (by simp [kept]), List.filter_cons_of_neg (by simp [kept]),
        ← others, dropped]
termination_by list.length
decreasing_by
  have := List.length_filter_le (fun b => !b == a) rest
  simp only [List.length_cons]
  omega

/-- The first occurrences in two lists, one after the other, are those in the first one and then
those in the second one that are new. -/
theorem eraseDups_append (first rest : List α) :
    (first ++ rest).eraseDups
      = first.eraseDups ++ rest.eraseDups.filter fun a => decide (a ∉ first.eraseDups) := by
  rw [List.eraseDups_append, List.removeAll, eraseDups_filter]
  congr 1
  refine List.filter_congr fun a _ => ?_
  simp [List.mem_eraseDups]

/-- The order of first occurrences survives where lists are put together. -/
theorem eraseDups_append_congr {first first' rest rest' : List α}
    (same : first.eraseDups = first'.eraseDups) (same' : rest.eraseDups = rest'.eraseDups) :
    (first ++ rest).eraseDups = (first' ++ rest').eraseDups := by
  rw [eraseDups_append, eraseDups_append first', same, same']

/-- What is there already may be said again. -/
theorem eraseDups_append_of_subset {first rest : List α} (known : ∀ a ∈ rest, a ∈ first) :
    (first ++ rest).eraseDups = first.eraseDups := by
  have none : rest.eraseDups.filter (fun a => decide (a ∉ first.eraseDups)) = [] := by
    refine List.filter_eq_nil_iff.mpr fun a mem => ?_
    have := known a (List.mem_eraseDups.mp mem)
    simp [List.mem_eraseDups, this]
  rw [eraseDups_append, none, List.append_nil]

/-- What a list is mapped to depends on its first occurrences, as far as first occurrences go. -/
theorem eraseDups_map_eraseDups {β : Type} [DecidableEq β] (f : α → β) (list : List α) :
    (list.eraseDups.map f).eraseDups = (list.map f).eraseDups := by
  cases list with
  | nil => rfl
  | cons a rest =>
    have others := eraseDups_map_eraseDups f (rest.filter fun b => !b == a)
    -- What is mapped to `f a` is left out again on both sides.
    have dropped : ((rest.filter fun b => !b == a).map f).filter (fun c => !c == f a)
        = (rest.map f).filter fun c => !c == f a := by
      rw [List.filter_map, List.filter_filter, List.filter_map]
      congr 1
      refine List.filter_congr fun b _ => ?_
      by_cases same : b = a
      · simp [same]
      · simp [same]
    rw [List.eraseDups_cons, List.map_cons, List.map_cons, List.eraseDups_cons,
      List.eraseDups_cons, eraseDups_filter, others, ← eraseDups_filter, dropped]
termination_by list.length
decreasing_by
  have := List.length_filter_le (fun b => !b == a) rest
  simp only [List.length_cons]
  omega

/-- Lists of the same things have the same first occurrences, in some order. -/
theorem eraseDups_perm {list list' : List α} (same : ∀ a, a ∈ list ↔ a ∈ list') :
    list.eraseDups.Perm list'.eraseDups := by
  refine (List.perm_ext_iff_of_nodup (nodup_eraseDups _) (nodup_eraseDups _)).mpr fun a => ?_
  rw [List.mem_eraseDups, List.mem_eraseDups, same]

end FirstOccurrences

namespace Tag

/-- Merging adds the first occurrences of what is new. -/
theorem merge_eq (tags more : List Tag) :
    merge tags more = tags ++ (more.filter fun t => decide (t ∉ tags)).eraseDups := by
  induction more generalizing tags with
  | nil => exact (List.append_nil tags).symm
  | cons t rest ih =>
    have step : merge tags (t :: rest) = merge (add tags t) rest := rfl
    rw [step, ih]
    unfold add
    split
    · rename_i known
      rw [List.filter_cons_of_neg (by simp [known])]
    · rename_i new
      rw [List.filter_cons_of_pos (by simp [new]), List.eraseDups_cons, List.append_assoc,
        List.singleton_append, List.filter_filter]
      congr 3
      refine List.filter_congr fun u _ => ?_
      by_cases same : u = t
      · simp [same]
      · simp [same]

/-- A merged list keeps the first occurrence of each tag. -/
theorem merge_nil (tags : List Tag) : merge [] tags = tags.eraseDups := by
  rw [merge_eq]
  simp

/-- A merged list has no repetitions. -/
theorem nodup_merge_nil (tags : List Tag) : (merge [] tags).Nodup := by
  rw [merge_nil]
  exact nodup_eraseDups tags

end Tag

namespace Program

variable {p : Program} {origin : ModuleId}

/-- The tags of a union are those of its parts, each where it is first. -/
theorem value_tagsOf_union (p : Program) (origin : ModuleId) (entered : List Symbol) (place : Place)
    (loc : Excerpt) (parts : List Ty) :
    (p.tagsOf origin entered place (.union loc parts)).value
      = (parts.flatMap fun part => (p.tagsOf origin entered place part).value).eraseDups := by
  rw [tagsOf, Noted.bind_value, value_allTags, Noted.pure_value, Tag.merge_nil]

/-- A resolved type has the tags of the type, each where it is first. -/
theorem tags_of_resolveType {place : Place} {type : Ty} {resolved : ResolvedType}
    (resolves : (p.resolveType origin place type).value = some resolved) :
    resolved.tags = (p.tagsOf origin [] place type).value.eraseDups := by
  have tags := @map_tags_resolveType p origin place type
  rw [resolves, Option.map_some] at tags
  dsimp only at tags
  rw [← Tag.merge_nil]
  split at tags
  · cases tags
  · exact Option.some.inj tags

/-- A type resolves to nothing exactly if it has no tags. -/
theorem resolveType_eq_none_iff {place : Place} {type : Ty} :
    (p.resolveType origin place type).value = none ↔
      (p.tagsOf origin [] place type).value = [] := by
  have tags := @map_tags_resolveType p origin place type
  dsimp only at tags
  rw [← Option.map_eq_none_iff (f := ResolvedType.tags), tags]
  constructor
  · intro nothing
    split at nothing
    · rename_i empty
      rw [Tag.merge_nil, List.isEmpty_iff] at empty
      refine List.eq_nil_iff_forall_not_mem.mpr fun t mem => ?_
      have mem := List.mem_eraseDups.mpr mem
      rw [empty] at mem
      cases mem
    · cases nothing
  · intro empty
    rw [empty]
    rfl

/-- What holds of the tags of two types holds of what they resolve to, if they resolve together. -/
theorem resolveType_rel {place place' : Place} {type type' : Ty} {S : List Tag → List Tag → Prop}
    (empty : (p.tagsOf origin [] place type).value = [] ↔
      (p.tagsOf origin [] place' type').value = [])
    (holds : S (p.tagsOf origin [] place type).value.eraseDups
      (p.tagsOf origin [] place' type').value.eraseDups) :
    Option.Rel (fun a b => S a.tags b.tags) (p.resolveType origin place type).value
      (p.resolveType origin place' type').value := by
  rw [← resolveType_eq_none_iff, ← resolveType_eq_none_iff] at empty
  cases left : (p.resolveType origin place type).value with
  | none =>
    rw [empty.mp left]
    exact .none
  | some resolved =>
    cases right : (p.resolveType origin place' type').value with
    | none => cases left.symm.trans (empty.mpr right)
    | some resolved' =>
      refine .some ?_
      rwa [tags_of_resolveType left, tags_of_resolveType right]

end Program

end TypedProps
