import TypedProps.Patch
import TypedProps.Proofs.Tags.Copies
import TypedProps.Proofs.Tags.Merging

/-!
# `TypedProps.Proofs.Tags.Unions`: unions that are written in another way

The members of a union may be written in another order, more than once, in groups, or under the name
of an alias (`Program.SameUnion`). What a property of that type requires, and the constructors that
its record names, stay the same. The order of the constructors stays the same too, as long as each
member keeps its first place. `propertyOf_of_sameUnion` has all of that.

Everything rests on the order of the first occurrences in the tags of the two types. Merging keeps
it, and putting lists together does (`Tag.Same.append`), so it does not matter at which depth a
union is merged.
-/

set_option autoImplicit false

namespace TypedProps

namespace Tag

/-- Two lists have the same tags, and if it is asked for, their first occurrences stand in the same
order. -/
def Same (ordered : Bool) (tags tags' : List Tag) : Prop :=
  if ordered then tags.eraseDups = tags'.eraseDups else ∀ t, t ∈ tags ↔ t ∈ tags'

namespace Same

variable {ordered : Bool} {a b c d : List Tag}

/-- The same first occurrences are enough in any case. -/
theorem of_eraseDups_eq (same : a.eraseDups = b.eraseDups) : Same ordered a b := by
  cases ordered with
  | true => exact same
  | false =>
    intro t
    rw [← List.mem_eraseDups, same, List.mem_eraseDups]

theorem mem_iff (same : Same ordered a b) (t : Tag) : t ∈ a ↔ t ∈ b := by
  cases ordered with
  | true =>
    have same : a.eraseDups = b.eraseDups := same
    rw [← List.mem_eraseDups, same, List.mem_eraseDups]
  | false => exact same t

theorem refl : Same ordered a a := of_eraseDups_eq rfl

theorem symm (same : Same ordered a b) : Same ordered b a := by
  cases ordered with
  | true => exact Eq.symm same
  | false => exact fun t => (same t).symm

theorem trans (same : Same ordered a b) (same' : Same ordered b c) : Same ordered a c := by
  cases ordered with
  | true => exact Eq.trans same same'
  | false => exact fun t => (same t).trans (same' t)

/-- Lists that are put together may be replaced by others. -/
theorem append (same : Same ordered a b) (same' : Same ordered c d) :
    Same ordered (a ++ c) (b ++ d) := by
  cases ordered with
  | true => exact eraseDups_append_congr same same'
  | false =>
    intro t
    rw [List.mem_append, List.mem_append, same.mem_iff, same'.mem_iff]

/-- Leaving out repetitions does not matter. -/
theorem eraseDups : Same ordered a.eraseDups a :=
  of_eraseDups_eq (eraseDups_of_nodup (nodup_eraseDups a))

end Same

/-- The constructors of the same tags are the same, in some order. -/
theorem constructors_perm {tags tags' : List Tag} (same : ∀ t, t ∈ tags ↔ t ∈ tags') :
    (constructors tags).Perm (constructors tags') := by
  have uncheckable : tags.any isUncheckable = tags'.any isUncheckable := by
    rw [Bool.eq_iff_iff, List.any_eq_true, List.any_eq_true]
    simp only [same]
  have among (name : String) :
      name ∈ tags.filterMap constructor? ↔ name ∈ tags'.filterMap constructor? := by
    simp only [List.mem_filterMap, same]
  unfold constructors
  rw [uncheckable]
  split
  · exact .refl _
  · exact eraseDups_perm among

end Tag

namespace Program

open Relation

variable {p : Program} {origin m : ModuleId} {ordered : Bool}

/-- `p.SameUnion m ordered a b`: in the scope of a module, one type is the other with the members of
unions written differently. Only if the order does not matter they may be permuted. -/
inductive SameUnion (p : Program) (m : ModuleId) (ordered : Bool) : Ty → Ty → Prop
  | copy {a b : Ty} (alike : a.Alike b) : SameUnion p m ordered a b
  | symm {a b : Ty} (same : SameUnion p m ordered a b) : SameUnion p m ordered b a
  | trans {a b c : Ty} (same : SameUnion p m ordered a b) (same' : SameUnion p m ordered b c) :
      SameUnion p m ordered a c
  | member {loc loc' : Excerpt} {before after : List Ty} {a b : Ty}
      (same : SameUnion p m ordered a b) :
      SameUnion p m ordered (.union loc (before ++ a :: after)) (.union loc' (before ++ b :: after))
  | permuted {loc loc' : Excerpt} {parts parts' : List Ty} (unordered : ordered = false)
      (perm : parts.Perm parts') :
      SameUnion p m ordered (.union loc parts) (.union loc' parts')
  | again {loc loc' : Excerpt} {before between after : List Ty} {a b : Ty} (alike : a.Alike b) :
      SameUnion p m ordered (.union loc (before ++ a :: between ++ b :: after))
        (.union loc' (before ++ a :: between ++ after))
  | grouped {loc loc' spot spot' : Excerpt} {before group after : List Ty} :
      SameUnion p m ordered (.union loc (before ++ .paren spot (.union spot' group) :: after))
        (.union loc' (before ++ group ++ after))
  | paren {loc : Excerpt} {a : Ty} : SameUnion p m ordered (.paren loc a) a
  | alias {loc : Excerpt} {name : EntityName} {id : Identifier} {body : Ty}
      (isPlain : name.more = [])
      (declared : p.declaration? ⟨m, name.first⟩ = some (.typeAlias id [] body))
      (acyclic : ¬ TransGen p.Reads (.symbol ⟨m, name.first⟩) (.symbol ⟨m, name.first⟩)) :
      SameUnion p m ordered (.reference loc name []) body

/-- A name that is declared as an alias in its module has the tags of the alias, if that does not
refer to itself. -/
theorem value_tagsOf_of_own_alias {place : Place} {loc : Excerpt} {name : EntityName}
    {id : Identifier} {generics : List String} {body : Ty} (isPlain : name.more = [])
    (declared : p.declaration? ⟨place.scope, name.first⟩ = some (.typeAlias id generics body))
    (acyclic : ¬ TransGen p.Reads (.symbol ⟨place.scope, name.first⟩)
      (.symbol ⟨place.scope, name.first⟩)) :
    (p.tagsOf origin [] place (.reference loc name [])).value
      = (p.tagsOf origin [] place body).value := by
  have bound : p.symbolAt place.scope name = some ⟨place.scope, name.first⟩ := by
    rw [symbolAt, isPlain]
    exact Option.map_eq_some_iff.mpr ⟨_, declared, rfl⟩
  have referent : p.referent place.scope name = (some ⟨place.scope, name.first⟩, false) := by
    unfold referent
    rw [bound]
    simp only [declared]
  -- The script in which a type is written does not matter.
  have inside : (p.tagsOf origin [] (.inside place.scope) body).value
      = (p.tagsOf origin [] place body).value :=
    value_tagsOf_of_alike (.inside place.scope) place rfl (.refl body)
  rw [tagsOf_reference, referent, Noted.bind_value, tagsOfReferent_of_alias declared acyclic,
    inside]
  rfl

/-- Unions have the same tags if their parts have, one after the other. -/
theorem same_tagsOf_union {place : Place} {loc loc' : Excerpt} {parts parts' : List Ty}
    (same : Tag.Same ordered
      (parts.flatMap fun part => (p.tagsOf origin [] place part).value)
      (parts'.flatMap fun part => (p.tagsOf origin [] place part).value)) :
    Tag.Same ordered (p.tagsOf origin [] place (.union loc parts)).value
      (p.tagsOf origin [] place (.union loc' parts')).value := by
  rw [value_tagsOf_union, value_tagsOf_union]
  exact Tag.Same.eraseDups.trans (same.trans Tag.Same.eraseDups.symm)

/-- Types that differ in how unions are written have the same tags. -/
theorem same_tagsOf_of_sameUnion (origin : ModuleId) {place : Place} {a b : Ty}
    (same : p.SameUnion place.scope ordered a b) :
    Tag.Same ordered (p.tagsOf origin [] place a).value (p.tagsOf origin [] place b).value := by
  -- In every case but a permutation the first occurrences of the tags stay where they are.
  induction same with
  | copy alike => exact .of_eraseDups_eq (by rw [value_tagsOf_of_alike place place rfl alike])
  | symm _ ih => exact ih.symm
  | trans _ _ ih ih' => exact ih.trans ih'
  | member _ ih =>
    refine same_tagsOf_union ?_
    rw [List.flatMap_append, List.flatMap_append, List.flatMap_cons, List.flatMap_cons]
    exact .append .refl (.append ih .refl)
  | permuted unordered perm =>
    subst unordered
    refine same_tagsOf_union fun t => ?_
    rw [List.mem_flatMap, List.mem_flatMap]
    simp only [perm.mem_iff]
  | @again loc loc' before between after a b alike =>
    refine same_tagsOf_union ?_
    -- The part that is repeated has no tag that its first occurrence does not have.
    have known (t : Tag) (mem : t ∈ (p.tagsOf origin [] place b).value) :
        t ∈ (before ++ a :: between).flatMap fun part => (p.tagsOf origin [] place part).value := by
      rw [← value_tagsOf_of_alike place place rfl alike] at mem
      exact List.mem_flatMap.mpr ⟨a, by simp, mem⟩
    have split (others : List Ty) : (before ++ a :: between ++ others).flatMap
          (fun part => (p.tagsOf origin [] place part).value)
        = (before ++ a :: between).flatMap (fun part => (p.tagsOf origin [] place part).value)
          ++ others.flatMap fun part => (p.tagsOf origin [] place part).value :=
      List.flatMap_append
    rw [split, split, List.flatMap_cons, ← List.append_assoc]
    exact .append (.of_eraseDups_eq (eraseDups_append_of_subset known)) .refl
  | @grouped loc loc' spot spot' before group after =>
    -- A group has its own tags merged, which is undone by merging all of them.
    have inside : Tag.Same ordered
        (p.tagsOf origin [] place (.paren spot (.union spot' group))).value
        (group.flatMap fun part => (p.tagsOf origin [] place part).value) := by
      rw [tagsOf, value_tagsOf_union]
      exact .eraseDups
    refine same_tagsOf_union ?_
    rw [List.flatMap_append, List.flatMap_append, List.flatMap_append, List.flatMap_cons,
      List.append_assoc]
    exact .append .refl (.append inside .refl)
  | paren => exact .of_eraseDups_eq (by rw [tagsOf])
  | «alias» isPlain declared acyclic =>
    exact .of_eraseDups_eq (by rw [value_tagsOf_of_own_alias isPlain declared acyclic])

/-- The record of a property names the constructors of the tags of its type. -/
theorem constructors_recordOf {place : Place} {type : Ty} {q : Property}
    (typed : q.type = (p.resolveType origin place type).value) (options : Options) :
    (Patch.recordOf options q).constructors
      = Tag.constructors (p.tagsOf origin [] place type).value.eraseDups := by
  unfold Patch.recordOf
  dsimp only
  rw [typed]
  cases resolves : (p.resolveType origin place type).value with
  | none =>
    -- Without a tag there is no constructor either.
    have tags := @map_tags_resolveType p origin place type
    rw [resolves, Tag.merge_nil] at tags
    dsimp only at tags
    split at tags
    · rename_i empty
      rw [List.isEmpty_iff.mp empty]
      rfl
    · cases tags
  | some resolved =>
    rw [← tags_of_resolveType resolves]
    rfl

/-- Whether a resolved type has a tag is seen from the tags of the type. -/
theorem contains_resolveType (place : Place) (type : Ty) (t : Tag) :
    ((p.resolveType origin place type).value.map (·.contains t)).getD false
      = decide (t ∈ (p.tagsOf origin [] place type).value) := by
  rw [Bool.eq_iff_iff, decide_eq_true_iff, ← mem_resolveType_iff]
  cases (p.resolveType origin place type).value with
  | none => simp
  | some resolved => simp [ResolvedType.contains]

/-- A property whose type is a union written differently differs in its resolved type only, and the
constructors that its record names are the same. If the members keep their first places, so do the
constructors. -/
theorem propertyOf_of_sameUnion (p : Program) (origin : ModuleId) (place : Place) {a b : Ty}
    (same : p.SameUnion place.scope ordered a b) {loc : Excerpt} {docs : List String}
    {key : Option String} {optional : Bool} {q : Property}
    (declared : (p.propertyOf origin place (.property loc docs key optional (some a))).value
      = some q) :
    ∃ q', (p.propertyOf origin place (.property loc docs key optional (some b))).value = some q' ∧
      q' = { q with type := q'.type } ∧ ∀ options,
        (Patch.recordOf options q').constructors.Perm (Patch.recordOf options q).constructors ∧
        (ordered = true →
          (Patch.recordOf options q').constructors = (Patch.recordOf options q).constructors) := by
  have tags := same_tagsOf_of_sameUnion origin same
  rw [value_propertyOf_property] at declared
  obtain ⟨name, usable, rfl⟩ := Option.map_eq_some_iff.mp declared
  refine ⟨_, by rw [value_propertyOf_property, usable]; rfl, ?_, fun options => ?_⟩
  · simp only [Option.bind_some, contains_resolveType, tags.mem_iff]
  · rw [constructors_recordOf rfl, constructors_recordOf rfl]
    constructor
    · refine Tag.constructors_perm fun t => ?_
      rw [List.mem_eraseDups, List.mem_eraseDups, tags.mem_iff]
    · rintro rfl
      exact congrArg Tag.constructors (Eq.symm tags)

/-! ### An alias of two members -/

/-- Whether a declaration is an alias without parameters of the two keywords. -/
def isAliasOf (first second : Keyword) : Option Declaration → Bool
  | some (.typeAlias _ [] (.union _ [.keyword _ a, .keyword _ b])) => a = first ∧ b = second
  | _ => false

/-- Such a declaration is written so. -/
theorem exists_of_isAliasOf {first second : Keyword} {d : Option Declaration}
    (h : isAliasOf first second d = true) : ∃ id loc left right,
      d = some (.typeAlias id [] (.union loc [.keyword left first, .keyword right second])) := by
  unfold isAliasOf at h
  split at h
  · rename_i id loc left a right b
    obtain ⟨rfl, rfl⟩ := of_decide_eq_true h
    exact ⟨id, loc, left, right, rfl⟩
  · cases h

/-- From keywords no alias is read. -/
theorem not_reads_symbol_of_keywords {m : ModuleId} {loc : Excerpt} {parts : List Ty} {s : Symbol}
    (keywords : ∀ part ∈ parts, ∃ spot word, part = .keyword spot word) :
    ¬ ReflTransGen p.Reads (.type m (.union loc parts)) (.symbol s) := by
  intro reads
  obtain ⟨⟨⟩⟩ | ⟨next, step, reads⟩ := ReflTransGen.cases_head reads
  cases step with
  | inner inside =>
    rcases inside with part | ⟨⟨⟩⟩
    cases part with
    | union mem =>
      obtain ⟨spot, word, rfl⟩ := keywords _ mem
      -- A keyword has neither parts nor elements.
      obtain ⟨⟨⟩⟩ | ⟨next, step, -⟩ := ReflTransGen.cases_head reads
      cases step with
      | inner inside => rcases inside with ⟨⟨⟩⟩ | ⟨⟨⟩⟩

/-- The name of an alias of two keywords, beside another type, is the same as the keywords behind
that type, in another order and one of them twice. -/
theorem sameUnion_of_alias_of_keywords {m : ModuleId} {n : String} {id : Identifier}
    {loc left right : Excerpt} {first second : Keyword}
    (declared : p.declaration? ⟨m, n⟩
      = some (.typeAlias id [] (.union loc [.keyword left first, .keyword right second])))
    (other : Ty) :
    p.SameUnion m false (.union default [.reference default (.plain n) [], other])
      (.union default [other, .keyword right second, .keyword left first,
        .keyword right second]) := by
  let a : Ty := .keyword left first
  let b : Ty := .keyword right second
  have acyclic : ¬ TransGen p.Reads (.symbol ⟨m, n⟩) (.symbol ⟨m, n⟩) := by
    intro cycle
    obtain ⟨next, step, back⟩ := TransGen.head'_iff.mp cycle
    cases step with
    | body declared' =>
      obtain ⟨-, -, rfl⟩ :=
        Declaration.typeAlias.inj (Option.some.inj (declared.symm.trans declared'))
      exact not_reads_symbol_of_keywords (by simp) back
  have named : p.SameUnion m false (.reference default (.plain n) [])
      (.paren default (.union loc [a, b])) :=
    .trans (.alias rfl declared acyclic) (.symm .paren)
  have grouped : p.SameUnion m false (.union default [.reference default (.plain n) [], other])
      (.union default [a, b, other]) :=
    .trans (@SameUnion.member p m false default default [] [other] _ _ named)
      (@SameUnion.grouped p m false default default default loc [] [a, b] [other])
  have permuted : p.SameUnion m false (.union default [a, b, other])
      (.union default [other, b, a]) :=
    .permuted rfl (List.reverse_perm [other, b, a])
  have again : p.SameUnion m false (.union default [other, b, a])
      (.union default [other, b, a, b]) :=
    .symm (@SameUnion.again p m false default default [other] [a] [] _ _ (.refl b))
  exact grouped.trans (permuted.trans again)

/-- An alias of two keywords, and a property that may be one of them or missing. -/
def idFiles : Sources := .ofList [
  ("/a.ts", .text
    "type Id = string | number\nconst C = defineComponent<{ id: Id | undefined }>({})\n")]

/-- The property is not required, and its record names the two constructors, in some order, because
it is the same with the keywords in place of the alias, in another order and one of them twice. -/
theorem propertyOf_of_sameUnion_alias :
    ∃ p a b q, load idFiles "/a.ts" = .ok p ∧ p.SameUnion 0 false a b ∧
      (p.propertyOf 0 (.inside 0) (.property default [] (some "id") false (some a))).value
        = some q ∧
      (∃ spot spot', a = .union spot [.reference spot' (.plain "Id") [],
        .keyword default .undefined]) ∧
      q.required = false ∧
      (Patch.recordOf .standard q).constructors.Perm ["Number", "String"] := by
  have loads : loadsWith idFiles "/a.ts" (fun p =>
      isAliasOf .string .number (p.declaration? ⟨0, "Id"⟩)) = true := by
    refine loadsWith_of_written (by repeat constructor) ?_
    decide +kernel
  obtain ⟨p, loaded, isAlias⟩ := exists_of_loadsWith loads
  obtain ⟨id, loc, left, right, declared⟩ := exists_of_isAliasOf isAlias
  let string : Ty := .keyword left .string
  let number : Ty := .keyword right .number
  let undefined : Ty := .keyword default .undefined
  have same := sameUnion_of_alias_of_keywords declared undefined
  obtain ⟨q, isProperty⟩ : ∃ q, (p.propertyOf 0 (.inside 0) (.property default [] (some "id") false
      (some (.union default [.reference default (.plain "Id") [], undefined])))).value = some q :=
    ⟨_, rfl⟩
  obtain ⟨q', isProperty', differs, constructors⟩ :=
    propertyOf_of_sameUnion p 0 (.inside 0) same isProperty
  -- The other form has no alias in it, so its tags are those of the keywords.
  have tags : (p.tagsOf 0 [] (.inside 0)
      (.union default [undefined, number, string, number])).value
      = [.undefined, .number, .string] := by
    rw [value_tagsOf_union]
    simp only [undefined, number, string, List.flatMap_cons, List.flatMap_nil, tagsOf]
    decide
  refine ⟨p, _, _, q, loaded, same, isProperty, ⟨_, _, rfl⟩, ?_, ?_⟩
  · rw [← congrArg Property.required differs, required_eq_false_iff isProperty']
    exact Or.inr ⟨_, rfl, by rw [tags]; decide⟩
  · have typed : q'.type = (p.resolveType 0 (.inside 0)
        (.union default [undefined, number, string, number])).value := by
      obtain rfl := Option.some.inj isProperty'
      rfl
    have named : (Patch.recordOf .standard q').constructors = ["Number", "String"] := by
      rw [constructors_recordOf typed, tags]
      decide
    rw [← named]
    exact (constructors .standard).1.symm

end Program

end TypedProps
