import TypedProps.Proofs.Tags.Merging

/-!
# `TypedProps.Proofs.Tags.Repetition`: tags that are there twice

The tags of a resolved type are merged, and so are those of unions, intersections and tuples. Two
steps do not merge. The tags of an array's element are listed as they are, and a reference to a
type-only import takes the constructors from names, which makes one of two names that differ in
nothing else. `Program.Repeats` says where the second step leaves a tag twice, and
`nodup_tagsAt_iff` that nothing else does. The outermost list is merged once more, so such a
repetition is seen only inside an array (`nodup_tags_of_resolveType`).

What is read depends on the aliases that are being followed already. A `Program.Visit` has them
together with the type.
-/

set_option autoImplicit false

namespace TypedProps

/-! ### Lists inside of arrays -/

namespace Tag

/-- `InnerList tags list`: a list is that of an array among some tags, or stands inside of one, at
any depth. -/
inductive InnerList : List Tag → List Tag → Prop
  | here {tags list : List Tag} (mem : .array list ∈ tags) : InnerList tags list
  | inside {tags list inner : List Tag} (mem : .array list ∈ tags) (rest : InnerList list inner) :
      InnerList tags inner

/-- Lists inside of arrays depend on the arrays only. -/
theorem InnerList.mono {tags tags' inner : List Tag} (within : InnerList tags inner)
    (arrays : ∀ list, .array list ∈ tags → .array list ∈ tags') : InnerList tags' inner := by
  cases within with
  | here mem => exact .here (arrays _ mem)
  | inside mem rest => exact .inside (arrays _ mem) rest

/-- Arrays keep what they hold where constructors are taken. -/
theorem array_mem_map_erased {tags list : List Tag} :
    .array list ∈ tags.map erased ↔ .array list ∈ tags := by
  constructor
  · intro mem
    obtain ⟨t, inside, same⟩ := List.mem_map.mp mem
    cases t with
    | array elements =>
      obtain rfl : elements = list := Tag.array.inj same
      exact inside
    | _ => cases same
  · intro mem
    exact List.mem_map.mpr ⟨_, mem, rfl⟩

/-- Two tags that differ only in a constructor have the same name. -/
theorem eq_or_named_of_erased_eq {t u : Tag} (same : t.erased = u.erased) :
    t = u ∨ ∃ n, (t = .named n true ∧ u = .named n false) ∨
      (t = .named n false ∧ u = .named n true) := by
  cases t with
  | named n constructible =>
    cases u with
    | named n' constructible' =>
      obtain ⟨rfl, -⟩ := Tag.named.inj same
      cases constructible <;> cases constructible' <;> simp
    | _ => cases same
  | _ => cases u <;> first | exact Or.inl same | cases same

/-- Taking the constructors leaves no repetition unless a name is there with and without one. -/
theorem nodup_map_erased_iff {tags : List Tag} :
    (tags.map erased).Nodup ↔
      tags.Nodup ∧ ∀ n, .named n true ∈ tags → .named n false ∉ tags := by
  constructor
  · intro nodup
    refine ⟨nodup.of_map, fun n kept lost => ?_⟩
    have same := List.inj_on_of_nodup_map nodup kept lost rfl
    cases same
  · rintro ⟨nodup, apart⟩
    refine List.Nodup.map_on (fun t mem u mem' same => ?_) nodup
    rcases eq_or_named_of_erased_eq same with same | ⟨n, ⟨rfl, rfl⟩ | ⟨rfl, rfl⟩⟩
    · exact same
    · exact absurd mem' (apart n mem)
    · exact absurd mem (apart n mem')

/-- No tag is there twice, except that a name without a constructor may be, and then the name is not
there with one. -/
structure NearlyNodup (tags : List Tag) : Prop where
  once : ∀ t, (∀ n, t ≠ .named n false) → tags.count t ≤ 1
  twice : ∀ n, tags.count (.named n true) + tags.count (.named n false) ≤ 2

/-- Without repetitions a name is there at most with and without a constructor. -/
theorem NearlyNodup.of_nodup {tags : List Tag} (nodup : tags.Nodup) : NearlyNodup tags := by
  have most := List.nodup_iff_count_le_one.mp nodup
  exact ⟨fun t _ => most t, fun n => Nat.add_le_add (most _) (most _)⟩

/-- Where constructors are taken, names without one are those that had one and those that had
none. -/
theorem count_named_map_erased (n : String) (tags : List Tag) :
    (tags.map erased).count (.named n false)
      = tags.count (.named n true) + tags.count (.named n false) := by
  induction tags with
  | nil => rfl
  | cons t rest ih =>
    rw [List.map_cons, List.count_cons, List.count_cons, List.count_cons, ih]
    cases t with
    | named n' constructible =>
      by_cases same : n' = n
      · cases constructible <;> simp [same, erased] <;> omega
      · simp [same, erased]
    | _ => simp [erased]

/-- Taking constructors a second time makes no more repetitions. -/
theorem NearlyNodup.map_erased {tags : List Tag} (nearly : NearlyNodup tags) :
    NearlyNodup (tags.map erased) := by
  have none (n : String) : (tags.map erased).count (.named n true) = 0 := by
    refine List.count_eq_zero.mpr fun mem => ?_
    obtain ⟨t, -, same⟩ := List.mem_map.mp mem
    exact erased_ne_constructible same
  refine ⟨fun t notErased => ?_, fun n => ?_⟩
  · cases t with
    | named n constructible =>
      cases constructible with
      | true => exact Nat.le_of_eq (none n) |>.trans (Nat.zero_le 1)
      | false => exact absurd rfl (notErased n)
    | _ =>
      refine le_trans ?_ (nearly.once _ notErased)
      rw [List.count, List.countP_map]
      refine List.countP_mono_left fun u _ same => ?_
      cases u <;> exact same
  · rw [none, count_named_map_erased, Nat.zero_add]
    exact nearly.twice n

end Tag

namespace Program

open Relation

variable {p : Program} {origin : ModuleId}

/-! ### Reading tags with what is being followed -/

/-- A type at a place, read while some aliases are being followed. -/
structure Visit where
  entered : List Symbol
  place : Place
  type : Ty

/-- The tags that are read there. -/
def tagsAt (p : Program) (origin : ModuleId) (v : Visit) : List Tag :=
  (p.tagsOf origin v.entered v.place v.type).value

/-- One step of reading tags: to a part or an element, to the argument of a global array, or to what
an alias stands for that is not being followed already. -/
inductive Visits (p : Program) : Visit → Visit → Prop
  | inner {entered : List Symbol} {place : Place} {inner type : Ty} (inside : Inner inner type) :
      Visits p ⟨entered, place, type⟩ ⟨entered, place, inner⟩
  | argument {entered : List Symbol} {place : Place} {loc : Excerpt} {name : EntityName}
      {argument : Ty} {rest : List Ty} (undeclared : p.typeDeclared? place.scope name = none)
      (isArray : name.isGlobalArray = true) :
      Visits p ⟨entered, place, .reference loc name (argument :: rest)⟩ ⟨entered, place, argument⟩
  | alias {entered : List Symbol} {place : Place} {loc : Excerpt} {name : EntityName}
      {arguments : List Ty} {s : Symbol} {id : Identifier} {generics : List String} {body : Ty}
      (declared : p.typeDeclared? place.scope name = some (s, .typeAlias id generics body))
      (fresh : s ∉ entered) :
      Visits p ⟨entered, place, .reference loc name arguments⟩
        ⟨s :: entered, .inside s.module, body⟩

/-- The tags of the second type are listed in the tag of the first one, an array, as they are. -/
inductive Lists (p : Program) : Visit → Visit → Prop
  | array {entered : List Symbol} {place : Place} {loc : Excerpt} {element : Ty} :
      Lists p ⟨entered, place, .array loc element⟩ ⟨entered, place, element⟩
  | argument {entered : List Symbol} {place : Place} {loc : Excerpt} {name : EntityName}
      {argument : Ty} {rest : List Ty} (undeclared : p.typeDeclared? place.scope name = none)
      (isArray : name.isGlobalArray = true) :
      Lists p ⟨entered, place, .reference loc name (argument :: rest)⟩ ⟨entered, place, argument⟩

/-- What an array lists is read on the way. -/
theorem Lists.visits {v u : Visit} (lists : p.Lists v u) : p.Visits v u := by
  cases lists with
  | array => exact .inner (Or.inr .array)
  | argument undeclared isArray => exact .argument undeclared isArray

/-- `Wraps inner type`: the one type stands for the other. -/
inductive Wraps : Ty → Ty → Prop
  | paren {loc : Excerpt} {inner : Ty} : Wraps inner (.paren loc inner)
  | optional {loc : Excerpt} {inner : Ty} : Wraps inner (.optional loc inner)
  | readonly {loc : Excerpt} {inner : Ty} : Wraps inner (.readonly loc inner)

/-- The tags of the first type are those of the second one, which it stands for, unless it takes the
constructors from names. -/
inductive Passes (p : Program) : Visit → Visit → Prop
  | wrapped {entered : List Symbol} {place : Place} {inner type : Ty} (wraps : Wraps inner type) :
      Passes p ⟨entered, place, type⟩ ⟨entered, place, inner⟩
  | alias {entered : List Symbol} {place : Place} {loc : Excerpt} {name : EntityName}
      {arguments : List Ty} {s : Symbol} {id : Identifier} {generics : List String} {body : Ty}
      (declared : p.typeDeclared? place.scope name = some (s, .typeAlias id generics body))
      (fresh : s ∉ entered) :
      Passes p ⟨entered, place, .reference loc name arguments⟩
        ⟨s :: entered, .inside s.module, body⟩

/-- Whether a type takes the constructors from names: it is a reference to what is there for types
only. -/
def erases (p : Program) (v : Visit) : Bool :=
  match v.type with
  | .reference _ name _ => (p.referent v.place.scope name).2
  | _ => false

/-- `p.Repeats origin v`: among what a type stands for is a reference that takes constructors away
from tags that have a name with and without one. -/
def Repeats (p : Program) (origin : ModuleId) (v : Visit) : Prop :=
  ∃ w u n, ReflTransGen p.Passes v w ∧ p.Passes w u ∧ p.erases w = true ∧
    .named n true ∈ p.tagsAt origin u ∧ .named n false ∈ p.tagsAt origin u

/-! ### Where a tag is there twice -/

namespace Passes

variable {v u u' : Visit}

/-- What a type stands for is read on the way. -/
theorem visits (passes : p.Passes v u) : p.Visits v u := by
  cases passes with
  | wrapped wraps =>
    cases wraps with
    | paren => exact .inner (Or.inl .paren)
    | optional => exact .inner (Or.inl .optional)
    | readonly => exact .inner (Or.inl .readonly)
  | «alias» declared fresh => exact .alias declared fresh

/-- A type stands for one type only. -/
theorem unique (passes : p.Passes v u) (passes' : p.Passes v u') : u = u' := by
  cases passes with
  | wrapped wraps =>
    cases passes' with
    | wrapped wraps' => cases wraps <;> cases wraps' <;> rfl
    | «alias» => cases wraps
  | «alias» declared fresh =>
    cases passes' with
    | wrapped wraps => cases wraps
    | «alias» declared' fresh' =>
      obtain ⟨rfl, same⟩ := Prod.mk.inj (Option.some.inj (declared.symm.trans declared'))
      obtain ⟨-, -, rfl⟩ := Declaration.typeAlias.inj same
      rfl

/-- A type has the tags of what it stands for, perhaps without the constructors. -/
theorem tagsAt_eq (passes : p.Passes v u) :
    p.tagsAt origin v
      = if p.erases v then (p.tagsAt origin u).map Tag.erased else p.tagsAt origin u := by
  unfold tagsAt
  cases passes with
  | wrapped wraps =>
    dsimp only
    rw [tagsOf.eq_def]
    cases wraps <;> rfl
  | «alias» declared fresh =>
    dsimp only
    rw [value_tagsOf_reference, referredTags_of_alias declared fresh]
    rfl

end Passes

/-- Reading tags ends: behind an alias fewer are left to enter, and else types become smaller. -/
theorem Visits.lt {v u : Visit} (visits : p.Visits v u) :
    Prod.Lex (· < ·) (· < ·) (p.unentered u.entered, sizeOf u.type)
      (p.unentered v.entered, sizeOf v.type) := by
  cases visits with
  | inner inside => exact .right _ inside.sizeOf_lt
  | argument =>
    refine .right _ ?_
    simp only [Ty.reference.sizeOf_spec, List.cons.sizeOf_spec]
    omega
  | «alias» declared fresh =>
    exact .left _ _ (unentered_cons_lt
      (mem_symbols_of_declaration? (declaration?_of_typeDeclared? declared).2) fresh)

/-- A list of at most one thing has no repetitions. -/
theorem nodup_of_length_le_one {list : List Tag} (short : list.length ≤ 1) : list.Nodup := by
  match list, short with
  | [], _ => exact List.nodup_nil
  | [t], _ => exact List.nodup_singleton t

/-- A reference that stands for nothing else has one tag at most. -/
theorem length_tagsOf_reference_le {entered : List Symbol} {place : Place} {loc : Excerpt}
    {name : EntityName} {arguments : List Ty}
    (last : ∀ u, ¬ p.Passes ⟨entered, place, .reference loc name arguments⟩ u) :
    (p.tagsOf origin entered place (.reference loc name arguments)).value.length ≤ 1 := by
  have global : (p.globalTags origin entered place name arguments).length ≤ 1 := by
    unfold globalTags
    split
    · split <;> exact Nat.le_refl 1
    · exact Nat.le_refl 1
  have referred : (p.referredTags origin entered place name arguments).length ≤ 1 := by
    unfold referredTags
    split
    · rename_i declared
      -- An alias has been entered, and gives nothing, or it stands for its body.
      split
      · exact Nat.zero_le 1
      · rename_i fresh
        exact absurd (.alias declared fresh) (last _)
    · exact Nat.le_refl 1
    · exact Nat.le_refl 1
    · exact Nat.le_refl 1
    · exact global
    · exact global
  rw [value_tagsOf_reference]
  split
  · rwa [List.length_map]
  · exact referred

/-- A type that stands for nothing else has its tags once. -/
theorem nodup_tagsAt_of_not_passes {v : Visit} (last : ∀ u, ¬ p.Passes v u) :
    (p.tagsAt origin v).Nodup := by
  obtain ⟨entered, place, type⟩ := v
  unfold tagsAt
  dsimp only
  -- Wrappers stand for what they enclose. All others have one tag at most, or merge their tags.
  cases type with
  | reference => exact nodup_of_length_le_one (length_tagsOf_reference_le last)
  | paren => exact absurd (.wrapped .paren) (last _)
  | optional => exact absurd (.wrapped .optional) (last _)
  | readonly => exact absurd (.wrapped .readonly) (last _)
  | keyword loc word =>
    rw [tagsOf]
    exact nodup_of_length_le_one Option.length_toList_le
  | literal loc form =>
    rw [tagsOf]
    exact nodup_of_length_le_one Option.length_toList_le
  | array | tuple | function | object | mapped =>
    rw [tagsOf]
    exact List.nodup_singleton _
  | union | intersection =>
    rw [tagsOf]
    exact Tag.nodup_merge_nil _
  | other =>
    rw [tagsOf]
    exact List.nodup_nil

/-- A type repeats tags if what it stands for does, or if it takes constructors away from a name
that is there with and without one. -/
theorem Passes.repeats_iff {v u : Visit} (passes : p.Passes v u) :
    p.Repeats origin v ↔ p.Repeats origin u ∨ p.erases v = true ∧ ∃ n,
      .named n true ∈ p.tagsAt origin u ∧ .named n false ∈ p.tagsAt origin u := by
  constructor
  · rintro ⟨w, u', n, leads, passes', erases, kept, lost⟩
    rcases ReflTransGen.cases_head leads with rfl | ⟨next, passes'', leads⟩
    · obtain rfl := passes.unique passes'
      exact Or.inr ⟨erases, n, kept, lost⟩
    · obtain rfl := passes.unique passes''
      exact Or.inl ⟨w, u', n, leads, passes', erases, kept, lost⟩
  · rintro (⟨w, u', n, leads, repeats⟩ | ⟨erases, n, kept, lost⟩)
    · exact ⟨w, u', n, .head passes leads, repeats⟩
    · exact ⟨v, u, n, .refl, passes, erases, kept, lost⟩

/-- A tag is there twice exactly where a type repeats tags. -/
theorem nodup_tagsAt_iff (v : Visit) : (p.tagsAt origin v).Nodup ↔ ¬ p.Repeats origin v := by
  by_cases further : ∃ u, p.Passes v u
  · obtain ⟨u, passes⟩ := further
    have behind : (p.tagsAt origin u).Nodup ↔ ¬ p.Repeats origin u := nodup_tagsAt_iff u
    rw [passes.tagsAt_eq, passes.repeats_iff, not_or, ← behind]
    cases p.erases v with
    | false => simp
    | true =>
      rw [if_pos rfl, Tag.nodup_map_erased_iff]
      simp
  · have last := not_exists.mp further
    refine iff_of_true (nodup_tagsAt_of_not_passes last) ?_
    rintro ⟨w, u, n, leads, passes, -⟩
    rcases ReflTransGen.cases_head leads with rfl | ⟨next, passes', -⟩
    · exact last u passes
    · exact last next passes'
termination_by (p.unentered v.entered, sizeOf v.type)
decreasing_by exact passes.visits.lt

/-- A tag is there twice at most, and then it is a name without a constructor. -/
theorem nearlyNodup_tagsAt (v : Visit) : Tag.NearlyNodup (p.tagsAt origin v) := by
  by_cases further : ∃ u, p.Passes v u
  · obtain ⟨u, passes⟩ := further
    have behind : Tag.NearlyNodup (p.tagsAt origin u) := nearlyNodup_tagsAt u
    rw [passes.tagsAt_eq]
    split
    · exact behind.map_erased
    · exact behind
  · exact .of_nodup (nodup_tagsAt_of_not_passes (not_exists.mp further))
termination_by (p.unentered v.entered, sizeOf v.type)
decreasing_by exact passes.visits.lt

/-! ### Lists inside of the tags of a type -/

/-- A global name, arrays apart, has no array for its tag. -/
theorem globalTag_ne_array {name : EntityName} {list : List Tag} :
    name.globalTag ≠ .array list := by
  unfold EntityName.globalTag
  split <;> try simp
  split <;> simp

/-- No type but an array or a tuple gives the tag of an array by itself. -/
theorem not_gives_array {leaf : ModuleId × Ty} {list : List Tag} :
    ¬ p.Gives origin leaf (.array list) := by
  intro gives
  generalize same : Tag.array list = t at gives
  cases gives with
  | @keyword m loc word t tag =>
    subst same
    cases word <;> cases tag
  | enumDecl =>
    unfold enumTag at same
    split at same <;> cases same
  | @global m loc name arguments undeclared notArray =>
    split at same
    · have kept : .array list ∈ [name.globalTag].map Tag.erased := by
        rw [same]
        exact List.mem_singleton_self _
      exact globalTag_ne_array (List.mem_singleton.mp (Tag.array_mem_map_erased.mp kept)).symm
    · exact globalTag_ne_array same.symm
  | literal | function | object | mapped | interfaceDecl | classDecl => cases same

/-- An array that lists the tags of another type as they are is there. -/
theorem Lists.array_mem {v u : Visit} (origin : ModuleId) (lists : p.Lists v u) :
    .array (p.tagsAt origin u) ∈ p.tagsAt origin v := by
  unfold tagsAt
  cases lists with
  | array =>
    dsimp only
    rw [tagsOf.eq_def]
    exact List.mem_singleton_self _
  | argument undeclared isArray =>
    dsimp only
    rw [value_tagsOf_reference, referredTags_of_isGlobalArray undeclared isArray]
    split <;> exact List.mem_singleton_self _

/-- An array among the tags of a type lists those of another type as they are, or it lists merged
ones, or it is there because of what is read next. -/
theorem array_mem_cases {v : Visit} {list : List Tag} (mem : .array list ∈ p.tagsAt origin v) :
    (∃ u, p.Lists v u ∧ list = p.tagsAt origin u) ∨
      (list.Nodup ∧ ∀ t ∈ list, ∃ u, p.Visits v u ∧ t ∈ p.tagsAt origin u) ∨
      ∃ u, p.Visits v u ∧ .array list ∈ p.tagsAt origin u := by
  obtain ⟨entered, place, type⟩ := v
  unfold tagsAt at mem
  dsimp only at mem
  cases type with
  | array loc element =>
    rw [tagsOf.eq_def] at mem
    obtain rfl := Tag.array.inj (List.mem_singleton.mp mem)
    exact Or.inl ⟨_, .array, rfl⟩
  | tuple loc elements =>
    rw [tagsOf.eq_def] at mem
    obtain rfl := Tag.array.inj (List.mem_singleton.mp mem)
    refine Or.inr (Or.inl ⟨Tag.nodup_merge_nil _, fun t inside => ?_⟩)
    obtain ⟨element, among, inside⟩ := mem_merge_allTags.1 inside
    exact ⟨_, .inner (Or.inr (.tuple among)), inside⟩
  | reference loc name arguments =>
    have referred : .array list ∈ p.referredTags origin entered place name arguments := by
      rw [value_tagsOf_reference] at mem
      split at mem
      · exact Tag.array_mem_map_erased.mp mem
      · exact mem
    rcases mem_tagsOf_reference_cases mem with
      ⟨elements, same, undeclared, isArray, -⟩ | gives | ⟨s, id, generics, body, declared, fresh, -⟩
    · rw [referredTags_of_isGlobalArray undeclared isArray] at referred
      obtain rfl := Tag.array.inj (List.mem_singleton.mp referred)
      cases arguments with
      | nil =>
        exact Or.inr (Or.inl ⟨List.nodup_nil, fun t inside => absurd inside List.not_mem_nil⟩)
      | cons argument rest =>
        exact Or.inl ⟨_, .argument undeclared isArray, rfl⟩
    · exact absurd gives not_gives_array
    · rw [referredTags_of_alias declared fresh] at referred
      exact Or.inr (Or.inr ⟨_, .alias declared fresh, referred⟩)
  | _ =>
    -- These have no elements, and what they have parts of is read next.
    rcases mem_tagsOf_cases mem with
      ⟨elements, same, inside⟩ | gives | ⟨inner, part, mem⟩ | ⟨loc, name, arguments, isReference⟩
    · obtain rfl := Tag.array.inj same
      have empty : list = [] := by
        refine List.eq_nil_iff_forall_not_mem.mpr fun t among => ?_
        obtain ⟨inner, element, -⟩ := inside t among
        cases element
      subst empty
      exact Or.inr (Or.inl ⟨List.nodup_nil, fun t inside => absurd inside List.not_mem_nil⟩)
    · exact absurd gives not_gives_array
    · exact Or.inr (Or.inr ⟨_, .inner (Or.inl part), mem⟩)
    · cases isReference

/-- What is listed inside of the tags of what is read next is listed inside of those of a type. -/
theorem Visits.innerList {v u : Visit} {inner : List Tag} (visits : p.Visits v u)
    (within : Tag.InnerList (p.tagsAt origin u) inner) :
    Tag.InnerList (p.tagsAt origin v) inner := by
  cases visits with
  | @inner entered place element type inside =>
    -- A part has its tags in the type itself, an element has them inside of an array.
    rcases inside with part | element
    · exact within.mono fun list mem => mem_tagsOf_of_part part mem
    · cases element with
      | array => exact .inside (Lists.array.array_mem origin) within
      | @tuple loc elements element among =>
        have merged : .array (Tag.merge [] (p.allTags origin entered place elements).value)
            ∈ p.tagsAt origin ⟨entered, place, .tuple loc elements⟩ := by
          unfold tagsAt
          dsimp only
          rw [tagsOf]
          exact List.mem_singleton_self _
        exact .inside merged (within.mono fun list mem =>
          mem_merge_allTags.2 ⟨element, among, mem⟩)
  | argument undeclared isArray =>
    exact .inside ((Lists.argument undeclared isArray).array_mem origin) within
  | «alias» declared fresh =>
    rw [(Passes.alias declared fresh).tagsAt_eq]
    split
    · exact within.mono fun list => Tag.array_mem_map_erased.mpr
    · exact within

/-- A list inside of the tags of a type is merged, or the tags of an element are listed there as
they are. -/
theorem exists_lists_of_innerList {v : Visit} {inner : List Tag}
    (within : Tag.InnerList (p.tagsAt origin v) inner) :
    inner.Nodup ∨ ∃ w u, ReflTransGen p.Visits v w ∧ p.Lists w u ∧ inner = p.tagsAt origin u := by
  -- The list is found here, or inside of the tags of what is read next.
  have next : inner.Nodup ∨ (∃ u, p.Lists v u ∧ inner = p.tagsAt origin u) ∨
      ∃ u, p.Visits v u ∧ Tag.InnerList (p.tagsAt origin u) inner := by
    cases within with
    | here mem =>
      rcases array_mem_cases mem with ⟨u, lists, rfl⟩ | ⟨nodup, -⟩ | ⟨u, visits, mem⟩
      · exact Or.inr (Or.inl ⟨u, lists, rfl⟩)
      · exact Or.inl nodup
      · exact Or.inr (Or.inr ⟨u, visits, .here mem⟩)
    | inside mem rest =>
      rcases array_mem_cases mem with ⟨u, lists, rfl⟩ | ⟨-, among⟩ | ⟨u, visits, mem⟩
      · exact Or.inr (Or.inr ⟨u, lists.visits, rest⟩)
      · -- One of the merged tags is an array, and it comes from what is read next.
        cases rest with
        | here mem =>
          obtain ⟨u, visits, mem⟩ := among _ mem
          exact Or.inr (Or.inr ⟨u, visits, .here mem⟩)
        | inside mem rest =>
          obtain ⟨u, visits, mem⟩ := among _ mem
          exact Or.inr (Or.inr ⟨u, visits, .inside mem rest⟩)
      · exact Or.inr (Or.inr ⟨u, visits, .inside mem rest⟩)
  rcases next with nodup | ⟨u, lists, rfl⟩ | ⟨u, visits, within⟩
  · exact Or.inl nodup
  · exact Or.inr ⟨v, u, .refl, lists, rfl⟩
  · rcases exists_lists_of_innerList within with nodup | ⟨w, u', reads, lists, same⟩
    · exact Or.inl nodup
    · exact Or.inr ⟨w, u', .head visits reads, lists, same⟩
termination_by (p.unentered v.entered, sizeOf v.type)
decreasing_by exact visits.lt

/-- All lists inside of the tags of a type have each tag once exactly if no array lists those of a
type that repeats tags. -/
theorem nodup_innerLists_iff (v : Visit) :
    (∀ inner, Tag.InnerList (p.tagsAt origin v) inner → inner.Nodup) ↔
      ∀ w u, ReflTransGen p.Visits v w → p.Lists w u → ¬ p.Repeats origin u := by
  constructor
  · intro nodup w u reads lists
    have within : Tag.InnerList (p.tagsAt origin v) (p.tagsAt origin u) := by
      induction reads using ReflTransGen.head_induction_on with
      | refl => exact .here (lists.array_mem origin)
      | head visits _ ih => exact visits.innerList (ih (fun inner within =>
          nodup inner (visits.innerList within)))
    exact (nodup_tagsAt_iff u).mp (nodup _ within)
  · intro once inner within
    rcases exists_lists_of_innerList within with nodup | ⟨w, u, reads, lists, rfl⟩
    · exact nodup
    · exact (nodup_tagsAt_iff u).mpr (once w u reads lists)

/-- The tags of a resolved type are there once. Those in an array, at any depth, are so exactly if
no array on the way lists the tags of a type that repeats tags; in any case only names without a
constructor are there twice, and none more often. -/
theorem nodup_tags_of_resolveType (p : Program) (origin : ModuleId) (place : Place) (type : Ty)
    {resolved : ResolvedType} (resolves : (p.resolveType origin place type).value = some resolved) :
    resolved.tags.Nodup ∧
    (∀ inner, Tag.InnerList resolved.tags inner → Tag.NearlyNodup inner) ∧
    ((∀ inner, Tag.InnerList resolved.tags inner → inner.Nodup) ↔
      ∀ w u, ReflTransGen p.Visits ⟨[], place, type⟩ w → p.Lists w u → ¬ p.Repeats origin u) := by
  have merged : resolved.tags = (p.tagsAt origin ⟨[], place, type⟩).eraseDups :=
    tags_of_resolveType resolves
  have same (inner : List Tag) : Tag.InnerList resolved.tags inner ↔
      Tag.InnerList (p.tagsAt origin ⟨[], place, type⟩) inner := by
    rw [merged]
    exact ⟨fun within => within.mono fun list => List.mem_eraseDups.mp,
      fun within => within.mono fun list => List.mem_eraseDups.mpr⟩
  refine ⟨merged ▸ nodup_eraseDups _, fun inner within => ?_, ?_⟩
  · rcases exists_lists_of_innerList ((same inner).mp within) with nodup | ⟨w, u, -, -, rfl⟩
    · exact .of_nodup nodup
    · exact nearlyNodup_tagsAt u
  · simp only [same]
    exact nodup_innerLists_iff _

/-! ### A name that loses its constructor next to one without -/

/-- Whether a type is a union of two references by single identifiers. -/
def isUnionOf (first second : String) : Ty → Bool
  | .union _ [a, b] => isReferenceTo first a && isReferenceTo second b
  | _ => false

/-- Such a type is written so. -/
theorem exists_of_isUnionOf {first second : String} {type : Ty}
    (h : isUnionOf first second type = true) :
    ∃ spot left right, type = .union spot
      [.reference left (.plain first) [], .reference right (.plain second) []] := by
  unfold isUnionOf at h
  split at h
  · rename_i spot a b
    obtain ⟨isFirst, isSecond⟩ := Bool.and_eq_true_iff.mp h
    obtain ⟨left, rfl⟩ := exists_of_isReferenceTo isFirst
    obtain ⟨right, rfl⟩ := exists_of_isReferenceTo isSecond
    exact ⟨spot, left, right, rfl⟩
  · cases h

/-- A module that imports an alias for types only. The alias stands for a global class and for
another alias of it, which is imported for types only as well. -/
def whenFiles : Sources := .ofList [
  ("/a.ts", .text
    "import type { When } from './d'\nconst C = defineComponent<{ when: When[] }>({})\n"),
  ("/d.ts", .text "import type { Day } from './e'\nexport type When = Date | Day\n"),
  ("/e.ts", .text "export type Day = Date\n")]

/-- In `whenFiles` the name of the global class is there with a constructor and without one. -/
theorem exists_whenFiles :
    ∃ p s id generics body, load whenFiles "/a.ts" = .ok p ∧
      p.referent 0 (.plain "When") = (some s, true) ∧
      p.typeDeclared? 0 (.plain "When") = some (s, .typeAlias id generics body) ∧
      p.tagsAt 0 ⟨[s], .inside s.module, body⟩ = [.named "Date" true, .named "Date" false] := by
  have loads : loadsWith whenFiles "/a.ts" (fun p =>
      (aliasBody? (p.declaration? ⟨1, "When"⟩)).any (isUnionOf "Date" "Day") &&
        (aliasBody? (p.declaration? ⟨2, "Day"⟩)).any (isReferenceTo "Date") && decide
          (p.symbolAt 0 (.plain "When") = some ⟨0, "When"⟩ ∧
            p.symbolAt 1 (.plain "Day") = some ⟨1, "Day"⟩ ∧
            p.symbolAt 1 (.plain "Date") = none ∧ p.symbolAt 2 (.plain "Date") = none ∧
            p.importOf? ⟨0, "When"⟩ = some ([⟨importHop 0 true, 1⟩], "When") ∧
            p.importOf? ⟨1, "Day"⟩ = some ([⟨importHop 1 true, 2⟩], "Day") ∧
            p.finding 1 "When" = .declared (some ⟨1, "When"⟩) (ownHop 1 false) ∧
            p.finding 2 "Day" = .declared (some ⟨2, "Day"⟩) (ownHop 2 false) ∧
            p.importOf? ⟨1, "When"⟩ = none ∧ p.importOf? ⟨2, "Day"⟩ = none ∧
            p.wholeImport ⟨1, "When"⟩ = [] ∧ p.wholeImport ⟨2, "Day"⟩ = [])) = true := by
    refine loadsWith_of_written (by repeat constructor) ?_
    decide +kernel
  obtain ⟨p, loaded, facts⟩ := exists_of_loadsWith loads
  obtain ⟨bodies, facts⟩ := Bool.and_eq_true_iff.mp facts
  obtain ⟨bodyWhen, bodyDay⟩ := Bool.and_eq_true_iff.mp bodies
  obtain ⟨when, declaredWhen, isUnion⟩ := (Option.any_eq_true _ _).mp bodyWhen
  obtain ⟨day, declaredDay, isDate⟩ := (Option.any_eq_true _ _).mp bodyDay
  obtain ⟨boundWhen, boundDay, unbound, unbound', importedWhen, importedDay, foundWhen, foundDay,
    stopsWhen, stopsDay, notWholeWhen, notWholeDay⟩ := of_decide_eq_true facts
  obtain ⟨id, generics, declaredWhen⟩ := exists_of_aliasBody? declaredWhen
  obtain ⟨id', generics', declaredDay⟩ := exists_of_aliasBody? declaredDay
  obtain ⟨spot, left, right, rfl⟩ := exists_of_isUnionOf isUnion
  obtain ⟨loc, rfl⟩ := exists_of_isReferenceTo isDate
  have within : 1 ≤ maxHops := by decide
  have leadsWhen : p.referent 0 (.plain "When") = (some ⟨1, "When"⟩, true) :=
    referent_of_walk boundWhen (by rw [importedWhen]; rfl)
      (.of_search importedWhen (.declared foundWhen) stopsWhen notWholeWhen) within
  have leadsDay : p.referent 1 (.plain "Day") = (some ⟨2, "Day"⟩, true) :=
    referent_of_walk boundDay (by rw [importedDay]; rfl)
      (.of_search importedDay (.declared foundDay) stopsDay notWholeDay) within
  have typeWhen : p.typeDeclared? 0 (.plain "When") = some (⟨1, "When"⟩, .typeAlias id generics
      (.union spot [.reference left (.plain "Date") [], .reference right (.plain "Day") []])) := by
    simp [typeDeclared?, leadsWhen, declaredWhen]
  have typeDay : p.typeDeclared? 1 (.plain "Day")
      = some (⟨2, "Day"⟩, .typeAlias id' generics' (.reference loc (.plain "Date") [])) := by
    simp [typeDeclared?, leadsDay, declaredDay]
  refine ⟨p, _, id, generics, _, loaded, leadsWhen, typeWhen, ?_⟩
  -- Where the alias stands, the class has its constructor, and the other alias has lost it.
  have date : p.tagsAt 0 ⟨[⟨1, "When"⟩], .inside 1, .reference left (.plain "Date") []⟩
      = [.named "Date" true] :=
    value_tagsOf_of_unbound unbound rfl left []
  have date' : p.tagsAt 0 ⟨[⟨2, "Day"⟩, ⟨1, "When"⟩], .inside 2, .reference loc (.plain "Date") []⟩
      = [.named "Date" true] :=
    value_tagsOf_of_unbound unbound' rfl loc []
  have day : p.tagsAt 0 ⟨[⟨1, "When"⟩], .inside 1, .reference right (.plain "Day") []⟩
      = [.named "Date" false] := by
    have erases : p.erases ⟨[⟨1, "When"⟩], .inside 1, .reference right (.plain "Day") []⟩ = true :=
      congrArg Prod.snd leadsDay
    rw [(Passes.alias typeDay (by decide)).tagsAt_eq, erases, date']
    rfl
  have union := p.value_tagsOf_union 0 [⟨1, "When"⟩] (.inside 1) spot
    [.reference left (.plain "Date") [], .reference right (.plain "Day") []]
  rw [tagsAt] at date day ⊢
  rw [union, List.flatMap_cons, List.flatMap_cons, List.flatMap_nil, date, day]
  decide

/-- An array of the name lists a tag twice. -/
theorem innerList_of_whenFiles :
    ∃ p resolved inner, load whenFiles "/a.ts" = .ok p ∧
      (p.resolveType 0 (.inside 0) (.array default (.reference default (.plain "When") []))).value
        = some resolved ∧
      Tag.InnerList resolved.tags inner ∧ inner = [.named "Date" false, .named "Date" false] ∧
      ¬ inner.Nodup := by
  obtain ⟨p, s, id, generics, body, loaded, leads, declared, tags⟩ := exists_whenFiles
  have passes : p.Passes ⟨[], .inside 0, .reference default (.plain "When") []⟩
      ⟨[s], .inside s.module, body⟩ := .alias declared List.not_mem_nil
  have erases : p.erases ⟨[], .inside 0, .reference default (.plain "When") []⟩ = true :=
    congrArg Prod.snd leads
  have erased : p.tagsAt 0 ⟨[], .inside 0, .reference default (.plain "When") []⟩
      = [.named "Date" false, .named "Date" false] := by
    rw [passes.tagsAt_eq, erases, tags]
    rfl
  have lists : p.Lists ⟨[], .inside 0, .array default (.reference default (.plain "When") [])⟩
      ⟨[], .inside 0, .reference default (.plain "When") []⟩ := .array
  obtain ⟨resolved, resolves, mem⟩ := mem_resolveType_iff.2 (lists.array_mem 0)
  rw [erased] at mem
  exact ⟨p, resolved, _, loaded, resolves, .here mem, rfl, by decide⟩

/-- The tags of that array: the list outside has no repetition, and the one inside has one because
the alias repeats a tag. -/
theorem nodup_tags_of_whenFiles :
    ∃ p resolved, load whenFiles "/a.ts" = .ok p ∧
      (p.resolveType 0 (.inside 0) (.array default (.reference default (.plain "When") []))).value
        = some resolved ∧
      resolved.tags.Nodup ∧ (∀ inner, Tag.InnerList resolved.tags inner → Tag.NearlyNodup inner) ∧
      ∃ inner, Tag.InnerList resolved.tags inner ∧ ¬ inner.Nodup := by
  obtain ⟨p, s, id, generics, body, loaded, leads, declared, tags⟩ := exists_whenFiles
  have lists : p.Lists ⟨[], .inside 0, .array default (.reference default (.plain "When") [])⟩
      ⟨[], .inside 0, .reference default (.plain "When") []⟩ := .array
  have repeats : p.Repeats 0 ⟨[], .inside 0, .reference default (.plain "When") []⟩ := by
    refine ⟨_, ⟨[s], .inside s.module, body⟩, "Date", .refl, .alias declared List.not_mem_nil,
      congrArg Prod.snd leads, ?_, ?_⟩
    · rw [tags]
      decide
    · rw [tags]
      decide
  obtain ⟨resolved, resolves, -⟩ := mem_resolveType_iff.2 (lists.array_mem 0)
  obtain ⟨nodup, nearly, iff⟩ := nodup_tags_of_resolveType p 0 (.inside 0) _ resolves
  refine ⟨p, resolved, loaded, resolves, nodup, nearly, ?_⟩
  by_contra once
  refine iff.mp (fun inner within => ?_) _ _ .refl lists repeats
  by_contra twice
  exact once ⟨inner, within, twice⟩

end Program

end TypedProps
