import TypedProps.Proofs.Tags.Copies
import TypedProps.Proofs.Tags.Merging

/-!
# `TypedProps.Proofs.Tags.Descriptions`: types that are not shown in full

A resolved type comes without a text if its one tag is taken to describe it
(`shown_eq_none_iff`). Whether the tag does describe the type is seen from its constituents, the
types that it comes down to through parentheses, aliases, imports, unions and intersections. Each
constituent either tells just what the tag does (`Program.Tells`), or something about it is lost
(`Program.Loses`). `tells_or_loses_of_shown_eq_none` has both cases, which exclude each other.

That every constituent is seen in the tags at all is `exists_mem_tagsOf_of_reachesOutside`: what a
constituent gives to every reading of it is among the tags, perhaps without its constructor.
-/

set_option autoImplicit false

namespace TypedProps

/-- Whether a tag that stands alone is taken to describe its type. -/
def Tag.isDescriptive : Tag → Bool
  | .string | .number | .boolean | .any => true
  | .named _ constructible => constructible
  | _ => false

namespace Program

open Relation

variable {p : Program} {origin : ModuleId}

/-- The tags describe a keyword, and any other type if there is one tag that does. -/
theorem isSelfDescribing_iff {type : Ty} {tags : List Tag} :
    isSelfDescribing type tags = true ↔
      (∃ loc word, type = .keyword loc word) ∨ ∃ t, tags = [t] ∧ t.isDescriptive = true := by
  constructor
  · intro describes
    unfold isSelfDescribing at describes
    split at describes
    · exact Or.inl ⟨_, _, rfl⟩
    · exact Or.inr ⟨_, rfl, rfl⟩
    · exact Or.inr ⟨_, rfl, rfl⟩
    · exact Or.inr ⟨_, rfl, rfl⟩
    · exact Or.inr ⟨_, rfl, rfl⟩
    · exact Or.inr ⟨_, rfl, describes⟩
    · cases describes
  · rintro (⟨loc, word, rfl⟩ | ⟨t, rfl, descriptive⟩)
    · rfl
    · cases type <;> cases t <;> first | rfl | exact descriptive

/-- A resolved type comes without a text if it is a keyword, or has one tag that is taken to
describe it. -/
theorem shown_eq_none_iff {place : Place} {type : Ty} {resolved : ResolvedType}
    (resolves : (p.resolveType origin place type).value = some resolved) :
    resolved.shown = none ↔
      (∃ loc word, type = .keyword loc word) ∨
        ∃ t, resolved.tags = [t] ∧ t.isDescriptive = true := by
  rw [← isSelfDescribing_iff]
  obtain ⟨-, -, shown⟩ := resolveType_eq_some_iff.1 resolves
  rw [shown]
  split
  · exact iff_of_true rfl ‹_›
  · exact iff_of_false (Option.some_ne_none _) ‹_›

/-! ### What is seen of a constituent -/

/-- What is found among the tags of a type however they are read is found, without constructors
perhaps, among those of a type from which it can be reached. -/
theorem exists_mem_tagsOf_of_reachesOutside {leaf : ModuleId × Ty} {found : Tag → Prop}
    (erasable : ∀ u, found u → found u.erased)
    (gives : ∀ entered place, place.scope = leaf.1 →
      ∃ u ∈ (p.tagsOf origin entered place leaf.2).value, found u)
    {entered : List Symbol} {place : Place} {type : Ty}
    (reaches : p.ReachesOutside entered (place.scope, type) leaf) :
    ∃ u ∈ (p.tagsOf origin entered place type).value, found u := by
  rcases ReflTransGen.cases_head reaches with rfl | ⟨next, step, rest⟩
  · exact gives entered place rfl
  generalize same : (place.scope, type) = x at step
  cases step with
  | part part =>
    obtain ⟨rfl, rfl⟩ := Prod.mk.inj same
    have := part.sizeOf_lt
    obtain ⟨u, mem, is⟩ := exists_mem_tagsOf_of_reachesOutside erasable gives rest
    exact ⟨u, mem_tagsOf_of_part part mem, is⟩
  | @«alias» m loc name arguments s id generics body declared fresh =>
    obtain ⟨rfl, rfl⟩ := Prod.mk.inj same
    have isAlias := (declaration?_of_typeDeclared? declared).2
    have := unentered_cons_lt (mem_symbols_of_declaration? isAlias) fresh
    -- Behind the alias the way need not come back to it.
    have inside : p.ReachesOutside (s :: entered) ((Place.inside s.module).scope, body) leaf :=
      or_self_iff.mp (reachesOutside_cons isAlias rest)
    obtain ⟨u, mem, is⟩ := exists_mem_tagsOf_of_reachesOutside erasable gives inside
    rw [value_tagsOf_reference, referredTags_of_alias declared fresh]
    split
    · exact ⟨u.erased, List.mem_map_of_mem mem, erasable u is⟩
    · exact ⟨u, mem, is⟩
termination_by (p.unentered entered, sizeOf type)

/-- A type without a further step, to which another one comes down. -/
structure Constituent (p : Program) (x leaf : ModuleId × Ty) : Prop where
  reaches : p.Reaches x leaf
  last : ∀ y, ¬ p.Step leaf y

/-- `p.Tells origin t leaf`: a constituent tells what a tag does, and nothing else. It is a keyword,
a class, or a global name to which its module binds nothing; no type arguments stand behind it. -/
inductive Tells (p : Program) (origin : ModuleId) (t : Tag) : ModuleId × Ty → Prop
  | keyword {m : ModuleId} {loc : Excerpt} {word : Keyword} (tag : word.tag? = some t) :
      Tells p origin t (m, .keyword loc word)
  | classDecl {loc : Excerpt} {name : EntityName} {s : Symbol} {id : Identifier}
      (declared : p.typeDeclared? origin name = some (s, .classDecl id))
      (kept : (p.referent origin name).2 = false) (same : t = .named name.text true) :
      Tells p origin t (origin, .reference loc name [])
  | global {m : ModuleId} {loc : Excerpt} {name : EntityName}
      (unbound : p.lookup m name.first = none) (isPlain : name.more = [])
      (notArray : name.isGlobalArray = false) (same : t = name.globalTag) :
      Tells p origin t (m, .reference loc name [])

/-- `p.Loses origin leaf`: no tag tells all that a constituent does. The constituent has no
tag; or it has type arguments; or it is an enumeration; or it is taken for a global name although it
is qualified, or bound to an import that leads to no type. -/
inductive Loses (p : Program) (origin : ModuleId) : ModuleId × Ty → Prop
  | untagged {m : ModuleId} {type : Ty}
      (nothing : (p.tagsOf origin [] (.inside m) type).value = []) : Loses p origin (m, type)
  | arguments {m : ModuleId} {loc : Excerpt} {name : EntityName} {arguments : List Ty}
      (applied : arguments ≠ []) : Loses p origin (m, .reference loc name arguments)
  | enumDecl {m : ModuleId} {loc : Excerpt} {name : EntityName} {arguments : List Ty} {s : Symbol}
      {id : Identifier} {members : List EnumMember}
      (declared : p.typeDeclared? m name = some (s, .enumDecl id members)) :
      Loses p origin (m, .reference loc name arguments)
  | qualified {m : ModuleId} {loc : Excerpt} {name : EntityName} {arguments : List Ty}
      (undeclared : p.typeDeclared? m name = none) (qualified : name.more ≠ []) :
      Loses p origin (m, .reference loc name arguments)
  | bound {m : ModuleId} {loc : Excerpt} {name : EntityName} {arguments : List Ty}
      (undeclared : p.typeDeclared? m name = none) (bound : p.lookup m name.first ≠ none) :
      Loses p origin (m, .reference loc name arguments)

/-- A plain name is bound to what its module binds to the identifier. -/
theorem symbolAt_of_isPlain {m : ModuleId} {name : EntityName} (isPlain : name.more = []) :
    p.symbolAt m name = p.lookup m name.first := by
  rw [symbolAt, isPlain]

/-- What a tag tells in full loses nothing. -/
theorem Tells.not_loses {t : Tag} {leaf : ModuleId × Ty} (tells : p.Tells origin t leaf) :
    ¬ p.Loses origin leaf := by
  intro loses
  -- What tells something has a tag, and how its name is declared rules out each other way to lose.
  cases tells with
  | @keyword m loc word tag =>
    cases loses with
    | untagged nothing =>
      have mem : t ∈ (p.tagsOf origin [] (.inside m) (.keyword loc word)).value :=
        mem_tagsOf_of_gives (.keyword tag)
      rw [nothing] at mem
      cases mem
  | @classDecl loc name s id declared kept same =>
    cases loses with
    | untagged nothing =>
      have mem : _ ∈ (p.tagsOf origin [] (.inside origin) (.reference loc name [])).value :=
        mem_tagsOf_of_gives (.classDecl declared)
      rw [nothing] at mem
      cases mem
    | arguments applied => exact applied rfl
    | enumDecl declared' => cases declared.symm.trans declared'
    | qualified undeclared => cases declared.symm.trans undeclared
    | bound undeclared => cases declared.symm.trans undeclared
  | @global m loc name unbound isPlain notArray same =>
    have undeclared : p.typeDeclared? m name = none :=
      typeDeclared?_of_unbound ((symbolAt_of_isPlain isPlain).trans unbound)
    cases loses with
    | untagged nothing =>
      have mem : _ ∈ (p.tagsOf origin [] (.inside m) (.reference loc name [])).value :=
        mem_tagsOf_of_gives (.global undeclared notArray)
      rw [nothing] at mem
      cases mem
    | arguments applied => exact applied rfl
    | enumDecl declared => cases undeclared.symm.trans declared
    | qualified _ qualified => exact qualified isPlain
    | bound _ bound => exact bound unbound

/-- A tag that a constituent gives is the only one, perhaps without its constructor. -/
theorem Constituent.eq_or_erased {place : Place} {type : Ty} {leaf : ModuleId × Ty} {t u : Tag}
    (constituent : p.Constituent (place.scope, type) leaf) (gives : p.Gives origin leaf u)
    (only : ∀ v ∈ (p.tagsOf origin [] place type).value, v = t) : t = u ∨ t = u.erased := by
  have erasable (v : Tag) (is : v = u ∨ v = u.erased) : v.erased = u ∨ v.erased = u.erased := by
    rcases is with rfl | rfl
    · exact Or.inr rfl
    · exact Or.inr u.erased_erased
  have given (entered : List Symbol) (place' : Place) (scope : place'.scope = leaf.1) :
      ∃ v ∈ (p.tagsOf origin entered place' leaf.2).value, v = u ∨ v = u.erased := by
    obtain ⟨m, inner⟩ := leaf
    obtain rfl : place'.scope = m := scope
    exact ⟨u, mem_tagsOf_of_gives gives, Or.inl rfl⟩
  obtain ⟨v, mem, is⟩ :=
    exists_mem_tagsOf_of_reachesOutside erasable given constituent.reaches.outside
  rwa [only v mem] at is

/-- No array or tuple is a constituent where one tag describes the type. -/
theorem Constituent.not_array {place : Place} {type : Ty} {leaf : ModuleId × Ty} {t : Tag}
    (constituent : p.Constituent (place.scope, type) leaf) (descriptive : t.isDescriptive = true)
    (only : ∀ v ∈ (p.tagsOf origin [] place type).value, v = t)
    (gives : ∀ entered place', place'.scope = leaf.1 →
      ∃ list, .array list ∈ (p.tagsOf origin entered place' leaf.2).value) : False := by
  have erasable (v : Tag) (is : ∃ list, v = .array list) : ∃ list, v.erased = .array list := by
    obtain ⟨list, rfl⟩ := is
    exact ⟨list, rfl⟩
  have given (entered : List Symbol) (place' : Place) (scope : place'.scope = leaf.1) :
      ∃ v ∈ (p.tagsOf origin entered place' leaf.2).value, ∃ list, v = .array list := by
    obtain ⟨list, mem⟩ := gives entered place' scope
    exact ⟨_, mem, list, rfl⟩
  obtain ⟨v, mem, list, rfl⟩ :=
    exists_mem_tagsOf_of_reachesOutside erasable given constituent.reaches.outside
  rw [← only _ mem] at descriptive
  cases descriptive

/-- Taking the constructor from a name leaves nothing that describes it. -/
theorem eq_of_isDescriptive {t u : Tag} (descriptive : t.isDescriptive = true)
    (is : t = u ∨ t = u.erased) : t = u := by
  rcases is with same | rfl
  · exact same
  · cases u with
    | named => cases descriptive
    | _ => rfl

/-- A constituent that is a reference tells what the one tag of its type does, or loses
something. -/
theorem tells_or_loses_of_reference {place : Place} {type : Ty} {m : ModuleId} {loc : Excerpt}
    {name : EntityName} {arguments : List Ty} {t : Tag}
    (constituent : p.Constituent (place.scope, type) (m, .reference loc name arguments))
    (descriptive : t.isDescriptive = true)
    (only : ∀ v ∈ (p.tagsOf origin [] place type).value, v = t) :
    p.Tells origin t (m, .reference loc name arguments) ∨
      p.Loses origin (m, .reference loc name arguments) := by
  have given {u : Tag} (gives : p.Gives origin (m, .reference loc name arguments) u) : t = u :=
    eq_of_isDescriptive descriptive (constituent.eq_or_erased gives only)
  by_cases applied : arguments = []
  · subst applied
    cases declared : p.typeDeclared? m name with
    | some found =>
      obtain ⟨s, d⟩ := found
      cases d with
      | typeAlias => exact absurd (.alias declared) (constituent.last _)
      | imported => exact absurd declared typeDeclared?_ne_imported
      | enumDecl => exact Or.inr (.enumDecl declared)
      | interfaceDecl =>
        obtain rfl := given (.interfaceDecl declared)
        cases descriptive
      | classDecl =>
        -- The class describes the type only in the origin, and with its constructor.
        obtain rfl := given (.classDecl declared)
        obtain ⟨here, kept⟩ := Bool.and_eq_true_iff.mp descriptive
        obtain rfl : m = origin := eq_of_beq here
        rw [Bool.not_eq_true'] at kept
        exact Or.inl (.classDecl declared kept (by rw [kept, here]; rfl))
    | none =>
      by_cases isPlain : name.more = []
      · cases bound : p.lookup m name.first with
        | some s => exact Or.inr (.bound declared (by rw [bound]; simp))
        | none =>
          have leads : p.referent m name = (none, false) :=
            referent_of_unbound ((symbolAt_of_isPlain isPlain).trans bound)
          cases isArray : name.isGlobalArray with
          | true =>
            refine (constituent.not_array descriptive only fun entered place' scope => ?_).elim
            obtain rfl : place'.scope = m := scope
            rw [value_tagsOf_reference, leads, referredTags_of_isGlobalArray declared isArray]
            exact ⟨_, List.mem_singleton_self _⟩
          | false =>
            have same := given (.global declared isArray)
            rw [leads] at same
            exact Or.inl (.global bound isPlain isArray same)
      · exact Or.inr (.qualified declared isPlain)
  · exact Or.inr (.arguments applied)

/-- A constituent tells what the one tag of its type does, or loses something. -/
theorem tells_or_loses {place : Place} {type : Ty} {leaf : ModuleId × Ty} {t : Tag}
    (constituent : p.Constituent (place.scope, type) leaf) (descriptive : t.isDescriptive = true)
    (only : ∀ v ∈ (p.tagsOf origin [] place type).value, v = t) :
    p.Tells origin t leaf ∨ p.Loses origin leaf := by
  obtain ⟨m, inner⟩ := leaf
  have given {u : Tag} (gives : p.Gives origin (m, inner) u) : t = u :=
    eq_of_isDescriptive descriptive (constituent.eq_or_erased gives only)
  have untagged (nothing : (p.tagsOf origin [] (.inside m) inner).value = []) :
      p.Tells origin t (m, inner) ∨ p.Loses origin (m, inner) := Or.inr (.untagged nothing)
  -- A type with a part is no constituent. Any other one without a tag loses all that it says, and
  -- one with a tag has `t` itself, which excludes the tags that describe nothing.
  cases inner with
  | reference => exact tells_or_loses_of_reference constituent descriptive only
  | keyword loc word =>
    cases tag : word.tag? with
    | none =>
      refine untagged ?_
      rw [tagsOf, tag]
      rfl
    | some u =>
      obtain rfl := given (.keyword tag)
      exact Or.inl (.keyword tag)
  | literal loc form =>
    cases known : form.kind? with
    | none =>
      refine untagged ?_
      rw [tagsOf, known]
      rfl
    | some kind =>
      obtain rfl := given (.literal known)
      cases descriptive
  | array loc element =>
    refine (constituent.not_array descriptive only fun entered place' _ => ?_).elim
    rw [tagsOf]
    exact ⟨_, List.mem_singleton_self _⟩
  | tuple loc elements =>
    refine (constituent.not_array descriptive only fun entered place' _ => ?_).elim
    rw [tagsOf]
    exact ⟨_, List.mem_singleton_self _⟩
  | function =>
    obtain rfl := given .function
    cases descriptive
  | object =>
    obtain rfl := given .object
    cases descriptive
  | mapped =>
    obtain rfl := given .mapped
    cases descriptive
  | paren => exact absurd (.part .paren) (constituent.last _)
  | optional => exact absurd (.part .optional) (constituent.last _)
  | readonly => exact absurd (.part .readonly) (constituent.last _)
  | union loc parts =>
    cases parts with
    | cons part rest =>
      exact absurd (.part (.union List.mem_cons_self)) (constituent.last _)
    | nil =>
      refine untagged ?_
      rw [value_tagsOf_union]
      rfl
  | intersection loc parts =>
    cases parts with
    | cons part rest =>
      exact absurd (.part (.intersection List.mem_cons_self)) (constituent.last _)
    | nil =>
      refine untagged ?_
      rw [tagsOf, allTags]
      rfl
  | other =>
    refine untagged ?_
    rw [tagsOf]
    rfl

/-- A resolved type comes without a text if it is a keyword, or has one tag that is taken to
describe it. That tag tells all of it exactly if no constituent loses anything; each one either
loses something, or tells just what the tag does. -/
theorem tells_or_loses_of_shown_eq_none (p : Program) (origin : ModuleId) (place : Place)
    (type : Ty) {resolved : ResolvedType}
    (resolves : (p.resolveType origin place type).value = some resolved) :
    (resolved.shown = none ↔
      (∃ loc word, type = .keyword loc word) ∨
        ∃ t, resolved.tags = [t] ∧ t.isDescriptive = true) ∧
    ∀ t, resolved.tags = [t] → t.isDescriptive = true →
      (∀ leaf, p.Constituent (place.scope, type) leaf →
        (p.Tells origin t leaf ∧ ¬ p.Loses origin leaf) ∨
          (p.Loses origin leaf ∧ ¬ p.Tells origin t leaf)) := by
  refine ⟨shown_eq_none_iff resolves, fun t tags descriptive leaf constituent => ?_⟩
  have only (v : Tag) (mem : v ∈ (p.tagsOf origin [] place type).value) : v = t := by
    rw [← List.mem_eraseDups, ← tags_of_resolveType resolves, tags] at mem
    exact List.mem_singleton.mp mem
  rcases tells_or_loses constituent descriptive only with tells | loses
  · exact Or.inl ⟨tells, tells.not_loses⟩
  · exact Or.inr ⟨loses, fun tells => tells.not_loses loses⟩

/-! ### A type that is more than its tag -/

/-- A component with a property that may be null. -/
def nullFiles : Sources := .ofList [
  ("/a.ts", .text "const C = defineComponent<{ a: string | null }>({})\n")]

/-- `nullFiles` can be loaded. -/
theorem exists_nullFiles : ∃ p, load nullFiles "/a.ts" = .ok p := by
  have loads : loadsWith nullFiles "/a.ts" (fun _ => true) = true := by
    refine loadsWith_of_written (by repeat constructor) ?_
    decide +kernel
  obtain ⟨p, loaded, -⟩ := exists_of_loadsWith loads
  exact ⟨p, loaded⟩

/-- No tag tells that a value may be null. -/
theorem not_tells_null {t : Tag} {m : ModuleId} {loc : Excerpt} :
    ¬ p.Tells origin t (m, .keyword loc .null) := by
  intro tells
  cases tells with
  | keyword tag => cases tag

/-- A keyword with a second one that has no tag resolves to the tag of the first one, without a
text. -/
theorem resolveType_or_null (p : Program) (origin : ModuleId) (place : Place) :
    (p.resolveType origin place
      (.union default [.keyword default .string, .keyword default .null])).value
      = some ⟨[.string], none⟩ := by
  have tags : (p.tagsOf origin [] place
      (.union default [.keyword default .string, .keyword default .null])).value = [.string] := by
    rw [value_tagsOf_union, List.flatMap_cons, List.flatMap_cons, List.flatMap_nil, tagsOf, tagsOf]
    decide
  rw [resolveType_eq_some_iff, tags]
  exact ⟨rfl, List.cons_ne_nil _ _, rfl⟩

/-- A keyword is a constituent of a union that has it for a part. -/
theorem constituent_of_keyword {m : ModuleId} {loc spot : Excerpt} {parts : List Ty}
    {word : Keyword} (mem : .keyword spot word ∈ parts) :
    p.Constituent (m, .union loc parts) (m, .keyword spot word) := by
  refine ⟨.single (.part (.union mem)), fun y step => ?_⟩
  cases step with
  | part part => cases part

/-- The property that may be null comes without a text, and that it may be null is lost. -/
theorem shown_eq_none_of_nullFiles :
    ∃ p type, load nullFiles "/a.ts" = .ok p ∧
      type = .union default [.keyword default .string, .keyword default .null] ∧
      (p.resolveType 0 (.inside 0) type).value = some ⟨[.string], none⟩ ∧
      p.Constituent (0, type) (0, .keyword default .null) ∧
      (p.tagsOf 0 [] (.inside 0) (.keyword default .null)).value = [] ∧
      ¬ p.Tells 0 .string (0, .keyword default .null) := by
  obtain ⟨p, loaded⟩ := exists_nullFiles
  refine ⟨p, _, loaded, rfl, p.resolveType_or_null 0 _, constituent_of_keyword (by simp), ?_,
    not_tells_null⟩
  rw [tagsOf]
  rfl

/-- In that property the tag tells what the one keyword does, and the other one is lost. -/
theorem tells_or_loses_of_nullFiles :
    ∃ p resolved, load nullFiles "/a.ts" = .ok p ∧
      (p.resolveType 0 (.inside 0)
        (.union default [.keyword default .string, .keyword default .null])).value
        = some resolved ∧
      resolved.shown = none ∧ p.Tells 0 .string (0, .keyword default .string) ∧
      p.Loses 0 (0, .keyword default .null) := by
  obtain ⟨p, loaded⟩ := exists_nullFiles
  obtain ⟨dropped, either⟩ :=
    tells_or_loses_of_shown_eq_none p 0 (.inside 0) _ (p.resolveType_or_null 0 (.inside 0))
  have string : p.Tells 0 .string (0, .keyword default .string) := .keyword rfl
  refine ⟨p, _, loaded, p.resolveType_or_null 0 (.inside 0),
    dropped.mpr (Or.inr ⟨.string, rfl, rfl⟩), string, ?_⟩
  rcases either .string rfl rfl (0, .keyword default .null) (constituent_of_keyword (by simp)) with
    ⟨tells, -⟩ | ⟨loses, -⟩
  · exact absurd tells not_tells_null
  · exact loses

end Program

end TypedProps
