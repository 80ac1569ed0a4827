import Mathlib.Logic.Relation
import TypedProps.Proofs.Property.References

/-!
# `TypedProps.Proofs.Tags.Leaves`: where the tags of a type come from

The tags of a type are those of its leaves. A leaf is reached from the type through parentheses,
`readonly`, optional elements and the parts of unions and intersections, and through the references
that lead to an alias (`Program.Reaches`). What a leaf contributes does not depend on the way to it
(`Program.Gives`), except that a reference to a type-only import on the way takes the constructors
from names.

`exists_leaf_of_mem_tagsOf` says that no tag comes from anywhere else. The resolution keeps a list
of the aliases that it has entered. The list cuts ways off and adds none, so the statement holds for
every list.
-/

set_option autoImplicit false

namespace TypedProps

/-! ### Lists of tags -/

namespace Tag

/-- Adding a tag adds that one. -/
theorem mem_add {t u : Tag} {tags : List Tag} : t ∈ add tags u ↔ t ∈ tags ∨ t = u := by
  unfold add
  split
  · rename_i known
    constructor
    · exact Or.inl
    · rintro (mem | rfl)
      · exact mem
      · exact known
  · simp

/-- Merging forgets no tag and invents none. -/
theorem mem_merge {t : Tag} {tags more : List Tag} : t ∈ merge tags more ↔ t ∈ tags ∨ t ∈ more := by
  induction more generalizing tags with
  | nil => simp [merge]
  | cons u rest ih =>
    have step : merge tags (u :: rest) = merge (add tags u) rest := rfl
    rw [step, ih, mem_add, List.mem_cons, or_assoc]

/-- A name without a constructor stays one, and nothing else loses its kind. -/
theorem erased_erased (t : Tag) : t.erased.erased = t.erased := by
  cases t <;> rfl

/-- No constructor is left where they have been taken. -/
theorem erased_ne_constructible {t : Tag} {name : String} : t.erased ≠ .named name true := by
  cases t <;> simp [erased]

end Tag

/-- An enumeration has no constructor to lose. -/
theorem erased_enumTag (members : List EnumMember) :
    (enumTag members).erased = enumTag members := by
  unfold enumTag
  split <;> rfl

/-- The tags of a type that names a global when nothing is declared under it, arrays apart, are no
arrays. -/
theorem EntityName.globalTag_eq_named {name : EntityName} {n : String}
    (h : name.globalTag = .named n true) : n = name.last ∧ name.last ∈ globalConstructors := by
  unfold globalTag at h
  split at h <;> try cases h
  split at h
  · rename_i known
    obtain ⟨rfl, -⟩ := Tag.named.inj h
    exact ⟨rfl, known⟩
  · cases h

namespace Program

variable {p : Program}

/-- What a type name is declared as behind all imports, and under which symbol. A name that nothing
declares, or that is only imported, has no such declaration. -/
def typeDeclared? (p : Program) (m : ModuleId) (name : EntityName) :
    Option (Symbol × Declaration) :=
  (p.referent m name).1.bind fun s =>
    match p.declaration? s with
    | some (.imported ..) | none => none
    | some d => some (s, d)

/-- The symbol behind a name is declared as it says. -/
theorem declaration?_of_typeDeclared? {m : ModuleId} {name : EntityName} {s : Symbol}
    {d : Declaration} (h : p.typeDeclared? m name = some (s, d)) :
    (p.referent m name).1 = some s ∧ p.declaration? s = some d := by
  obtain ⟨s', referent, declared⟩ := Option.bind_eq_some_iff.mp h
  split at declared
  · cases declared
  · cases declared
  · rename_i d' _ found
    obtain ⟨rfl, rfl⟩ := Prod.mk.inj (Option.some.inj declared)
    exact ⟨referent, found⟩

/-- An import is no declaration of a type. -/
theorem typeDeclared?_ne_imported {m : ModuleId} {name : EntityName} {s : Symbol}
    {id : Identifier} {source : Option ModuleId} {what : ImportedName} {typeOnly : Bool} :
    p.typeDeclared? m name ≠ some (s, .imported id source what typeOnly) := by
  intro h
  obtain ⟨s', -, declared⟩ := Option.bind_eq_some_iff.mp h
  split at declared
  · cases declared
  · cases declared
  · rename_i d notImported _
    obtain ⟨-, rfl⟩ := Prod.mk.inj (Option.some.inj declared)
    exact notImported _ _ _ _ rfl

/-! ### What the resolution does at a type -/

/-- The tags of several types are those of each, one after the other. -/
theorem value_allTags (origin : ModuleId) (entered : List Symbol) (place : Place)
    (types : List Ty) :
    (p.allTags origin entered place types).value
      = types.flatMap fun type => (p.tagsOf origin entered place type).value := by
  induction types with
  | nil =>
    rw [allTags]
    rfl
  | cons type rest ih =>
    rw [allTags, List.flatMap_cons, ← ih]
    rfl

/-- What is put together from several types has the tags of each, once. -/
theorem mem_merge_allTags {origin : ModuleId} {entered : List Symbol} {place : Place}
    {types : List Ty} {t : Tag} :
    t ∈ Tag.merge [] (p.allTags origin entered place types).value ↔
      ∃ type ∈ types, t ∈ (p.tagsOf origin entered place type).value := by
  rw [Tag.mem_merge, value_allTags, List.mem_flatMap]
  exact or_iff_right List.not_mem_nil

/-- The tags of a name under which nothing is declared. -/
def globalTags (p : Program) (origin : ModuleId) (entered : List Symbol) (place : Place)
    (name : EntityName) (arguments : List Ty) : List Tag :=
  if name.isGlobalArray then
    match arguments with
    | argument :: _ => [.array (p.tagsOf origin entered place argument).value]
    | [] => [.array []]
  else [name.globalTag]

/-- The tags of a reference before a type-only import takes the constructors from names. -/
def referredTags (p : Program) (origin : ModuleId) (entered : List Symbol) (place : Place)
    (name : EntityName) (arguments : List Ty) : List Tag :=
  match p.typeDeclared? place.scope name with
  | some (s, .typeAlias _ _ body) =>
    if s ∈ entered then [] else (p.tagsOf origin (s :: entered) (.inside s.module) body).value
  | some (_, .interfaceDecl ..) => [.object]
  | some (_, .classDecl _) => [.named name.text (place.scope == origin)]
  | some (_, .enumDecl _ members) => [enumTag members]
  | some (_, .imported ..) | none => p.globalTags origin entered place name arguments

/-- The tags of a reference. -/
theorem value_tagsOf_reference (origin : ModuleId) (entered : List Symbol) (place : Place)
    (loc : Excerpt) (name : EntityName) (arguments : List Ty) :
    (p.tagsOf origin entered place (.reference loc name arguments)).value
      = if (p.referent place.scope name).2 then
          (p.referredTags origin entered place name arguments).map Tag.erased
        else p.referredTags origin entered place name arguments := by
  -- What is referred to decides the tags, before constructors are taken.
  have global : (p.tagsOfGlobal origin entered place name arguments).value
      = p.globalTags origin entered place name arguments := by
    unfold tagsOfGlobal globalTags
    cases name.isGlobalArray <;> cases arguments <;> rfl
  have referred : (p.tagsOfReferent origin entered place loc name arguments
      (p.referent place.scope name).1).value
      = p.referredTags origin entered place name arguments := by
    unfold referredTags typeDeclared?
    cases (p.referent place.scope name).1 with
    | none => exact global
    | some s =>
      unfold tagsOfReferent
      dsimp only [Option.bind_some]
      cases p.declaration? s with
      | none => exact global
      | some d =>
        cases d with
        | typeAlias id generics body =>
          dsimp only
          split <;> rfl
        | interfaceDecl | classDecl | enumDecl => rfl
        | imported => exact global
  rw [tagsOf_reference, Noted.bind_value, referred]
  rfl

/-- A type resolves to its tags, each once, if it has any. They come without a text if they describe
the type, else with the type as it is written or, outside of module `origin`, with their own text. -/
theorem resolveType_eq_some_iff {origin : ModuleId} {place : Place} {type : Ty} {tags : List Tag}
    {shown : Option String} :
    (p.resolveType origin place type).value = some ⟨tags, shown⟩ ↔
      tags = Tag.merge [] (p.tagsOf origin [] place type).value ∧ tags ≠ [] ∧
        shown = if isSelfDescribing type tags then none
          else some (if place.scope == origin then type.text else Tag.unionText tags) := by
  unfold resolveType
  rw [Noted.bind_value]
  dsimp only
  constructor
  · intro resolves
    split at resolves
    · cases resolves
    rename_i some
    rw [List.isEmpty_iff] at some
    split at resolves
    · rename_i describes
      cases resolves
      exact ⟨rfl, some, (if_pos describes).symm⟩
    · rename_i describes
      cases resolves
      exact ⟨rfl, some, (if_neg describes).symm⟩
  · rintro ⟨rfl, some, text⟩
    rw [text, if_neg (mt List.isEmpty_iff.mp some)]
    split <;> rfl

section Referred

variable {origin m : ModuleId} {entered : List Symbol} {place : Place} {name : EntityName}

/-- The name of an alias that has not been entered has the tags of what the alias stands for. -/
theorem referredTags_of_alias {s : Symbol} {id : Identifier} {generics : List String} {body : Ty}
    (declared : p.typeDeclared? place.scope name = some (s, .typeAlias id generics body))
    (fresh : s ∉ entered) (arguments : List Ty) :
    p.referredTags origin entered place name arguments
      = (p.tagsOf origin (s :: entered) (.inside s.module) body).value := by
  unfold referredTags
  rw [declared]
  exact if_neg fresh

/-- A name under which no type is declared has the tags of a global one. -/
theorem referredTags_of_undeclared (undeclared : p.typeDeclared? place.scope name = none)
    (arguments : List Ty) :
    p.referredTags origin entered place name arguments
      = p.globalTags origin entered place name arguments := by
  unfold referredTags
  rw [undeclared]

/-- The name of the global arrays has the tag of one, with what the first argument admits. -/
theorem referredTags_of_isGlobalArray (undeclared : p.typeDeclared? place.scope name = none)
    (isArray : name.isGlobalArray = true) (arguments : List Ty) :
    p.referredTags origin entered place name arguments
      = [.array (arguments.head?.elim [] fun argument =>
          (p.tagsOf origin entered place argument).value)] := by
  rw [referredTags_of_undeclared undeclared, globalTags.eq_def, if_pos isArray]
  cases arguments <;> rfl

/-- A name to which nothing is bound leads nowhere. -/
theorem referent_of_unbound (unbound : p.symbolAt m name = none) :
    p.referent m name = (none, false) := by
  rw [referent, unbound]

/-- A name to which nothing is bound is that of no declared type. -/
theorem typeDeclared?_of_unbound (unbound : p.symbolAt m name = none) :
    p.typeDeclared? m name = none := by
  rw [typeDeclared?, referent_of_unbound unbound]
  rfl

/-- A name to which nothing is bound has the tag of a global one, arrays apart. -/
theorem value_tagsOf_of_unbound (unbound : p.symbolAt place.scope name = none)
    (notArray : name.isGlobalArray = false) (loc : Excerpt) (arguments : List Ty) :
    (p.tagsOf origin entered place (.reference loc name arguments)).value = [name.globalTag] := by
  rw [value_tagsOf_reference, referent_of_unbound unbound,
    referredTags_of_undeclared (typeDeclared?_of_unbound unbound), globalTags.eq_def, notArray]
  rfl

end Referred

/-! ### Leaves -/

/-- `Part inner type`: all tags of the one type are tags of the other, which stands around it. -/
inductive Part : Ty → Ty → Prop
  | paren {loc : Excerpt} {inner : Ty} : Part inner (.paren loc inner)
  | optional {loc : Excerpt} {inner : Ty} : Part inner (.optional loc inner)
  | readonly {loc : Excerpt} {inner : Ty} : Part inner (.readonly loc inner)
  | union {loc : Excerpt} {parts : List Ty} {part : Ty} (mem : part ∈ parts) :
      Part part (.union loc parts)
  | intersection {loc : Excerpt} {parts : List Ty} {part : Ty} (mem : part ∈ parts) :
      Part part (.intersection loc parts)

/-- A part is smaller than the type around it. -/
theorem Part.sizeOf_lt {inner type : Ty} (part : Part inner type) : sizeOf inner < sizeOf type := by
  cases part with
  | paren =>
    simp only [Ty.paren.sizeOf_spec]
    omega
  | optional =>
    simp only [Ty.optional.sizeOf_spec]
    omega
  | readonly =>
    simp only [Ty.readonly.sizeOf_spec]
    omega
  | union mem =>
    have := List.sizeOf_lt_of_mem mem
    simp only [Ty.union.sizeOf_spec]
    omega
  | intersection mem =>
    have := List.sizeOf_lt_of_mem mem
    simp only [Ty.intersection.sizeOf_spec]
    omega

/-- `Element inner type`: the one type is that of elements of the other, an array or a tuple. -/
inductive Element : Ty → Ty → Prop
  | array {loc : Excerpt} {element : Ty} : Element element (.array loc element)
  | tuple {loc : Excerpt} {elements : List Ty} {element : Ty} (mem : element ∈ elements) :
      Element element (.tuple loc elements)

/-- An element is smaller than the array or tuple. -/
theorem Element.sizeOf_lt {inner type : Ty} (element : Element inner type) :
    sizeOf inner < sizeOf type := by
  cases element with
  | array =>
    simp only [Ty.array.sizeOf_spec]
    omega
  | tuple mem =>
    have := List.sizeOf_lt_of_mem mem
    simp only [Ty.tuple.sizeOf_spec]
    omega

/-- One step from a type in the scope of a module to one from which it takes its tags. -/
inductive Step (p : Program) : ModuleId × Ty → ModuleId × Ty → Prop
  | part {m : ModuleId} {inner type : Ty} (part : Part inner type) : Step p (m, type) (m, inner)
  | alias {m : ModuleId} {loc : Excerpt} {name : EntityName} {arguments : List Ty} {s : Symbol}
      {id : Identifier} {generics : List String} {body : Ty}
      (declared : p.typeDeclared? m name = some (s, .typeAlias id generics body)) :
      Step p (m, .reference loc name arguments) (s.module, body)

/-- `p.Reaches x y`: a type takes its tags, among others, from a second one. -/
abbrev Reaches (p : Program) : ModuleId × Ty → ModuleId × Ty → Prop :=
  Relation.ReflTransGen p.Step

/-- `p.Gives origin x t`: a type in the scope of a module has a tag by itself, as seen from module
`origin`. Arrays and tuples are left out. -/
inductive Gives (p : Program) (origin : ModuleId) : ModuleId × Ty → Tag → Prop
  | keyword {m : ModuleId} {loc : Excerpt} {word : Keyword} {t : Tag} (tag : word.tag? = some t) :
      Gives p origin (m, .keyword loc word) t
  | literal {m : ModuleId} {loc : Excerpt} {form : LiteralForm} {kind : LiteralKind}
      (known : form.kind? = some kind) :
      Gives p origin (m, .literal loc form) (.literal loc.text kind)
  | function {m : ModuleId} {loc : Excerpt} : Gives p origin (m, .function loc) .function
  | object {m : ModuleId} {loc : Excerpt} {members : List Member} :
      Gives p origin (m, .object loc members) .object
  | mapped {m : ModuleId} {loc : Excerpt} : Gives p origin (m, .mapped loc) .object
  | interfaceDecl {m : ModuleId} {loc : Excerpt} {name : EntityName} {arguments : List Ty}
      {s : Symbol} {id : Identifier} {generics : List String} {bases : List Base}
      {members : List Member}
      (declared : p.typeDeclared? m name = some (s, .interfaceDecl id generics bases members)) :
      Gives p origin (m, .reference loc name arguments) .object
  | classDecl {m : ModuleId} {loc : Excerpt} {name : EntityName} {arguments : List Ty}
      {s : Symbol} {id : Identifier} (declared : p.typeDeclared? m name = some (s, .classDecl id)) :
      Gives p origin (m, .reference loc name arguments)
        (.named name.text (m == origin && !(p.referent m name).2))
  | enumDecl {m : ModuleId} {loc : Excerpt} {name : EntityName} {arguments : List Ty}
      {s : Symbol} {id : Identifier} {members : List EnumMember}
      (declared : p.typeDeclared? m name = some (s, .enumDecl id members)) :
      Gives p origin (m, .reference loc name arguments) (enumTag members)
  | global {m : ModuleId} {loc : Excerpt} {name : EntityName} {arguments : List Ty}
      (undeclared : p.typeDeclared? m name = none) (notArray : name.isGlobalArray = false) :
      Gives p origin (m, .reference loc name arguments)
        (if (p.referent m name).2 then name.globalTag.erased else name.globalTag)

/-- A tag of a reference is an array of what the first argument admits, or the reference gives it by
itself, or it is one of an alias that has not been entered, up to its constructor. -/
theorem mem_tagsOf_reference_cases {origin : ModuleId} {entered : List Symbol} {place : Place}
    {loc : Excerpt} {name : EntityName} {arguments : List Ty} {t : Tag}
    (mem : t ∈ (p.tagsOf origin entered place (.reference loc name arguments)).value) :
    (∃ elements, t = .array elements ∧ p.typeDeclared? place.scope name = none ∧
        name.isGlobalArray = true ∧ ∀ u ∈ elements, ∃ argument rest,
          arguments = argument :: rest ∧ u ∈ (p.tagsOf origin entered place argument).value) ∨
      p.Gives origin (place.scope, .reference loc name arguments) t ∨
      ∃ s id generics body, p.typeDeclared? place.scope name
          = some (s, .typeAlias id generics body) ∧ s ∉ entered ∧
        ∃ u ∈ (p.tagsOf origin (s :: entered) (.inside s.module) body).value,
          t = u ∨ t = u.erased := by
  obtain ⟨u, mem, eq⟩ : ∃ u ∈ p.referredTags origin entered place name arguments,
      t = if (p.referent place.scope name).2 then u.erased else u := by
    rw [value_tagsOf_reference] at mem
    split at mem
    · rename_i typeOnly
      obtain ⟨u, inside, rfl⟩ := List.mem_map.mp mem
      exact ⟨u, inside, by rw [if_pos typeOnly]⟩
    · rename_i kept
      exact ⟨t, mem, by rw [if_neg kept]⟩
  unfold referredTags at mem
  split at mem
  · rename_i s id generics body declared
    split at mem
    · -- An alias that has been entered gives no tags.
      cases mem
    · rename_i fresh
      refine Or.inr (Or.inr ⟨s, id, generics, body, declared, fresh, u, mem, ?_⟩)
      rw [eq]
      split
      · exact Or.inr rfl
      · exact Or.inl rfl
  · rename_i declared
    obtain rfl := List.mem_singleton.mp mem
    obtain rfl : t = .object := by rw [eq]; split <;> rfl
    exact Or.inr (Or.inl (.interfaceDecl declared))
  · rename_i declared
    obtain rfl := List.mem_singleton.mp mem
    -- A class keeps its constructor in the origin, unless it is there for types only.
    have flag :
        t = .named name.text (place.scope == origin && !(p.referent place.scope name).2) := by
      rw [eq]
      cases (p.referent place.scope name).2 <;> simp [Tag.erased]
    subst flag
    exact Or.inr (Or.inl (.classDecl declared))
  · rename_i members declared
    obtain rfl := List.mem_singleton.mp mem
    obtain rfl : t = enumTag members := by
      rw [eq]
      split
      · exact erased_enumTag members
      · rfl
    exact Or.inr (Or.inl (.enumDecl declared))
  · rename_i declared
    exact absurd declared typeDeclared?_ne_imported
  · rename_i undeclared
    unfold globalTags at mem
    split at mem
    · rename_i isArray
      -- The tag of an array stays one without constructors.
      split at mem
      · rename_i argument rest
        obtain rfl := List.mem_singleton.mp mem
        refine Or.inl ⟨_, ?_, undeclared, isArray, fun u inside => ⟨_, _, rfl, inside⟩⟩
        rw [eq]
        split <;> rfl
      · obtain rfl := List.mem_singleton.mp mem
        refine Or.inl ⟨[], ?_, undeclared, isArray, fun u inside => absurd inside List.not_mem_nil⟩
        rw [eq]
        split <;> rfl
    · rename_i notArray
      obtain rfl := List.mem_singleton.mp mem
      subst eq
      exact Or.inr (Or.inl (.global undeclared (Bool.eq_false_iff.mpr notArray)))

/-- A tag of another type is an array of what its elements admit, or the type gives it by itself, or
it is one of a part. -/
theorem mem_tagsOf_cases {origin : ModuleId} {entered : List Symbol} {place : Place} {type : Ty}
    {t : Tag} (mem : t ∈ (p.tagsOf origin entered place type).value) :
    (∃ elements, t = .array elements ∧ ∀ u ∈ elements, ∃ inner, Element inner type ∧
        u ∈ (p.tagsOf origin entered place inner).value) ∨
      p.Gives origin (place.scope, type) t ∨
      (∃ inner, Part inner type ∧ t ∈ (p.tagsOf origin entered place inner).value) ∨
      ∃ loc name arguments, type = .reference loc name arguments := by
  cases type with
  | reference loc name arguments => exact Or.inr (Or.inr (Or.inr ⟨_, _, _, rfl⟩))
  -- The type is a leaf, and gives what it has by itself.
  | keyword loc word =>
    rw [tagsOf] at mem
    exact Or.inr (Or.inl (.keyword (Option.mem_toList.mp mem)))
  | literal loc form =>
    rw [tagsOf] at mem
    obtain ⟨kind, known, rfl⟩ := Option.map_eq_some_iff.mp (Option.mem_toList.mp mem)
    exact Or.inr (Or.inl (.literal known))
  | function loc =>
    rw [tagsOf] at mem
    obtain rfl := List.mem_singleton.mp mem
    exact Or.inr (Or.inl .function)
  | object loc members =>
    rw [tagsOf] at mem
    obtain rfl := List.mem_singleton.mp mem
    exact Or.inr (Or.inl .object)
  | mapped loc =>
    rw [tagsOf] at mem
    obtain rfl := List.mem_singleton.mp mem
    exact Or.inr (Or.inl .mapped)
  | other loc =>
    rw [tagsOf] at mem
    cases mem
  -- The type has one tag, with what its elements admit.
  | array loc element =>
    rw [tagsOf] at mem
    exact Or.inl ⟨_, List.mem_singleton.mp mem, fun u inside => ⟨element, .array, inside⟩⟩
  | tuple loc elements =>
    rw [tagsOf] at mem
    refine Or.inl ⟨_, List.mem_singleton.mp mem, fun u inside => ?_⟩
    obtain ⟨element, among, inside⟩ := mem_merge_allTags.1 inside
    exact ⟨element, .tuple among, inside⟩
  -- The type passes on what its parts have.
  | paren loc inner =>
    rw [tagsOf] at mem
    exact Or.inr (Or.inr (Or.inl ⟨inner, .paren, mem⟩))
  | optional loc inner =>
    rw [tagsOf] at mem
    exact Or.inr (Or.inr (Or.inl ⟨inner, .optional, mem⟩))
  | readonly loc inner =>
    rw [tagsOf] at mem
    exact Or.inr (Or.inr (Or.inl ⟨inner, .readonly, mem⟩))
  | union loc parts =>
    rw [tagsOf] at mem
    obtain ⟨part, inside, mem⟩ := mem_merge_allTags.1 mem
    exact Or.inr (Or.inr (Or.inl ⟨part, .union inside, mem⟩))
  | intersection loc parts =>
    rw [tagsOf] at mem
    obtain ⟨part, inside, mem⟩ := mem_merge_allTags.1 mem
    exact Or.inr (Or.inr (Or.inl ⟨part, .intersection inside, mem⟩))

/-- A tag that is no array comes from a leaf, up to its constructor. -/
theorem exists_leaf_of_mem_tagsOf {origin : ModuleId} {entered : List Symbol} {place : Place}
    {type : Ty} {t : Tag} (mem : t ∈ (p.tagsOf origin entered place type).value) :
    (∃ elements, t = .array elements) ∨
      ∃ leaf u, p.Reaches (place.scope, type) leaf ∧ p.Gives origin leaf u ∧
        (t = u ∨ t = u.erased) := by
  rcases mem_tagsOf_cases mem with
    ⟨elements, array, -⟩ | gives | ⟨inner, part, mem⟩ | ⟨loc, name, arguments, rfl⟩
  · exact Or.inl ⟨elements, array⟩
  · exact Or.inr ⟨_, t, .refl, gives, Or.inl rfl⟩
  · have := part.sizeOf_lt
    rcases exists_leaf_of_mem_tagsOf mem with array | ⟨leaf, u, reaches, gives, same⟩
    · exact Or.inl array
    · exact Or.inr ⟨leaf, u, .head (.part part) reaches, gives, same⟩
  rcases mem_tagsOf_reference_cases mem with
    ⟨elements, array, -⟩ | gives | ⟨s, id, generics, body, declared, fresh, v, mem, eq⟩
  · exact Or.inl ⟨elements, array⟩
  · exact Or.inr ⟨_, t, .refl, gives, Or.inl rfl⟩
  · have := unentered_cons_lt
      (mem_symbols_of_declaration? (declaration?_of_typeDeclared? declared).2) fresh
    rcases exists_leaf_of_mem_tagsOf mem with ⟨elements, rfl⟩ | ⟨leaf, u, reaches, gives, same⟩
    · rcases eq with rfl | rfl
      · exact Or.inl ⟨elements, rfl⟩
      · exact Or.inl ⟨elements, rfl⟩
    · refine Or.inr ⟨leaf, u, .head (.alias declared) reaches, gives, ?_⟩
      -- Taking a constructor twice is taking it once.
      rcases eq with rfl | rfl
      · exact same
      · rcases same with rfl | rfl
        · exact Or.inr rfl
        · exact Or.inr u.erased_erased
termination_by (p.unentered entered, sizeOf type)

end Program

end TypedProps
