import TypedProps.Proofs.Property.Members
import TypedProps.Proofs.Tags.Copies
import TypedProps.Proofs.Tags.Merging

/-!
# `TypedProps.Proofs.Property.Qualified`: an export that is named in two ways

A module may import another one as a whole and name one of its exports by a qualified name, or it
may import the export by itself. Both names lead to the same declaration, with the same members
(`typeDeclared?_qualified`, `value_expand_reference`). Two things are lost on the way that begins at
a qualified name, because the lookup of the export is not counted and its marks are not kept:

* The bound applies to the lookup and to what follows it one by one. Where the two together exceed
  it, only the qualified name is followed (`typeDeclared?_of_exceeded`).
* The qualified name keeps the constructors that the single import takes away, if the mark stands on
  an import or a re-export in front of the first symbol.

`qualified_of_imported` puts the two together.
-/

set_option autoImplicit false

namespace TypedProps

namespace Tag

/-- Two lists of tags are the same, or have one name each, both with a constructor or both
without. -/
def EqUpToName (tags tags' : List Tag) : Prop :=
  tags = tags' ∨ ∃ name name' constructible,
    tags = [.named name constructible] ∧ tags' = [.named name' constructible]

namespace EqUpToName

variable {tags tags' : List Tag}

theorem refl (tags : List Tag) : EqUpToName tags tags := Or.inl rfl

theorem map_erased (same : EqUpToName tags tags') :
    EqUpToName (tags.map erased) (tags'.map erased) := by
  rcases same with rfl | ⟨name, name', constructible, rfl, rfl⟩
  · exact refl _
  · exact Or.inr ⟨name, name', false, rfl, rfl⟩

theorem eraseDups (same : EqUpToName tags tags') :
    EqUpToName tags.eraseDups tags'.eraseDups := by
  rcases same with rfl | ⟨name, name', constructible, rfl, rfl⟩
  · exact refl _
  · refine Or.inr ⟨name, name', constructible, ?_, ?_⟩
    · exact eraseDups_of_nodup (List.nodup_singleton _)
    · exact eraseDups_of_nodup (List.nodup_singleton _)

theorem symm (same : EqUpToName tags tags') : EqUpToName tags' tags := by
  rcases same with rfl | ⟨name, name', constructible, rfl, rfl⟩
  · exact refl _
  · exact Or.inr ⟨name', name, constructible, rfl, rfl⟩

theorem trans {tags'' : List Tag} (same : EqUpToName tags tags') (same' : EqUpToName tags' tags'') :
    EqUpToName tags tags'' := by
  rcases same with rfl | ⟨name, name', constructible, rfl, rfl⟩
  · exact same'
  · rcases same' with rfl | ⟨_, name'', _, eq, rfl⟩
    · exact Or.inr ⟨name, name', constructible, rfl, rfl⟩
    · obtain ⟨-, rfl⟩ := Tag.named.inj (List.cons.inj eq).1
      exact Or.inr ⟨name, name'', constructible, rfl, rfl⟩

theorem eq_nil_iff (same : EqUpToName tags tags') : tags = [] ↔ tags' = [] := by
  rcases same with rfl | ⟨name, name', constructible, rfl, rfl⟩
  · exact Iff.rfl
  · simp

/-- Up to names, tags are the same without constructors exactly if they have none. -/
theorem erased_iff (nodup : tags.Nodup) :
    EqUpToName (tags.map erased).eraseDups tags ↔ ∀ n, .named n true ∉ tags := by
  have lost (n : String) : .named n true ∉ (tags.map erased).eraseDups := by
    intro mem
    obtain ⟨t, -, is⟩ := List.mem_map.mp (List.mem_eraseDups.mp mem)
    exact erased_ne_constructible is
  constructor
  · rintro (same | ⟨name, name', constructible, left, right⟩) n mem
    · rw [← same] at mem
      exact lost n mem
    · rw [right] at mem
      obtain ⟨-, rfl⟩ := Tag.named.inj (List.mem_singleton.mp mem)
      exact lost name (left ▸ List.mem_singleton_self _)
  · intro without
    rw [map_erased_eq_self without, eraseDups_of_nodup nodup]
    exact refl tags

end EqUpToName

/-- The tags of a single name are those of a qualified one up to the name, without constructors if
`typeOnly` says so. So they agree unless it says so and there are constructors. -/
structure Counterpart (typeOnly : Bool) (whole single : List Tag) : Prop where
  eq : EqUpToName single (if typeOnly then (whole.map erased).eraseDups else whole)
  agree_iff : EqUpToName single whole ↔ typeOnly = false ∨ ∀ n, .named n true ∉ whole

/-- Whether they agree follows from what they are. -/
theorem Counterpart.of_eq {typeOnly : Bool} {whole single : List Tag} (nodup : whole.Nodup)
    (eq : EqUpToName single (if typeOnly then (whole.map erased).eraseDups else whole)) :
    Counterpart typeOnly whole single := by
  refine ⟨eq, ?_⟩
  cases typeOnly with
  | false => exact iff_of_true eq (Or.inl rfl)
  | true =>
    have agree : EqUpToName single whole ↔ EqUpToName (whole.map erased).eraseDups whole :=
      ⟨fun same => eq.symm.trans same, fun same => eq.trans same⟩
    rw [agree, EqUpToName.erased_iff nodup]
    simp

end Tag

namespace Program

open Relation

variable {p : Program} {origin m d : ModuleId} {w : Way} {x : String}

/-! ### The two ways to an export -/

/-- A name is taken for a declared type exactly if that is declared where the name leads. -/
theorem typeDeclared?_eq_some {name : EntityName} {s : Symbol} {declaration : Declaration} :
    p.typeDeclared? m name = some (s, declaration) ↔
      (p.referent m name).1 = some s ∧ p.declaration? s = some declaration ∧
        ∀ id source what typeOnly, declaration ≠ .imported id source what typeOnly := by
  constructor
  · intro found
    obtain ⟨referent, declared⟩ := declaration?_of_typeDeclared? found
    refine ⟨referent, declared, ?_⟩
    rintro id source what typeOnly rfl
    exact typeDeclared?_ne_imported found
  · rintro ⟨referent, declared, isType⟩
    unfold typeDeclared?
    rw [referent, Option.bind_some, declared]
    cases declaration with
    | imported => exact absurd rfl (isType _ _ _ _)
    | typeAlias | interfaceDecl | classDecl | enumDecl => rfl

/-- An import of one name opens one way. -/
theorem importOf?_of_single {id : Identifier} {mark : Bool}
    (single : p.declaration? ⟨m, x⟩ = some (.imported id (some d) (.named x) mark)) :
    p.importOf? ⟨m, x⟩ = some ([⟨importHop m mark, d⟩], x) :=
  importOf?_eq_some_iff.2 ⟨id, some d, mark, single, rfl⟩

/-- An import of one name is followed by looking the name up, and on from what is found. -/
theorem walk_single_iff (imported : p.importOf? ⟨m, x⟩ = some ([w], x)) {trail : Trail} {n : Nat} :
    p.Walk ⟨m, x⟩ trail n ↔ ∃ first rest k j, p.Search [w] x (some first) k ∧
      p.Walk first.symbol rest j ∧ trail = rest.after first.hops ∧ n = k + j := by
  constructor
  · intro walk
    cases walk with
    | here stops => cases imported.symm.trans stops
    | next imported' search others =>
      obtain ⟨rfl, rfl⟩ := Prod.mk.inj (Option.some.inj (imported.symm.trans imported'))
      exact ⟨_, _, _, _, search, others, rfl, rfl⟩
  · rintro ⟨first, rest, k, j, search, others, rfl, rfl⟩
    exact .next imported search others

/-- Where the lookup of an export and the way on from there are within the bound, they are so
together. -/
def WithinTogether (p : Program) (w : Way) (x : String) : Prop :=
  ∀ first rest k j, p.Search [w] x (some first) k → p.Walk first.symbol rest j →
    k ≤ maxHops → j ≤ maxHops → k + j ≤ maxHops

/-- In the scope of a module, `ns` stands for another module and `x` for its export `x`, which is
found along the way `w`. -/
structure ImportedTwice (p : Program) (m : ModuleId) (ns x : String) (w : Way) : Prop where
  whole : ∃ id mark, p.declaration? ⟨m, ns⟩ = some (.imported id (some w.target) .everything mark)
  single : ∃ id mark,
    p.declaration? ⟨m, x⟩ = some (.imported id (some w.target) (.named x) mark) ∧
      w.hop = importHop m mark

namespace ImportedTwice

variable {ns text text' : String}

/-- The import of the export opens the way. -/
theorem importOf?_eq (twice : p.ImportedTwice m ns x w) :
    p.importOf? ⟨m, x⟩ = some ([w], x) := by
  obtain ⟨id, mark, single, hop⟩ := twice.single
  rw [importOf?_of_single single, ← hop]

/-- The qualified name stands for what the lookup of the export finds. -/
theorem symbolAt_qualified_iff (twice : p.ImportedTwice m ns x w) {s : Symbol} :
    p.symbolAt m ⟨ns, [x], text⟩ = some s ↔
      ∃ first k, p.Search [w] x (some first) k ∧ k ≤ maxHops ∧ first.symbol = s := by
  obtain ⟨id, mark, whole⟩ := twice.whole
  rw [symbolAt]
  simp only [whole]
  exact resolveExport_eq_some_iff

/-- The single name stands for its import. -/
theorem symbolAt_single (twice : p.ImportedTwice m ns x w) :
    p.symbolAt m ⟨x, [], text'⟩ = some ⟨m, x⟩ := by
  obtain ⟨id, mark, single, -⟩ := twice.single
  exact Option.map_eq_some_iff.mpr ⟨_, single, rfl⟩

/-- The qualified name leads to a declared type by a lookup and a way on from there, each within the
bound. -/
theorem referent_qualified_iff (twice : p.ImportedTwice m ns x w) {t : Symbol}
    {declaration : Declaration} (declared : p.declaration? t = some declaration)
    (isType : ∀ id source what typeOnly, declaration ≠ .imported id source what typeOnly) :
    (p.referent m ⟨ns, [x], text⟩).1 = some t ↔ ∃ first rest k j,
      p.Search [w] x (some first) k ∧ p.Walk first.symbol rest j ∧ rest.symbol = t ∧
        k ≤ maxHops ∧ j ≤ maxHops := by
  rw [referent_eq_some_iff]
  constructor
  · rintro ⟨s, bound, behind⟩
    obtain ⟨first, k, search, le, rfl⟩ := twice.symbolAt_qualified_iff.mp bound
    obtain ⟨rest, j, walk, le', same⟩ := (behindImports?_eq_some_iff declared isType).mp behind
    exact ⟨first, rest, k, j, search, walk, same, le, le'⟩
  · rintro ⟨first, rest, k, j, search, walk, same, le, le'⟩
    exact ⟨first.symbol, twice.symbolAt_qualified_iff.mpr ⟨first, k, search, le, rfl⟩,
      (behindImports?_eq_some_iff declared isType).mpr ⟨rest, j, walk, le', same⟩⟩

/-- The single name leads to a declared type by the same lookup and way, which are within the bound
together. -/
theorem referent_single_iff (twice : p.ImportedTwice m ns x w) {t : Symbol}
    {declaration : Declaration} (declared : p.declaration? t = some declaration)
    (isType : ∀ id source what typeOnly, declaration ≠ .imported id source what typeOnly) :
    (p.referent m ⟨x, [], text'⟩).1 = some t ↔ ∃ first rest k j,
      p.Search [w] x (some first) k ∧ p.Walk first.symbol rest j ∧ rest.symbol = t ∧
        k + j ≤ maxHops := by
  rw [referent_eq_some_iff]
  simp only [twice.symbolAt_single, Option.some.injEq, exists_eq_left']
  rw [behindImports?_eq_some_iff declared isType]
  constructor
  · rintro ⟨trail, n, walk, le, same⟩
    obtain ⟨first, rest, k, j, search, others, rfl, rfl⟩ :=
      (walk_single_iff twice.importOf?_eq).mp walk
    exact ⟨first, rest, k, j, search, others, same, le⟩
  · rintro ⟨first, rest, k, j, search, others, same, le⟩
    exact ⟨_, _, (walk_single_iff twice.importOf?_eq).mpr
      ⟨first, rest, k, j, search, others, rfl, rfl⟩, le, same⟩

/-- Both names are taken for the same declared type, if the bound does not come between them. -/
theorem typeDeclared?_qualified (twice : p.ImportedTwice m ns x w)
    (together : p.WithinTogether w x) :
    p.typeDeclared? m ⟨ns, [x], text⟩ = p.typeDeclared? m ⟨x, [], text'⟩ := by
  refine Option.ext fun ⟨t, declaration⟩ => ?_
  rw [typeDeclared?_eq_some, typeDeclared?_eq_some]
  refine and_congr_left fun ⟨declared, isType⟩ => ?_
  rw [twice.referent_qualified_iff declared isType, twice.referent_single_iff declared isType]
  constructor
  · rintro ⟨first, rest, k, j, search, walk, same, le, le'⟩
    exact ⟨first, rest, k, j, search, walk, same, together _ _ _ _ search walk le le'⟩
  · rintro ⟨first, rest, k, j, search, walk, same, le⟩
    exact ⟨first, rest, k, j, search, walk, same, by omega, by omega⟩

/-- If the lookup and the way on from there exceed the bound together, the single name leads to no
type. The qualified name does, if each of the two is within the bound. -/
theorem typeDeclared?_of_exceeded (twice : p.ImportedTwice m ns x w) {first rest : Trail}
    {k j : Nat} (search : p.Search [w] x (some first) k) (walk : p.Walk first.symbol rest j)
    (exceeded : maxHops < k + j) :
    p.typeDeclared? m ⟨x, [], text'⟩ = none ∧
      (k ≤ maxHops → j ≤ maxHops → ∀ declaration, p.declaration? rest.symbol = some declaration →
        (∀ id source what typeOnly, declaration ≠ .imported id source what typeOnly) →
        p.typeDeclared? m ⟨ns, [x], text⟩ = some (rest.symbol, declaration)) := by
  constructor
  · refine Option.eq_none_iff_forall_ne_some.mpr fun ⟨t, declaration⟩ found => ?_
    obtain ⟨referent, declared, isType⟩ := typeDeclared?_eq_some.1 found
    obtain ⟨first', rest', k', j', search', walk', -, le⟩ :=
      (twice.referent_single_iff declared isType).mp referent
    -- What the search and the walk cost is determined.
    obtain ⟨same, rfl⟩ := search.unique search'
    obtain rfl := Option.some.inj same
    obtain rfl := walk.unique walk'
    omega
  · intro le le' declaration declared isType
    exact typeDeclared?_eq_some.2
      ⟨(twice.referent_qualified_iff declared isType).mpr
        ⟨first, rest, k, j, search, walk, rfl, le, le'⟩, declared, isType⟩

/-- A mark that the qualified name keeps is kept by the single name. -/
theorem referent_single_typeOnly (twice : p.ImportedTwice m ns x w)
    (together : p.WithinTogether w x) (typeOnly : (p.referent m ⟨ns, [x], text⟩).2 = true) :
    (p.referent m ⟨x, [], text'⟩).2 = true := by
  unfold referent at typeOnly
  split at typeOnly
  · cases typeOnly
  · rename_i s bound
    split at typeOnly
    · split at typeOnly
      · rename_i target aliased
        obtain ⟨first, k, search, le, rfl⟩ := twice.symbolAt_qualified_iff.mp bound
        obtain ⟨-, rest, j, walk, -, le'⟩ := aliased?_eq_some_iff.1 aliased
        have kept : rest.hops.any Hop.kept = true := by
          rw [← marked_of_walk walk le']
          exact typeOnly
        -- The single name goes by the same search and walk, one after the other, so the mark is on
        -- its way too.
        have walk' := (walk_single_iff twice.importOf?_eq).mpr
          ⟨first, rest, k, j, search, walk, rfl, rfl⟩
        rw [referent_of_walk twice.symbolAt_single (by rw [twice.importOf?_eq]; rfl) walk'
          (together _ _ _ _ search walk le le')]
        simp [Trail.hops_after, kept]
      · cases typeOnly
    · cases typeOnly

end ImportedTwice

/-! ### What the two names contribute -/

/-- A reference has the members of the alias or interface for which its name is taken. -/
theorem value_expand_reference (origin : ModuleId) (entered : List Symbol) (place : Place)
    (loc : Excerpt) (name : EntityName) (arguments : List Ty) :
    (p.expand origin entered place (.reference loc name arguments)).value
      = match p.typeDeclared? place.scope name with
        | some (t, .typeAlias _ _ body) =>
          if t ∈ entered then [] else (p.expand origin (t :: entered) (.inside t.module) body).value
        | some (t, .interfaceDecl _ _ bases members) =>
          if t ∈ entered then []
          else (p.propertiesOfMembers origin (.inside t.module) members).value
            ++ (p.expandBases origin (t :: entered) t.module bases).value
        | _ => [] := by
  have behind : (p.referent place.scope name).1
      = (p.symbolAt place.scope name).bind p.behindImports? := by
    refine Option.ext fun t => ?_
    rw [referent_eq_some_iff, Option.bind_eq_some_iff]
  rw [expand_reference, typeDeclared?, behind]
  cases p.symbolAt place.scope name with
  | none => rfl
  | some s =>
    dsimp only [Option.bind_some]
    rw [value_expandSymbol]
    cases p.behindImports? s with
    | none => rfl
    | some t =>
      dsimp only [Option.bind_some]
      cases p.declaration? t with
      | none => exact ite_self _
      | some declaration => cases declaration <;> first | rfl | exact ite_self _

/-- The tags of two names that are taken for the same are the same up to the name, if they have the
same last identifier and the same arguments. -/
theorem eqUpToName_referredTags {entered : List Symbol} {place : Place} {name name' : EntityName}
    {arguments arguments' : List Ty}
    (same : p.typeDeclared? place.scope name = p.typeDeclared? place.scope name')
    (last : name.last = name'.last) (alike : List.Forall₂ Ty.Alike arguments arguments') :
    Tag.EqUpToName (p.referredTags origin entered place name arguments)
      (p.referredTags origin entered place name' arguments') := by
  have array : name.isGlobalArray = name'.isGlobalArray := by
    rw [EntityName.isGlobalArray, EntityName.isGlobalArray, last]
  have global : Tag.EqUpToName (p.globalTags origin entered place name arguments)
      (p.globalTags origin entered place name' arguments') := by
    unfold globalTags
    rw [array]
    split
    · cases alike with
      | nil => exact .refl _
      | cons first _ =>
        dsimp only
        rw [value_tagsOf_of_alike place place rfl first]
        exact .refl _
    · unfold EntityName.globalTag
      rw [last]
      -- Only a name that is no known constructor is written out.
      split <;> try exact .refl _
      split
      · exact .refl _
      · exact Or.inr ⟨_, _, false, rfl, rfl⟩
  unfold referredTags
  rw [same]
  split
  · exact .refl _
  · exact .refl _
  · exact Or.inr ⟨_, _, _, rfl, rfl⟩
  · exact .refl _
  · exact global
  · exact global

namespace ImportedTwice

variable {ns text text' : String} {loc loc' : Excerpt} {arguments arguments' : List Ty}
  {place : Place}

/-- The single name has the tags of the qualified one, up to the name, without constructors if it is
there for types only. -/
theorem eqUpToName_tagsOf (twice : p.ImportedTwice place.scope ns x w) (origin : ModuleId)
    (text text' : String) (loc loc' : Excerpt) (together : p.WithinTogether w x)
    (alike : List.Forall₂ Ty.Alike arguments arguments') :
    Tag.EqUpToName
      (p.tagsOf origin [] place (.reference loc' ⟨x, [], text'⟩ arguments')).value
      (if (p.referent place.scope ⟨x, [], text'⟩).2 then
        (p.tagsOf origin [] place (.reference loc ⟨ns, [x], text⟩ arguments)).value.map Tag.erased
      else (p.tagsOf origin [] place (.reference loc ⟨ns, [x], text⟩ arguments)).value) := by
  have referred : Tag.EqUpToName
      (p.referredTags origin [] place ⟨x, [], text'⟩ arguments')
      (p.referredTags origin [] place ⟨ns, [x], text⟩ arguments) :=
    eqUpToName_referredTags (twice.typeDeclared?_qualified together).symm rfl
      (alike.flip.imp fun _ _ => Ty.Alike.symm)
  rw [value_tagsOf_reference, value_tagsOf_reference]
  cases marked : (p.referent place.scope ⟨x, [], text'⟩).2 with
  | true =>
    -- Taking constructors twice is taking them once.
    have once : ∀ tags : List Tag, (tags.map Tag.erased).map Tag.erased = tags.map Tag.erased := by
      intro tags
      rw [List.map_map]
      exact List.map_congr_left fun t _ => t.erased_erased
    rw [if_pos rfl, if_pos rfl]
    split
    · rw [once]
      exact referred.map_erased
    · exact referred.map_erased
  | false =>
    have unmarked : (p.referent place.scope ⟨ns, [x], text⟩).2 = false := by
      refine Bool.eq_false_iff.mpr fun kept => ?_
      have kept' : (p.referent place.scope ⟨x, [], text'⟩).2 = true :=
        twice.referent_single_typeOnly together kept
      rw [marked] at kept'
      cases kept'
    rw [unmarked]
    exact referred

/-- The two names have the same properties. -/
theorem value_propertiesOf_eq (origin : ModuleId) (twice : p.ImportedTwice place.scope ns x w)
    (together : p.WithinTogether w x) :
    (p.propertiesOf origin place (.reference loc ⟨ns, [x], text⟩ arguments)).value
      = (p.propertiesOf origin place (.reference loc' ⟨x, [], text'⟩ arguments')).value := by
  unfold propertiesOf
  rw [Noted.map_value, Noted.map_value, value_expand_reference, value_expand_reference,
    twice.typeDeclared?_qualified together]

/-- The single name keeps the marks on the whole way to its type. The qualified name keeps those
behind the first symbol. -/
theorem referent_eq (twice : p.ImportedTwice m ns x w) (text text' : String)
    {first rest : Trail} {k j : Nat}
    (search : p.Search [w] x (some first) k) (walk : p.Walk first.symbol rest j)
    {declaration : Declaration} (declared : p.declaration? rest.symbol = some declaration)
    (isType : ∀ id source what typeOnly, declaration ≠ .imported id source what typeOnly)
    (le : k + j ≤ maxHops) :
    p.referent m ⟨x, [], text'⟩ = (some rest.symbol, (first.hops ++ rest.hops).any Hop.kept) ∧
      p.referent m ⟨ns, [x], text⟩ = (some rest.symbol, rest.hops.any Hop.kept) := by
  have bound : p.symbolAt m ⟨ns, [x], text⟩ = some first.symbol :=
    twice.symbolAt_qualified_iff.mpr ⟨first, k, search, by omega, rfl⟩
  constructor
  · have walk' := (walk_single_iff twice.importOf?_eq).mpr
      ⟨first, rest, k, j, search, walk, rfl, rfl⟩
    exact referent_of_walk twice.symbolAt_single (by rw [twice.importOf?_eq]; rfl) walk' le
  · by_cases named : (p.importOf? first.symbol).isSome
    · exact referent_of_walk bound named walk (by omega)
    · cases walk with
      | here stops =>
        -- A type that is found at once is no import, so there is no mark behind it.
        have noImport : p.wholeImport first.symbol = [] := by
          unfold wholeImport
          rw [declared]
          cases declaration with
          | imported => exact absurd rfl (isType _ _ _ _)
          | typeAlias | interfaceDecl | classDecl | enumDecl => rfl
        have declared : p.declaration? first.symbol = some declaration := declared
        unfold referent
        rw [bound, noImport]
        cases declaration with
        | imported => exact absurd rfl (isType _ _ _ _)
        | typeAlias | interfaceDecl | classDecl | enumDecl => simp only [declared, List.any_nil]
      | next imported _ _ => exact absurd (by rw [imported]; rfl) named

end ImportedTwice

/-- An export that is named by a qualified name and by an import of its own has the same properties
under both names, and the same tags up to the name, unless the import takes the constructors away
and there are some, or the bound comes between the two. What each name keeps of the marks on the
way, and which of them is followed where the bound is exceeded, is said for every way to a declared
type. -/
theorem qualified_of_imported (p : Program) (origin : ModuleId) (place : Place)
    {ns x text text' : String} {w : Way} (twice : p.ImportedTwice place.scope ns x w)
    {loc loc' : Excerpt} {arguments arguments' : List Ty}
    (alike : List.Forall₂ Ty.Alike arguments arguments') :
    (p.WithinTogether w x →
      (p.propertiesOf origin place (.reference loc ⟨ns, [x], text⟩ arguments)).value
        = (p.propertiesOf origin place (.reference loc' ⟨x, [], text'⟩ arguments')).value ∧
      Option.Rel (fun whole single =>
          Tag.Counterpart (p.referent place.scope ⟨x, [], text'⟩).2 whole.tags single.tags)
        (p.resolveType origin place (.reference loc ⟨ns, [x], text⟩ arguments)).value
        (p.resolveType origin place (.reference loc' ⟨x, [], text'⟩ arguments')).value) ∧
    ∀ first rest k j declaration, p.Search [w] x (some first) k → p.Walk first.symbol rest j →
      p.declaration? rest.symbol = some declaration →
      (∀ id source what typeOnly, declaration ≠ .imported id source what typeOnly) →
      (k + j ≤ maxHops →
        p.referent place.scope ⟨x, [], text'⟩
            = (some rest.symbol, (first.hops ++ rest.hops).any Hop.kept) ∧
          p.referent place.scope ⟨ns, [x], text⟩
            = (some rest.symbol, rest.hops.any Hop.kept)) ∧
      (maxHops < k + j → p.typeDeclared? place.scope ⟨x, [], text'⟩ = none ∧
        (k ≤ maxHops → j ≤ maxHops →
          p.typeDeclared? place.scope ⟨ns, [x], text⟩ = some (rest.symbol, declaration))) := by
  refine ⟨fun together => ⟨twice.value_propertiesOf_eq origin together, ?_⟩, ?_⟩
  · have tags := twice.eqUpToName_tagsOf origin text text' loc loc' together alike
    refine resolveType_rel (S := Tag.Counterpart _) ?_ (.of_eq (nodup_eraseDups _) ?_)
    · rw [tags.eq_nil_iff]
      split <;> simp
    · have same := tags.eraseDups
      split at same
      · rename_i typeOnly
        rwa [if_pos typeOnly, eraseDups_map_eraseDups]
      · rename_i kept
        rwa [if_neg kept]
  · intro first rest k j declaration search walk declared isType
    refine ⟨twice.referent_eq text text' search walk declared isType, fun exceeded => ?_⟩
    obtain ⟨lost, kept⟩ := twice.typeDeclared?_of_exceeded search walk exceeded
    exact ⟨lost, fun le le' => kept le le' declaration declared isType⟩

/-! ### A class that is imported twice -/

/-- One way to a declared type that is within the bound is enough, because there is only one. -/
theorem withinTogether_of_walk {first rest : Trail} {k j : Nat}
    (search : p.Search [w] x (some first) k) (walk : p.Walk first.symbol rest j)
    (le : k + j ≤ maxHops) : p.WithinTogether w x := by
  intro first' rest' k' j' search' walk' _ _
  obtain ⟨same, rfl⟩ := search.unique search'
  obtain rfl := Option.some.inj same
  obtain rfl := walk.unique walk'
  exact le

/-- A symbol from which one way opens is an import of one name. -/
theorem exists_of_importOf? (imported : p.importOf? ⟨m, x⟩ = some ([w], x)) :
    ∃ id mark, p.declaration? ⟨m, x⟩ = some (.imported id (some w.target) (.named x) mark) ∧
      w.hop = importHop m mark := by
  obtain ⟨id, source, mark, declared, ways⟩ := importOf?_eq_some_iff.1 imported
  cases source with
  | none => cases ways
  | some target =>
    obtain rfl := (List.cons.inj ways).1
    exact ⟨id, mark, declared, rfl⟩

/-- A module that imports another one as a whole, and its class by itself, both for types only or
both not. -/
def twiceFiles (typeOnly : Bool) : Sources := .ofList [
  ("/a.ts", .text ((if typeOnly then "import type" else "import") ++ " * as NS from './d'\n"
    ++ (if typeOnly then "import type" else "import") ++ " \x7b X \x7d from './d'\n"
    ++ "const C = defineComponent<\x7b a: NS.X, b: X \x7d>(\x7b\x7d)\n")),
  ("/d.ts", .text "export class X {}\n")]

/-- In `twiceFiles` the class is found at once. -/
theorem exists_twiceFiles (typeOnly : Bool) :
    ∃ p id, load (twiceFiles typeOnly) "/a.ts" = .ok p ∧
      p.ImportedTwice 0 "NS" "X" ⟨importHop 0 typeOnly, 1⟩ ∧
      p.Search [⟨importHop 0 typeOnly, 1⟩] "X"
        (some ⟨⟨1, "X"⟩, [importHop 0 typeOnly, ownHop 1 false]⟩) 1 ∧
      p.Walk ⟨1, "X"⟩ ⟨⟨1, "X"⟩, []⟩ 0 ∧ p.declaration? ⟨1, "X"⟩ = some (.classDecl id) := by
  have loads : loadsWith (twiceFiles typeOnly) "/a.ts" (fun p =>
      p.isWholeImport ⟨0, "NS"⟩ 1 typeOnly && decide
        (p.importOf? ⟨0, "X"⟩ = some ([⟨importHop 0 typeOnly, 1⟩], "X") ∧
          p.finding 1 "X" = .declared (some ⟨1, "X"⟩) (ownHop 1 false) ∧
          p.importOf? ⟨1, "X"⟩ = none ∧ p.wholeImport ⟨1, "X"⟩ = [] ∧
          p.isClass ⟨1, "X"⟩)) = true := by
    cases typeOnly
    all_goals
      refine loadsWith_of_written (by repeat constructor) ?_
      decide +kernel
  obtain ⟨p, loaded, facts⟩ := exists_of_loadsWith loads
  obtain ⟨whole, facts⟩ := Bool.and_eq_true_iff.mp facts
  obtain ⟨imported, found, stops, notWhole, isClass⟩ := of_decide_eq_true facts
  obtain ⟨id, whole⟩ := exists_of_isWholeImport whole
  obtain ⟨id', isClass⟩ := isClass_iff.1 isClass
  refine ⟨p, id', loaded, ⟨⟨id, typeOnly, whole⟩, exists_of_importOf? imported⟩, .declared found,
    ?_, isClass⟩
  have walk := Walk.here stops
  rwa [notWhole] at walk

/-- The tag of a name that leads to a class. -/
theorem tags_of_class (m : ModuleId) {name : EntityName} {s : Symbol} {id : Identifier}
    {typeOnly : Bool} (found : p.referent m name = (some s, typeOnly))
    (isClass : p.declaration? s = some (.classDecl id)) :
    (p.resolveType m (.inside m) (.reference default name [])).value.map (·.tags)
      = some [.named name.text !typeOnly] := by
  have declared : p.typeDeclared? (Place.inside m).scope name = some (s, .classDecl id) :=
    typeDeclared?_of_referent found isClass
  have found : p.referent (Place.inside m).scope name = (some s, typeOnly) := found
  have tags : (p.tagsOf m [] (.inside m) (.reference default name [])).value
      = [.named name.text !typeOnly] := by
    rw [value_tagsOf_reference, referredTags, declared, found]
    cases typeOnly <;> simp [Place.inside, Tag.erased]
  rw [map_tags_resolveType, tags]
  rfl

/-- The qualified name of a class that is imported for types only keeps its constructor, and the
single name does not. -/
theorem qualified_keeps_constructor :
    ∃ p, load (twiceFiles true) "/a.ts" = .ok p ∧
      p.ImportedTwice 0 "NS" "X" ⟨importHop 0 true, 1⟩ ∧
      (p.resolveType 0 (.inside 0) (.reference default ⟨"NS", ["X"], "NS.X"⟩ [])).value.map (·.tags)
        = some [.named "NS.X" true] ∧
      (p.resolveType 0 (.inside 0) (.reference default ⟨"X", [], "X"⟩ [])).value.map (·.tags)
        = some [.named "X" false] ∧
      ¬ Tag.EqUpToName [.named "X" false] [.named "NS.X" true] := by
  obtain ⟨p, id, loaded, twice, search, walk, isClass⟩ := exists_twiceFiles true
  obtain ⟨single, whole⟩ :=
    twice.referent_eq "NS.X" "X" search walk isClass (by simp) (by decide)
  refine ⟨p, loaded, twice, tags_of_class 0 whole isClass, tags_of_class 0 single isClass, ?_⟩
  rintro (same | ⟨name, name', constructible, left, right⟩)
  · exact absurd same (by decide)
  · obtain ⟨-, rfl⟩ := Tag.named.inj (List.cons.inj left).1
    cases (Tag.named.inj (List.cons.inj right).1).2

/-- Without marks the two names of the class have the same properties, and the same tags up to the
name. -/
theorem qualified_of_imported_unmarked :
    ∃ p whole single, load (twiceFiles false) "/a.ts" = .ok p ∧
      p.ImportedTwice 0 "NS" "X" ⟨importHop 0 false, 1⟩ ∧
      p.WithinTogether ⟨importHop 0 false, 1⟩ "X" ∧
      (p.propertiesOf 0 (.inside 0) (.reference default ⟨"NS", ["X"], "NS.X"⟩ [])).value
        = (p.propertiesOf 0 (.inside 0) (.reference default ⟨"X", [], "X"⟩ [])).value ∧
      (p.resolveType 0 (.inside 0) (.reference default ⟨"NS", ["X"], "NS.X"⟩ [])).value
        = some whole ∧
      (p.resolveType 0 (.inside 0) (.reference default ⟨"X", [], "X"⟩ [])).value = some single ∧
      whole.tags = [.named "NS.X" true] ∧ Tag.EqUpToName single.tags whole.tags := by
  obtain ⟨p, id, loaded, twice, search, walk, isClass⟩ := exists_twiceFiles false
  have together := withinTogether_of_walk search walk (by decide)
  obtain ⟨alike, marks⟩ := @qualified_of_imported p 0 (.inside 0) "NS" "X" "NS.X" "X" _ twice
    default default [] [] .nil
  obtain ⟨same, related⟩ := alike together
  obtain ⟨leads, leads'⟩ := (marks _ _ _ _ _ search walk isClass (by simp)).1 (by decide)
  obtain ⟨whole, resolves, tags⟩ := Option.map_eq_some_iff.mp (tags_of_class 0 leads' isClass)
  obtain ⟨single, resolves', -⟩ := Option.map_eq_some_iff.mp (tags_of_class 0 leads isClass)
  rw [resolves, resolves'] at related
  cases related with
  | some counterpart =>
    have unmarked : (p.referent 0 ⟨"X", [], "X"⟩).2 = false := congrArg Prod.snd leads
    exact ⟨p, whole, single, loaded, twice, together, same, resolves, resolves', tags,
      counterpart.agree_iff.mpr (Or.inl unmarked)⟩

end Program

end TypedProps
