import TypedProps.Proofs.Exports.Aliases
import TypedProps.Proofs.Property.Members
import TypedProps.Proofs.Tags.Leaves

/-!
# `TypedProps.Proofs.Tags.Constructors`: which constructors exist at run time

A patch names the constructors among the tags of a property where the patched module ends. This
module says when such a name has a value there.

* `exists_reference_of_constructor`: every constructor comes from a reference in the type of its
  property. Either nothing is declared under the reference and the constructor is a global one, or
  the reference stands in the patched module and leads to a class.
* In the second case the class exists at run time exactly if no mark stands on the way to it. The
  resolution has looked at the marks that imports keep. It has not looked at those on exports of own
  names and of whole modules, nor at any on the way from a module that is imported as a whole to one
  of its exports: `constructor_of_marked_namespace` is about a name that does not exist.
-/

set_option autoImplicit false

namespace TypedProps

/-- A type name that is a single identifier. -/
def EntityName.plain (name : String) : EntityName := ⟨name, [], name⟩

namespace Program

variable {p : Program}

/-! ### The way from a type name to a symbol -/

/-- `p.NameLeads m name before rest`: in the scope of a module, a type name leads by some hops to a
symbol, from which imports lead along a trail. A plain name is bound there. A qualified one is an
export of a module that is imported as a whole. -/
inductive NameLeads (p : Program) (m : ModuleId) : EntityName → List Hop → Trail → Prop
  | plain {name : EntityName} {rest : Trail} (plain : name.more = [])
      (leads : p.Leads ⟨m, name.first⟩ rest) : NameLeads p m name [] rest
  | member {name : EntityName} {member : String} {id : Identifier} {source : ModuleId}
      {typeOnly : Bool} {first rest : Trail} (qualified : name.more = [member])
      (whole : p.declaration? ⟨m, name.first⟩
        = some (.imported id (some source) .everything typeOnly))
      (found : p.reference [] [⟨importHop m typeOnly, source⟩] member = some first)
      (leads : p.Leads first.symbol rest) : NameLeads p m name first.hops rest

/-- A type name leads along one way. -/
theorem NameLeads.unique {m : ModuleId} {name : EntityName} {before before' : List Hop}
    {rest rest' : Trail} (left : p.NameLeads m name before rest)
    (right : p.NameLeads m name before' rest') : before = before' ∧ rest = rest' := by
  cases left with
  | plain isPlain leads =>
    cases right with
    | plain _ leads' => exact ⟨rfl, leads.unique leads'⟩
    | member qualified _ _ _ => simp [isPlain] at qualified
  | member qualified whole found leads =>
    cases right with
    | plain isPlain _ => simp [isPlain] at qualified
    | member qualified' whole' found' leads' =>
      obtain ⟨rfl, -⟩ := List.cons.inj (qualified.symm.trans qualified')
      have same := whole.symm.trans whole'
      simp only [Option.some.injEq, Declaration.imported.injEq] at same
      obtain ⟨-, rfl, -, rfl⟩ := same
      obtain rfl := Option.some.inj (found.symm.trans found')
      exact ⟨rfl, leads.unique leads'⟩

/-- A lookup that the resolver answers is answered so by the reference. -/
theorem exists_reference_of_resolveExport {budget : Nat} {w : Way} {name : String} {s : Symbol}
    (answered : (p.resolveExport budget w.target name false).symbol = some s) :
    ∃ trail, p.reference [] [w] name = some trail ∧ trail.symbol = s := by
  rw [(resolveExport_target budget w name false).1] at answered
  rcases search_or_exhausted (p := p) budget [w] name with ⟨answer, n, le, search⟩ | out
  · rw [(resolveWays_of_search search le false).symbol_eq] at answered
    obtain ⟨trail, rfl, same⟩ := Option.map_eq_some_iff.mp answered
    exact ⟨trail, search.reference_eq .nil, same⟩
  · rw [(out false).1] at answered
    cases answered

/-- A symbol that a type name stands for is bound by it, or is the export to which a qualified name
leads. -/
theorem exists_before_of_symbolAt {m : ModuleId} {name : EntityName} {s : Symbol}
    (bound : p.symbolAt m name = some s) :
    ∃ before, (name.more = [] → before = []) ∧
      ∀ rest, p.Leads s rest → p.NameLeads m name before rest := by
  rcases symbolAt_eq_some_iff.1 bound with
    ⟨isPlain, bound⟩ | ⟨member, id, source, typeOnly, qualified, whole, answered⟩
  · obtain ⟨d, -, rfl⟩ := Option.map_eq_some_iff.mp bound
    exact ⟨[], fun _ => rfl, fun rest leads => .plain isPlain leads⟩
  · obtain ⟨first, found, rfl⟩ :=
      exists_reference_of_resolveExport (w := ⟨importHop m typeOnly, source⟩) answered
    exact ⟨first.hops, fun isPlain => by simp [isPlain] at qualified,
      fun rest leads => .member qualified whole found leads⟩

/-- Whether a symbol is a class, in terms of its declaration. -/
theorem isClass_iff {s : Symbol} :
    p.isClass s = true ↔ ∃ id, p.declaration? s = some (.classDecl id) := by
  unfold isClass
  split
  · rename_i id declared
    exact ⟨fun _ => ⟨id, declared⟩, fun _ => rfl⟩
  · rename_i notClass
    constructor
    · intro h
      cases h
    · rintro ⟨id, declared⟩
      exact absurd declared (notClass id)

/-- If a name leads to a class, and no import on the way is found to be type-only, the way behind
the first symbol keeps no mark. -/
theorem exists_nameLeads_of_classDecl {m : ModuleId} {name : EntityName} {s : Symbol}
    {id : Identifier}
    (declared : p.typeDeclared? m name = some (s, .classDecl id))
    (notErased : (p.referent m name).2 = false) :
    ∃ before rest, p.NameLeads m name before rest ∧ (name.more = [] → before = []) ∧
      rest.symbol = s ∧ ¬ rest.KeepsMark := by
  obtain ⟨found, isClass⟩ := declaration?_of_typeDeclared? declared
  unfold referent at found notErased
  split at found
  · cases found
  · rename_i first bound
    obtain ⟨before, plain, leads⟩ := exists_before_of_symbolAt bound
    rw [bound] at notErased
    dsimp only at notErased
    split at found
    · -- Behind an import, the flag of the resolver says that no mark is kept.
      rename_i imported
      rw [imported] at notErased
      dsimp only at notErased
      split at found
      · rename_i target aliased
        obtain rfl := Option.some.inj found
        rw [aliased] at notErased
        obtain ⟨-, rest, n, walk, same, le⟩ := aliased?_eq_some_iff.1 aliased
        refine ⟨before, rest, leads rest walk.leads, plain, same, ?_⟩
        rw [← rest.any_kept_iff, ← marked_of_walk walk le]
        exact Bool.eq_false_iff.mp notErased
      · cases found
    · -- A class that is not imported has no trail behind it.
      obtain rfl := Option.some.inj found
      have stops : p.importOf? first = none := by rw [importOf?, isClass]
      have notWhole : p.wholeImport first = [] := by rw [wholeImport, isClass]
      refine ⟨before, _, leads _ (.here stops), plain, rfl, ?_⟩
      rintro ⟨hop, mem, -⟩
      rw [notWhole] at mem
      cases mem

/-- A name that leads to a class is bound. -/
theorem NameLeads.lookup_ne_none {m : ModuleId} {name : EntityName} {before : List Hop}
    {rest : Trail} (leads : p.NameLeads m name before rest)
    (isClass : p.isClass rest.symbol = true) :
    p.lookup m name.first ≠ none := by
  obtain ⟨id, declared⟩ := isClass_iff.1 isClass
  cases leads with
  | plain isPlain leads =>
    intro unbound
    have undeclared : p.declaration? ⟨m, name.first⟩ = none := Option.map_eq_none_iff.mp unbound
    cases leads with
    | here _ =>
      rw [undeclared] at declared
      cases declared
    | next imported _ _ =>
      obtain ⟨_, _, _, found, -⟩ := importOf?_eq_some_iff.1 imported
      cases undeclared.symm.trans found
  | member qualified whole found leads => simp [lookup, whole]

/-- A trail behind some hops is unmarked if both are. -/
theorem not_marked_after_iff {before : List Hop} {rest : Trail} :
    ¬ (rest.after before).Marked ↔ (∀ hop ∈ before, hop.typeOnly = false) ∧ ¬ rest.Marked := by
  unfold Trail.Marked
  simp only [Trail.hops_after, List.mem_append, not_exists, not_and, Bool.not_eq_true]
  constructor
  · intro unmarked
    exact ⟨fun hop mem => unmarked hop (Or.inl mem), fun hop mem => unmarked hop (Or.inr mem)⟩
  · rintro ⟨head, tail⟩ hop (mem | mem)
    · exact head hop mem
    · exact tail hop mem

/-! ### Constructors -/

/-- In the scope of a module, a type name leads to a class, and no mark stands on the way. -/
def NamesValue (p : Program) (m : ModuleId) (name : EntityName) : Prop :=
  ∃ before rest, p.NameLeads m name before rest ∧ p.isClass rest.symbol = true ∧
    ¬ (rest.after before).Marked

/-- The constructor `value` exists at run time where module `origin` ends: it is a global one and
`origin` binds nothing under the first identifier of the reference from which it comes, or it is the
name of a class there. -/
def ExistsAtRunTime (p : Program) (origin : ModuleId) (reference value : EntityName) : Prop :=
  (p.lookup origin reference.first = none ∧ value.text ∈ globalConstructors) ∨
    p.NamesValue origin value

/-- A property of a component takes tags from a reference in the scope of a module. -/
def RefersTo (p : Program) (options : Options) (origin script : ModuleId) (items : List Item)
    (id : String) (q : Property) (m : ModuleId) (name : EntityName) : Prop :=
  ∃ described place member written spot arguments,
    DescribedBy options script items id described ∧
      p.Declares (.type ⟨origin, script⟩ described) place member ∧
      (p.propertyOf origin place member).value = some q ∧
      (∃ loc docs key optional, member = .property loc docs key optional (some written)) ∧
      p.Reaches (place.scope, written) (m, .reference spot name arguments)

/-- A leaf with a constructor is a reference, to nothing that is declared or to a class. -/
theorem constructor_cases {origin : ModuleId} {leaf : ModuleId × Ty} {n : String}
    (gives : p.Gives origin leaf (.named n true)) :
    ∃ m spot name arguments, leaf = (m, .reference spot name arguments) ∧
      ((p.typeDeclared? m name = none ∧ n = name.last ∧ n ∈ globalConstructors) ∨
        (m = origin ∧ n = name.text ∧ ∃ s id, p.typeDeclared? m name = some (s, .classDecl id) ∧
          (p.referent m name).2 = false)) := by
  generalize same : Tag.named n true = t at gives
  -- Keywords, literals, functions, objects and enumerations have no names in their tags that could
  -- be constructors.
  cases gives with
  | @keyword m loc word t tag =>
    subst same
    cases word <;> cases tag
  | @classDecl m loc name arguments s id declared =>
    obtain ⟨rfl, flag⟩ := Tag.named.inj same
    have flag := flag.symm
    rw [Bool.and_eq_true, beq_iff_eq, Bool.not_eq_true'] at flag
    exact ⟨m, loc, name, arguments, rfl, Or.inr ⟨flag.1, rfl, s, id, declared, flag.2⟩⟩
  | enumDecl declared =>
    unfold enumTag at same
    split at same <;> cases same
  | @global m loc name arguments undeclared notArray =>
    split at same
    · exact absurd same.symm Tag.erased_ne_constructible
    · obtain ⟨rfl, known⟩ := EntityName.globalTag_eq_named same.symm
      exact ⟨m, loc, name, arguments, rfl, Or.inl ⟨undeclared, rfl, known⟩⟩
  | literal | function | object | mapped | interfaceDecl => cases same

/-- The tags of a resolved type are those of the type. -/
theorem mem_tagsOf_of_mem_resolveType {origin : ModuleId} {place : Place} {written : Ty}
    {type : ResolvedType} {t : Tag}
    (resolved : (p.resolveType origin place written).value = some type) (mem : t ∈ type.tags) :
    t ∈ (p.tagsOf origin [] place written).value := by
  rw [(resolveType_eq_some_iff.1 resolved).1, Tag.mem_merge] at mem
  exact mem.resolve_left List.not_mem_nil

/-- A plain name under which no type is declared is bound by an import, if it is bound. -/
theorem imported_of_typeDeclared?_eq_none {m : ModuleId} {name : EntityName}
    (undeclared : p.typeDeclared? m name = none) (isPlain : name.more = [])
    (bound : p.lookup m name.first ≠ none) :
    ∃ id source what typeOnly, p.declaration? ⟨m, name.first⟩
      = some (.imported id source what typeOnly) := by
  cases declared : p.declaration? ⟨m, name.first⟩ with
  | none => simp [lookup, declared] at bound
  | some d =>
    have symbol : p.symbolAt m name = some ⟨m, name.first⟩ := by
      rw [symbolAt, isPlain]
      simp [lookup, declared]
    cases d with
    | imported id source what typeOnly => exact ⟨id, source, what, typeOnly, rfl⟩
    | typeAlias | interfaceDecl | classDecl | enumDecl =>
      simp [typeDeclared?, referent, symbol, declared] at undeclared

/-- A constructor comes from a reference under which nothing is declared. It exists at run time
unless the origin binds the first identifier of the reference, and the constructor is not a class
there. A plain name that the origin binds is then bound by an import. -/
structure FromGlobal (p : Program) (origin : ModuleId) (n : String) (m : ModuleId)
    (name : EntityName) : Prop where
  undeclared : p.typeDeclared? m name = none
  eq_last : n = name.last
  known : n ∈ globalConstructors
  exists_iff : p.ExistsAtRunTime origin name (.plain n) ↔
    p.lookup origin name.first = none ∨ p.NamesValue origin (.plain n)
  imported : m = origin → name.more = [] → p.lookup origin name.first ≠ none →
    ∃ id source what typeOnly,
      p.declaration? ⟨origin, name.first⟩ = some (.imported id source what typeOnly)

/-- A constructor comes from a reference in the origin that leads to a class. It exists at run time
exactly if there is no mark on the way to the first symbol, and none that is lost on the trail from
there. The trail keeps no mark. -/
structure FromClass (p : Program) (origin : ModuleId) (n : String) (m : ModuleId)
    (name : EntityName) (before : List Hop) (rest : Trail) : Prop where
  inside : m = origin
  eq_text : n = name.text
  leads : p.NameLeads origin name before rest
  isClass : p.isClass rest.symbol = true
  plain : name.more = [] → before = []
  notKept : ¬ rest.KeepsMark
  exists_iff : p.ExistsAtRunTime origin name name ↔
    (∀ hop ∈ before, hop.typeOnly = false) ∧ ¬ rest.LosesMark

/-- Every constructor among the tags of a property comes from a reference in its type, in one of two
ways, each with the exact condition under which it exists at run time. -/
theorem exists_reference_of_constructor {options : Options} {origin script : ModuleId}
    {items : List Item} {id : String} {c : Component} {q : Property} {type : ResolvedType}
    {n : String} (component : (id, c) ∈ (p.componentsOf options origin script items).value)
    (property : q ∈ c.props ∨ q ∈ c.events ∨ q ∈ c.slots) (typed : q.type = some type)
    (tag : .named n true ∈ type.tags) :
    ∃ m name, p.RefersTo options origin script items id q m name ∧
      (p.FromGlobal origin n m name ∨ ∃ before rest, p.FromClass origin n m name before rest) := by
  obtain ⟨described, describes, mem⟩ := exists_describedBy_of_mem_componentsOf component property
  obtain ⟨place, member, declares, declared⟩ := exists_member_of_mem_propertiesOf mem
  obtain ⟨loc, docs, key, optional, written, rfl, resolved⟩ :=
    exists_type_of_propertyOf declared typed tag (by simp)
  rcases exists_leaf_of_mem_tagsOf (mem_tagsOf_of_mem_resolveType resolved tag) with
    ⟨elements, array⟩ | ⟨leaf, u, reaches, gives, same⟩
  · cases array
  -- A tag with a constructor has never lost it.
  have same : Tag.named n true = u := by
    rcases same with same | same
    · exact same
    · exact absurd same.symm Tag.erased_ne_constructible
  subst same
  obtain ⟨m, spot, name, arguments, rfl, origins⟩ := constructor_cases gives
  refine ⟨m, name, ⟨described, place, _, written, spot, arguments, describes, declares, declared,
    ⟨loc, docs, key, optional, rfl⟩, reaches⟩, ?_⟩
  rcases origins with ⟨undeclared, rfl, known⟩ | ⟨rfl, rfl, s, id, declaresClass, notErased⟩
  · refine Or.inl ⟨undeclared, rfl, known, ?_, ?_⟩
    · unfold ExistsAtRunTime
      rw [and_iff_left (show (EntityName.plain name.last).text ∈ globalConstructors from known)]
    · rintro rfl isPlain bound
      exact imported_of_typeDeclared?_eq_none undeclared isPlain bound
  · have isClass := isClass_iff.2 ⟨_, (declaration?_of_typeDeclared? declaresClass).2⟩
    obtain ⟨before, rest, leads, plain, rfl, notKept⟩ :=
      exists_nameLeads_of_classDecl declaresClass notErased
    refine Or.inr ⟨before, rest, rfl, rfl, leads, isClass, plain, notKept, ?_⟩
    constructor
    · -- The name is bound and leads one way only.
      rintro (⟨unbound, -⟩ | ⟨before', rest', leads', -, unmarked⟩)
      · exact absurd unbound (leads.lookup_ne_none isClass)
      · obtain ⟨rfl, rfl⟩ := leads'.unique leads
        obtain ⟨head, tail⟩ := not_marked_after_iff.1 unmarked
        exact ⟨head, fun lost => tail (rest'.marked_iff.mpr (Or.inr lost))⟩
    · rintro ⟨head, notLost⟩
      have unmarked : ¬ rest.Marked := by
        intro marked
        exact (rest.marked_iff.mp marked).elim notKept notLost
      exact Or.inr ⟨before, rest, leads, isClass, not_marked_after_iff.2 ⟨head, unmarked⟩⟩

/-! ### Two programs -/

/-- Whether the only variable among some items is a component with one property, of a referenced
type. -/
def declaresOne (items : List Item) (id key : String) (name : EntityName) : Bool :=
  match items.flatMap Item.variables with
  | [⟨⟨some id', none⟩, some (.call _ (.name _ factory)
      [.object _ [.property _ _ (some key') false (some (.reference _ name' []))]]
      [.plain (.object _ [])])⟩] =>
    id' == id && factory == "defineComponent" && key' == key && name' == name && !key.isEmpty
  | _ => false

/-- Whether a symbol is the import of a module as a whole. -/
def isWholeImport (p : Program) (s : Symbol) (source : ModuleId) (typeOnly : Bool) : Bool :=
  match p.declaration? s with
  | some (.imported _ (some source') .everything typeOnly') =>
    source' == source && typeOnly' == typeOnly
  | _ => false

/-- Such a symbol is declared so. -/
theorem exists_of_isWholeImport {s : Symbol} {source : ModuleId} {typeOnly : Bool}
    (h : p.isWholeImport s source typeOnly = true) :
    ∃ id, p.declaration? s = some (.imported id (some source) .everything typeOnly) := by
  unfold isWholeImport at h
  split at h
  · rename_i id source' typeOnly' declared
    simp only [Bool.and_eq_true, beq_iff_eq] at h
    obtain ⟨rfl, rfl⟩ := h
    exact ⟨id, declared⟩
  · cases h

/-- Such items make one component, whose property refers to the name. -/
theorem exists_component_of_declaresOne {items : List Item} {id key : String} {name : EntityName}
    (h : declaresOne items id key name = true) (p : Program) :
    ∃ spot q, q.type = (p.resolveType 0 ⟨0, 0⟩ (.reference spot name [])).value ∧
      (p.componentsOf .standard 0 0 items).value = [(id, ⟨[q], [], []⟩)] ∧
      p.RefersTo .standard 0 0 items id q 0 name := by
  unfold declaresOne at h
  split at h
  · rename_i id' call callee factory loc spot₀ docs key' spot name' empty single
    simp only [Bool.and_eq_true, beq_iff_eq, Bool.not_eq_true'] at h
    obtain ⟨⟨⟨⟨rfl, rfl⟩, rfl⟩, rfl⟩, named⟩ := h
    have usable : usableName? (some key') = some key' := by simp [usableName?, named]
    obtain ⟨q, property, typed⟩ : ∃ q, (p.propertyOf 0 ⟨0, 0⟩ (.property spot₀ docs (some key')
        false (some (.reference spot name' [])))).value = some q ∧
        q.type = (p.resolveType 0 ⟨0, 0⟩ (.reference spot name' [])).value := by
      rw [value_propertyOf_property, usable]
      exact ⟨_, rfl, rfl⟩
    -- There is the one property, and no exclusion.
    have properties : (p.propertiesWithout 0 0 [] (some (.object loc
        [.property spot₀ docs (some key') false (some (.reference spot name' []))]))).value
        = [q] := by
      rw [propertiesWithout, propertiesOf, expand.eq_def]
      simp only [Noted.map_value, value_propertiesOfMembers, List.filterMap_cons, property,
        List.filterMap_nil]
      rfl
    have component : (p.componentOf 0 0 ⟨⟨some (.object loc
        [.property spot₀ docs (some key') false (some (.reference spot name' []))]), none, none⟩,
        [], []⟩).value = some ⟨[q], [], []⟩ := by
      simp only [componentOf, Noted.bind_value, properties]
      rfl
    have recognized (type : Ty) (a b c : Span) :
        (Recognized.ofVariable .standard 0 none (.call a (.name b "defineComponent") [type]
          [.plain (.object c [])])).value = some ⟨⟨some type, none, none⟩, [], []⟩ := rfl
    refine ⟨spot, q, typed, ?_, ?_⟩
    · rw [componentsOf, single]
      simp only [Noted.map_value, value_componentsAmong, List.filterMap_cons, List.filterMap_nil,
        componentOfVariable, Noted.bind_value, Noted.pure_value, recognized, component]
      rfl
    · have described : DescribedBy .standard 0 items id' (.object loc
          [.property spot₀ docs (some key') false (some (.reference spot name' []))]) := by
        rw [DescribedBy, single]
        exact ⟨_, List.mem_cons_self, rfl, _, _, rfl, recognized _ call callee empty, Or.inl rfl⟩
      exact ⟨_, ⟨0, 0⟩, _, _, spot, [], described, ⟨_, .refl, .object List.mem_cons_self⟩, property,
        ⟨spot₀, docs, some key', false, rfl⟩, .refl⟩
  · cases h

/-- The resolved type of a reference to a class that exists where it is used. -/
theorem value_resolveType_of_classDecl {origin script : ModuleId} {spot : Excerpt}
    {name : EntityName} {s : Symbol} {id : Identifier}
    (declared : p.typeDeclared? origin name = some (s, .classDecl id))
    (notErased : (p.referent origin name).2 = false) :
    (p.resolveType origin ⟨origin, script⟩ (.reference spot name [])).value
      = some ⟨[.named name.text true], none⟩ := by
  have tags : (p.tagsOf origin [] ⟨origin, script⟩ (.reference spot name [])).value
      = [.named name.text true] := by
    rw [value_tagsOf_reference, notErased]
    simp [referredTags, declared]
  simp only [resolveType, Noted.bind_value, tags]
  rfl

/-- A name with a referent that is a class is declared as that class. -/
theorem typeDeclared?_of_referent {m : ModuleId} {name : EntityName} {s : Symbol} {id : Identifier}
    {typeOnly : Bool} (found : p.referent m name = (some s, typeOnly))
    (isClass : p.declaration? s = some (.classDecl id)) :
    p.typeDeclared? m name = some (s, .classDecl id) := by
  simp [typeDeclared?, found, isClass]

/-- What a name leads to that is bound to an import. -/
theorem referent_of_aliased? {m : ModuleId} {name : EntityName} {s t : Symbol}
    (bound : p.symbolAt m name = some s) (leads : p.aliased? s = some t) :
    p.referent m name = (some t, p.isTypeOnly s) := by
  obtain ⟨isImport, -⟩ := aliased?_eq_some_iff.1 leads
  obtain ⟨⟨ways, inner⟩, imported⟩ := Option.isSome_iff_exists.mp isImport
  obtain ⟨_, _, _, declared, -⟩ := importOf?_eq_some_iff.1 imported
  rw [referent, bound]
  simp only [declared, leads]

/-- The flag of an import says what its trail is marked with, if following it stays within the
bound. -/
theorem referent_of_walk {m : ModuleId} {name : EntityName} {s : Symbol} {trail : Trail} {n : Nat}
    (bound : p.symbolAt m name = some s) (named : (p.importOf? s).isSome)
    (walk : p.Walk s trail n) (le : n ≤ maxHops) :
    p.referent m name = (some trail.symbol, trail.hops.any Hop.kept) := by
  have aliased := aliased?_eq_some_iff.2 ⟨named, trail, n, walk, rfl, le⟩
  rw [referent_of_aliased? bound aliased, isTypeOnly, marked_of_walk walk le]

/-- A component with a property of an imported class. -/
def plainFiles : Sources := .ofList [
  ("/a.ts", .text
    "import { Model } from './model'\nconst C = defineComponent<{ m: Model }>({})\n"),
  ("/model.ts", .text "export class Model {}\n")]

/-- The constructor in `plainFiles` is that of the imported class. -/
theorem exists_reference_of_constructor_plain :
    ∃ p m c q type, load plainFiles "/a.ts" = .ok p ∧ p.module? 0 = some m ∧
      ("C", c) ∈ (p.componentsOf .standard 0 0 m.items).value ∧
      (q ∈ c.props ∨ q ∈ c.events ∨ q ∈ c.slots) ∧ q.type = some type ∧
      .named "Model" true ∈ type.tags ∧
      ∃ m' name, p.RefersTo .standard 0 0 m.items "C" q m' name ∧
        (p.FromGlobal 0 "Model" m' name ∨
          ∃ before rest, p.FromClass 0 "Model" m' name before rest) := by
  have loads : loadsWith plainFiles "/a.ts" (fun p =>
      (p.module? 0).any (declaresOne ·.items "C" "m" (.plain "Model")) && decide
        (p.symbolAt 0 (.plain "Model") = some ⟨0, "Model"⟩ ∧
          p.importOf? ⟨0, "Model"⟩ = some ([⟨importHop 0 false, 1⟩], "Model") ∧
          p.finding 1 "Model" = .declared (some ⟨1, "Model"⟩) (ownHop 1 false) ∧
          p.importOf? ⟨1, "Model"⟩ = none ∧ p.wholeImport ⟨1, "Model"⟩ = [] ∧
          p.isClass ⟨1, "Model"⟩)) = true := by
    refine loadsWith_of_written (by repeat constructor) ?_
    decide +kernel
  obtain ⟨p, loaded, facts⟩ := exists_of_loadsWith loads
  obtain ⟨declares, facts⟩ := Bool.and_eq_true_iff.mp facts
  obtain ⟨m, first, declares⟩ := (Option.any_eq_true _ _).mp declares
  obtain ⟨bound, imported, model, stops, notWhole, isClass⟩ := of_decide_eq_true facts
  obtain ⟨id, isClass⟩ := isClass_iff.1 isClass
  have walk : p.Walk ⟨0, "Model"⟩ ⟨⟨1, "Model"⟩, [importHop 0 false, ownHop 1 false]⟩ 1 :=
    .of_search imported (.declared model) stops notWhole
  have referent : p.referent 0 (.plain "Model") = (some ⟨1, "Model"⟩, false) :=
    referent_of_walk bound (by rw [imported]; rfl) walk (by decide)
  obtain ⟨spot, q, typed, components, -⟩ := exists_component_of_declaresOne declares p
  have component : ("C", ⟨[q], [], []⟩) ∈ (p.componentsOf .standard 0 0 m.items).value := by
    rw [components]
    exact List.mem_cons_self
  have property : q ∈ [q] ∨ q ∈ ([] : List Property) ∨ q ∈ ([] : List Property) :=
    Or.inl List.mem_cons_self
  rw [value_resolveType_of_classDecl (typeDeclared?_of_referent referent isClass)
    (by rw [referent])] at typed
  have tag : Tag.named "Model" true ∈ [Tag.named "Model" true] := List.mem_cons_self
  exact ⟨p, m, _, q, _, loaded, first, component, property, typed, tag,
    exists_reference_of_constructor component property typed tag⟩

/-- The same with a class that is reached by way of a module imported for types only. -/
def markedFiles : Sources := .ofList [
  ("/a.ts", .text
    "import type * as M from './model'\nconst C = defineComponent<{ m: M.Model }>({})\n"),
  ("/model.ts", .text "export class Model {}\n")]

/-- The way through `markedFiles` is marked, and the tag has a constructor. -/
theorem constructor_of_marked_namespace :
    ∃ p m c q type name, load markedFiles "/a.ts" = .ok p ∧ p.module? 0 = some m ∧
      ("C", c) ∈ (p.componentsOf .standard 0 0 m.items).value ∧ q ∈ c.props ∧
      q.type = some type ∧ .named "M.Model" true ∈ type.tags ∧
      p.RefersTo .standard 0 0 m.items "C" q 0 name ∧ name.text = "M.Model" ∧
      (∃ before rest, p.NameLeads 0 name before rest ∧ importHop 0 true ∈ before) ∧
      ¬ p.ExistsAtRunTime 0 name name := by
  have loads : loadsWith markedFiles "/a.ts" (fun p =>
      (p.module? 0).any (declaresOne ·.items "C" "m" ⟨"M", ["Model"], "M.Model"⟩) &&
        p.isWholeImport ⟨0, "M"⟩ 1 true && decide
          (p.finding 1 "Model" = .declared (some ⟨1, "Model"⟩) (ownHop 1 false) ∧
            p.importOf? ⟨1, "Model"⟩ = none ∧ p.isClass ⟨1, "Model"⟩)) = true := by
    refine loadsWith_of_written (by repeat constructor) ?_
    decide +kernel
  obtain ⟨p, loaded, facts⟩ := exists_of_loadsWith loads
  obtain ⟨declares, facts⟩ := Bool.and_eq_true_iff.mp facts
  obtain ⟨declares, whole⟩ := Bool.and_eq_true_iff.mp declares
  obtain ⟨m, first, declares⟩ := (Option.any_eq_true _ _).mp declares
  obtain ⟨id', whole⟩ := exists_of_isWholeImport whole
  obtain ⟨model, stops, isClass⟩ := of_decide_eq_true facts
  obtain ⟨id, isClass⟩ := isClass_iff.1 isClass
  -- The name leads to the class by the marked import.
  have search : p.Search [⟨importHop 0 true, 1⟩] "Model"
      (some ⟨⟨1, "Model"⟩, [importHop 0 true, ownHop 1 false]⟩) 1 := .declared model
  have leads : p.NameLeads 0 ⟨"M", ["Model"], "M.Model"⟩ [importHop 0 true, ownHop 1 false]
      ⟨⟨1, "Model"⟩, p.wholeImport ⟨1, "Model"⟩⟩ :=
    .member rfl whole (search.reference_eq .nil) (.here stops)
  have bound : p.symbolAt 0 ⟨"M", ["Model"], "M.Model"⟩ = some ⟨1, "Model"⟩ := by
    simp only [symbolAt, whole]
    rw [show maxHops = 31 + 1 from rfl, resolveExport_succ_of_declared model]
    rfl
  have referent : p.referent 0 ⟨"M", ["Model"], "M.Model"⟩ = (some ⟨1, "Model"⟩, false) := by
    simp only [Program.referent, bound, isClass]
  obtain ⟨spot, q, typed, components, refers⟩ := exists_component_of_declaresOne declares p
  rw [value_resolveType_of_classDecl (typeDeclared?_of_referent referent isClass)
    (by rw [referent])] at typed
  refine ⟨p, m, ⟨[q], [], []⟩, q, _, _, loaded, first, ?_, List.mem_cons_self, typed,
    List.mem_cons_self, refers, rfl, ⟨_, _, leads, List.mem_cons_self⟩, ?_⟩
  · rw [components]
    exact List.mem_cons_self
  · rintro (⟨unbound, -⟩ | ⟨before, rest, leads', -, unmarked⟩)
    · simp [lookup, whole] at unbound
    · obtain ⟨rfl, rfl⟩ := leads'.unique leads
      have := (not_marked_after_iff.1 unmarked).1 _ List.mem_cons_self
      simp [importHop] at this

end Program

end TypedProps
