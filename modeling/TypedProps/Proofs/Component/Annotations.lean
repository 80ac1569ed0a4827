import TypedProps.Proofs.Component.Named
import TypedProps.Proofs.Tags.Constructors
import TypedProps.Proofs.Tags.Names

/-!
# `TypedProps.Proofs.Component.Annotations`: what the names in an annotation mean

The annotation of a property, the text that describes its type in full, is put where the patched
module ends. This module compares what the names in it mean there and where they were written.

* `annotation_eq_copied_or_composed`: an annotation is a copy of what a member of the patched module
  says. Or the member stands in another module, and the annotation is composed from tags.
* In a copy a name means the same at both places, unless it is a type parameter of a declaration
  around the member, of a function that has the type for a parameter, or of the member itself.
* In a composed annotation each name is that of arrays, of functions or of a constructor that needs
  no declaration, or it was written in the patched module, which binds it. Nothing is checked about
  the first three: `annotation_of_hidden_names` has a patched module that declares `Date` and a type
  parameter called `Map`.
-/

set_option autoImplicit false

namespace TypedProps

/-- The declared type of a property. -/
def Member.type? : Member → Option Ty
  | .property _ _ _ _ type => type
  | .method .. | .other .. => none

/-- The type parameters of a method. -/
def Member.generics : Member → List String
  | .method _ _ _ _ generics _ _ => generics
  | .property .. | .other .. => []

/-- The type of a member as it is written, for a method in the form of a function type. -/
def Member.written? : Member → Option String
  | .property _ _ _ _ type => type.map Ty.text
  | .method _ _ _ _ _ parameters result => some (signatureText parameters result)
  | .other .. => none

/-- An array of a type that is a single identifier: its text and the identifier. -/
def Ty.arrayOf? : Ty → Option (String × String)
  | .array loc (.reference _ ⟨name, [], text⟩ []) =>
    if text == name then some (loc.text, name) else none
  | _ => none

namespace Program

variable {p : Program} {origin : ModuleId}

/-! ### Type parameters around a member -/

/-- The type parameters that are in scope in a shape, where `outer` are in scope in what expands to
it: a declaration has its own and no others. -/
def Shape.parameters (p : Program) (outer : List String) : Shape → List String
  | .type _ _ => outer
  | .declared t =>
    match p.declaration? t with
    | some (.typeAlias _ generics _) | some (.interfaceDecl _ generics _ _) => generics
    | _ => []

/-- `p.Enclosed outer start shape parameters`: one shape expands to another, in which some type
parameters are in scope. `outer` are those in scope in the first one. -/
inductive Enclosed (p : Program) (outer : List String) (start : Shape) :
    Shape → List String → Prop
  | start : Enclosed p outer start start outer
  | step {a b : Shape} {parameters : List String} (enclosed : Enclosed p outer start a parameters)
      (expands : p.Expands a b) : Enclosed p outer start b (b.parameters p parameters)

/-- A type that is in the scope of module `origin` has a member, which stands in the scope of
another module and of some type parameters. -/
def DeclaredUnder (p : Program) (outer : List String) (origin : ModuleId) (type : Ty)
    (m : ModuleId) (parameters : List String) (member : Member) : Prop :=
  ∃ holder, p.Enclosed outer (.type (.inside origin) type) holder parameters ∧
    p.Has holder (.inside m) member

/-- Whatever a shape expands to is in the scope of some type parameters. -/
theorem exists_enclosed {outer : List String} {start shape : Shape}
    (ways : Relation.ReflTransGen p.Expands start shape) :
    ∃ parameters, p.Enclosed outer start shape parameters := by
  induction ways with
  | refl => exact ⟨outer, .start⟩
  | tail _ expands ih =>
    obtain ⟨parameters, enclosed⟩ := ih
    exact ⟨_, enclosed.step expands⟩

/-- A shape is at home: a type in it is written in the module in whose scope it stands. -/
def Shape.AtHome : Shape → Prop
  | .type place _ => place = .inside place.scope
  | .declared _ => True

/-- What is at home expands to what is at home. -/
theorem Expands.atHome {a b : Shape} (expands : p.Expands a b) (home : a.AtHome) : b.AtHome := by
  cases expands with
  | paren => exact home
  | part mem may => exact home
  | reference bound target => trivial
  | «alias» declared => rfl
  | base declared mem named bound target => trivial

/-- A member of what is at home is written in the module in whose scope it stands. -/
theorem Has.eq_inside {shape : Shape} {place : Place} {member : Member}
    (has : p.Has shape place member) (home : shape.AtHome) : place = .inside place.scope := by
  cases has with
  | object mem => exact home
  | interfaceDecl declared mem => rfl

/-- A member of a type that is written in the module in whose scope it stands has its place in some
module, under some type parameters. -/
theorem exists_declaredUnder {type : Ty} {place : Place} {member : Member}
    (declares : p.Declares (.type (.inside origin) type) place member) (outer : List String) :
    ∃ m parameters, place = .inside m ∧ p.DeclaredUnder outer origin type m parameters member := by
  obtain ⟨holder, ways, has⟩ := declares
  obtain ⟨parameters, enclosed⟩ :
      ∃ parameters, p.Enclosed outer (.type (.inside origin) type) holder parameters :=
    exists_enclosed ways
  have home : holder.AtHome := by
    clear enclosed has
    induction ways with
    | refl => rfl
    | tail _ expands ih => exact expands.atHome ih
  have inside := has.eq_inside home
  rw [inside] at has
  exact ⟨place.scope, parameters, inside, holder, enclosed, has⟩

/-! ### Annotations of members -/

/-- What a resolved type shows is the type as it is written, or the text of its tags. -/
theorem shown_of_resolveType {place : Place} {written : Ty} {type : ResolvedType} {shown : String}
    (resolved : (p.resolveType origin place written).value = some type)
    (annotated : type.shown = some shown) :
    (∀ t ∈ type.tags, t ∈ (p.tagsOf origin [] place written).value) ∧
      shown = if place.scope = origin then written.text else Tag.unionText type.tags := by
  refine ⟨fun t mem => mem_tagsOf_of_mem_resolveType resolved mem, ?_⟩
  obtain ⟨-, -, same⟩ := resolveType_eq_some_iff.1 resolved
  rw [annotated] at same
  split at same
  · -- A type that describes itself shows nothing.
    cases same
  · rw [Option.some.inj same]
    simp only [beq_iff_eq]

/-- What the property of a member shows is the member as it is written, where that is in the scope
of module `origin`. Elsewhere it is the text of tags of its type, or of a function. -/
theorem shown_of_propertyOf {place : Place} {member : Member} {q : Property} {type : ResolvedType}
    {shown : String} (declared : (p.propertyOf origin place member).value = some q)
    (typed : q.type = some type) (annotated : type.shown = some shown) :
    if place.scope = origin then member.written? = some shown
    else shown = Tag.unionText type.tags ∧ ∀ t ∈ type.tags, t = .function ∨
      ∃ written, member.type? = some written ∧ t ∈ (p.tagsOf origin [] place written).value := by
  cases member with
  | other loc docs => cases declared
  | method loc docs name optional generics parameters result =>
    -- A method shows its signature, and has the tag of functions.
    rw [value_propertyOf_method] at declared
    obtain ⟨key, -, rfl⟩ := Option.map_eq_some_iff.mp declared
    obtain rfl := Option.some.inj typed
    obtain rfl := Option.some.inj annotated
    simp only [beq_iff_eq]
    split
    · rfl
    · exact ⟨rfl, fun t mem => Or.inl (List.mem_singleton.mp mem)⟩
  | property loc docs name optional declaredType =>
    rw [value_propertyOf_property] at declared
    obtain ⟨key, -, rfl⟩ := Option.map_eq_some_iff.mp declared
    obtain ⟨written, rfl, resolved⟩ := Option.bind_eq_some_iff.mp typed
    obtain ⟨all, rfl⟩ := shown_of_resolveType resolved annotated
    split
    · rfl
    · exact ⟨rfl, fun t mem => Or.inr ⟨written, rfl, all t mem⟩⟩

/-! ### Arrays of type names -/

/-- The type of an array, if it is no keyword, shows itself, and in another module its tag. -/
theorem resolveType_of_array {place : Place} {written : Ty} {elements : List Tag}
    (tags : (p.tagsOf origin [] place written).value = [.array elements])
    (composed : isSelfDescribing written [.array elements] = false) :
    (p.resolveType origin place written).value = some ⟨[.array elements],
      some (if place.scope == origin then written.text else (Tag.array elements).typeText)⟩ := by
  refine resolveType_eq_some_iff.2 ⟨?_, List.cons_ne_nil _ _, ?_⟩
  · rw [tags]
    rfl
  · rw [composed]
    rfl

/-- A member of module `m` declares a property with a name and an annotation. -/
def Shows (p : Program) (origin m : ModuleId) (member : Member) (key shown : String)
    (q : Property) : Prop :=
  (p.propertyOf origin (.inside m) member).value = some q ∧ q.name = key ∧
    ∃ tags, q.type = some ⟨tags, some shown⟩

/-- What a property shows that is declared with the type of an array. -/
theorem exists_shows_of_tags {m : ModuleId} {loc : Excerpt} {docs : List String} {key : String}
    {written : Ty} {elements : List Tag} (named : key.isEmpty = false)
    (tags : (p.tagsOf origin [] (.inside m) written).value = [.array elements])
    (composed : isSelfDescribing written [.array elements] = false) :
    ∃ q, p.Shows origin m (.property loc docs (some key) false (some written)) key
      (if m == origin then written.text else (Tag.array elements).typeText) q := by
  have usable : usableName? (some key) = some key := by simp [usableName?, named]
  have resolved := resolveType_of_array tags composed
  simp only [Shows, propertyOf, usable, Noted.bind_value, resolved]
  exact ⟨_, rfl, rfl, _, rfl⟩

/-- The tag of an array of a type name is one array, which has the tag of the name. -/
theorem tagsOf_of_arrayOf? {written : Ty} {text n : String} {t : Tag} {place : Place}
    {entered : List Symbol} (array : written.arrayOf? = some (text, n))
    (element : ∀ loc, (p.tagsOf origin entered place (.reference loc (.plain n) [])).value
      = [t]) :
    (p.tagsOf origin entered place written).value = [.array [t]] ∧
      isSelfDescribing written [.array [t]] = false ∧ written.text = text := by
  unfold Ty.arrayOf? at array
  split at array
  · rename_i loc spot name text'
    split at array
    · rename_i same
      obtain rfl := eq_of_beq same
      obtain ⟨rfl, rfl⟩ := Prod.mk.inj (Option.some.inj array)
      refine ⟨?_, rfl, rfl⟩
      rw [tagsOf.eq_def]
      exact congrArg (fun tags => [Tag.array tags]) (element spot)
    · cases array
  · cases array

/-- The tag of a name under which a module binds nothing. -/
theorem tagsOf_of_unbound {place : Place} {n : String} (unbound : p.lookup place.scope n = none)
    (notArray : (EntityName.plain n).isGlobalArray = false) (loc : Excerpt)
    (entered : List Symbol) :
    (p.tagsOf origin entered place (.reference loc (.plain n) [])).value
      = [(EntityName.plain n).globalTag] := by
  have nothing : p.symbolAt place.scope (.plain n) = none := unbound
  exact value_tagsOf_of_unbound nothing notArray loc []

/-- The tag of a class of module `origin`. -/
theorem tagsOf_of_isClass {n : String} (isClass : p.isClass ⟨origin, n⟩ = true) (loc : Excerpt)
    (entered : List Symbol) :
    (p.tagsOf origin entered (.inside origin) (.reference loc (.plain n) [])).value
      = [.named n true] := by
  obtain ⟨id, isClass⟩ := isClass_iff.1 isClass
  have bound : p.symbolAt origin (.plain n) = some ⟨origin, n⟩ := by
    simp [symbolAt, EntityName.plain, lookup, isClass]
  have referent : p.referent origin (.plain n) = (some ⟨origin, n⟩, false) := by
    simp [Program.referent, bound, isClass]
  have kept : (p.referent (Place.inside origin).scope (.plain n)).2 = false := by
    rw [show (Place.inside origin).scope = origin from rfl, referent]
  have declared : p.typeDeclared? (Place.inside origin).scope (.plain n)
      = some (⟨origin, n⟩, .classDecl id) := typeDeclared?_of_referent referent isClass
  rw [value_tagsOf_reference, kept, if_neg Bool.false_ne_true, referredTags, declared]
  simp [Place.inside, EntityName.plain]

/-- What a declared array of a plain type name shows. -/
theorem exists_shows_of_arrayOf? {m : ModuleId} {loc : Excerpt} {docs : List String} {key : String}
    {written : Ty} {text n : String} {t : Tag} (named : key.isEmpty = false)
    (array : written.arrayOf? = some (text, n))
    (element : ∀ loc, (p.tagsOf origin [] (.inside m) (.reference loc (.plain n) [])).value = [t]) :
    ∃ q, p.Shows origin m (.property loc docs (some key) false (some written)) key
      (if m == origin then text else (Tag.array [t]).typeText) q := by
  obtain ⟨tags, composed, rfl⟩ := tagsOf_of_arrayOf? array element
  exact exists_shows_of_tags named tags composed

/-! ### A component with names that are hidden -/

/-- A component and its props, some of them declared in another module. Both interfaces have type
parameters, and one of them is called like a global, `Map`. The module of the component declares a
class that is called like another global, `Date`. -/
def hiddenFiles : Sources := .ofList [
  ("/a.ts", .text (
    "import type { Far } from './b'\n" ++
    "export class Model {}\n" ++
    "export type Models = Model[]\n" ++
    "class Date {}\n" ++
    "interface Near<T = string> extends Far { items: T[]; pick<K>(key: K): K }\n" ++
    "const C = defineComponent<Near>({})\n")),
  ("/b.ts", .text (
    "import type { Models } from './a'\n" ++
    "export interface Far<Map = string> { models: Models; dates: Date[]; seen: Map[] }\n"))]

/-- The declaration of `Near` in `hiddenFiles`. -/
def isNear : Option Declaration → Bool
  | some (.interfaceDecl _ ["T"] [⟨_, some "Far"⟩]
      [.property _ _ (some "items") false (some items),
        .method _ _ (some "pick") false ["K"] parameters result]) =>
    items.arrayOf? == some ("T[]", "T") && signatureText parameters result == "(key: K) => K"
  | _ => false

/-- The declaration of `Far` in `hiddenFiles`. -/
def isFar : Option Declaration → Bool
  | some (.interfaceDecl _ ["Map"] []
      [.property _ _ (some "models") false (some (.reference _ ⟨"Models", [], "Models"⟩ [])),
        .property _ _ (some "dates") false (some dates),
        .property _ _ (some "seen") false (some seen)]) =>
    dates.arrayOf? == some ("Date[]", "Date") && seen.arrayOf? == some ("Map[]", "Map")
  | _ => false

/-- The declaration of `Models` in `hiddenFiles`. -/
def isModels : Option Declaration → Bool
  | some (.typeAlias _ [] body) => body.arrayOf? == some ("Model[]", "Model")
  | _ => false

/-- What the programs of `hiddenFiles` are used for: the declarations, where the imports lead, and
which names are bound. -/
structure Hidden (p : Program) : Prop where
  near : isNear (p.declaration? ⟨0, "Near"⟩) = true
  far : isFar (p.declaration? ⟨1, "Far"⟩) = true
  models : isModels (p.declaration? ⟨0, "Models"⟩) = true
  isClass : p.isClass ⟨0, "Model"⟩ = true
  boundFar : p.lookup 0 "Far" = some ⟨0, "Far"⟩
  behindFar : p.behindImports? ⟨0, "Far"⟩ = some ⟨1, "Far"⟩
  referent : p.referent 1 (.plain "Models") = (some ⟨0, "Models"⟩, true)
  unboundT : p.lookup 0 "T" = none
  unboundK : p.lookup 0 "K" = none
  unboundDate : p.lookup 1 "Date" = none
  boundDate : p.lookup 0 "Date" = some ⟨0, "Date"⟩
  unboundMap : p.lookup 1 "Map" = none
  ambientMap : p.lookup 0 "Map" = none

/-- A module binds the name of an import. -/
theorem lookup_of_importOf? {s : Symbol} {ways : List Way} {inner : String}
    (imported : p.importOf? s = some (ways, inner)) : p.lookup s.module s.name = some s := by
  obtain ⟨_, _, _, declared, -⟩ := importOf?_eq_some_iff.1 imported
  exact Option.map_eq_some_iff.mpr ⟨_, declared, rfl⟩

/-- `hiddenFiles` are loaded as such a program, whose only component is made from `Near`. -/
theorem exists_hidden : ∃ p m loc, load hiddenFiles "/a.ts" = .ok p ∧ p.module? 0 = some m ∧
    namedComponent? m.items = some ("C", loc, .plain "Near") ∧ p.Hidden := by
  have loads : loadsWith hiddenFiles "/a.ts" (fun p =>
      (p.module? 0).any (fun m => (namedComponent? m.items).any
        (fun c => c.1 == "C" && c.2.2 == .plain "Near")) &&
      isNear (p.declaration? ⟨0, "Near"⟩) && isFar (p.declaration? ⟨1, "Far"⟩) &&
      isModels (p.declaration? ⟨0, "Models"⟩) && decide
        (p.importOf? ⟨0, "Far"⟩ = some ([⟨importHop 0 true, 1⟩], "Far") ∧
          p.finding 1 "Far" = .declared (some ⟨1, "Far"⟩) (ownHop 1 false) ∧
          p.importOf? ⟨1, "Far"⟩ = none ∧ p.wholeImport ⟨1, "Far"⟩ = [] ∧
          p.importOf? ⟨1, "Models"⟩ = some ([⟨importHop 1 true, 0⟩], "Models") ∧
          p.finding 0 "Models" = .declared (some ⟨0, "Models"⟩) (ownHop 0 false) ∧
          p.importOf? ⟨0, "Models"⟩ = none ∧ p.wholeImport ⟨0, "Models"⟩ = [] ∧
          p.isClass ⟨0, "Model"⟩ ∧ p.lookup 0 "T" = none ∧ p.lookup 0 "K" = none ∧
          p.lookup 1 "Date" = none ∧ p.lookup 0 "Date" = some ⟨0, "Date"⟩ ∧
          p.lookup 1 "Map" = none ∧ p.lookup 0 "Map" = none)) = true := by
    refine loadsWith_of_written (by repeat constructor) ?_
    decide +kernel
  obtain ⟨p, loaded, facts⟩ := exists_of_loadsWith loads
  simp only [Bool.and_eq_true] at facts
  obtain ⟨⟨⟨⟨declares, near⟩, far⟩, models⟩, facts⟩ := facts
  obtain ⟨m, first, declares⟩ := (Option.any_eq_true _ _).mp declares
  obtain ⟨⟨bound, loc, name⟩, declares, named⟩ := (Option.any_eq_true _ _).mp declares
  simp only [Bool.and_eq_true, beq_iff_eq] at named
  obtain ⟨rfl, rfl⟩ := named
  obtain ⟨importedFar, foundFar, stopsFar, notWholeFar, importedModels, foundModels, stopsModels,
    notWholeModels, isClass, names⟩ := of_decide_eq_true facts
  obtain ⟨unboundT, unboundK, unboundDate, boundDate, unboundMap, ambientMap⟩ := names
  -- The import of `Models` is type-only and leads to the alias in the first module.
  have walk : p.Walk ⟨1, "Models"⟩ ⟨⟨0, "Models"⟩, [importHop 1 true, ownHop 0 false]⟩ 1 :=
    .of_search importedModels (.declared foundModels) stopsModels notWholeModels
  have bound : p.symbolAt 1 (.plain "Models") = some ⟨1, "Models"⟩ :=
    lookup_of_importOf? importedModels
  have referent : p.referent 1 (.plain "Models") = (some ⟨0, "Models"⟩, true) :=
    referent_of_walk bound (by rw [importedModels]; rfl) walk (by decide)
  exact ⟨p, m, loc, loaded, first, declares,
    { near, far, models, isClass, boundFar := lookup_of_importOf? importedFar,
      behindFar := behindImports?_of_declared importedFar foundFar stopsFar notWholeFar, referent,
      unboundT, unboundK, unboundDate, boundDate, unboundMap, ambientMap }⟩

/-- The members of `Near` in `hiddenFiles`. -/
theorem Hidden.exists_shows_near (hidden : p.Hidden) :
    ∃ id base items pick a b, p.declaration? ⟨0, "Near"⟩
        = some (.interfaceDecl id ["T"] [⟨base, some "Far"⟩] [items, pick]) ∧
      items.generics = [] ∧ pick.generics = ["K"] ∧
      p.Shows 0 0 items "items" "T[]" a ∧ p.Shows 0 0 pick "pick" "(key: K) => K" b := by
  have near := hidden.near
  unfold isNear at near
  split at near
  · rename_i id base loc docs items loc' docs' parameters result declared
    simp only [Bool.and_eq_true, beq_iff_eq] at near
    obtain ⟨array, signature⟩ := near
    obtain ⟨a, shows⟩ : ∃ a, p.Shows 0 0 (.property loc docs (some "items") false (some items))
        "items" "T[]" a :=
      exists_shows_of_arrayOf? rfl array fun _ => tagsOf_of_unbound hidden.unboundT rfl _ _
    refine ⟨id, base, _, _, a, _, declared, rfl, rfl, shows, rfl, rfl, [.function], ?_⟩
    show some (ResolvedType.mk [.function] (some (signatureText parameters result))) = _
    rw [signature]
  · cases near

/-- The members of `Far` in `hiddenFiles`. -/
theorem Hidden.exists_shows_far (hidden : p.Hidden) :
    ∃ id models dates seen a b c,
      p.declaration? ⟨1, "Far"⟩ = some (.interfaceDecl id ["Map"] [] [models, dates, seen]) ∧
      models.generics = [] ∧ dates.generics = [] ∧ seen.generics = [] ∧
      p.Shows 0 1 models "models" "Array<Model>" a ∧ p.Shows 0 1 dates "dates" "Array<Date>" b ∧
      p.Shows 0 1 seen "seen" "Array<Map>" c := by
  have models := hidden.models
  unfold isModels at models
  split at models
  · rename_i aliasId body declaredModels
    have array : body.arrayOf? = some ("Model[]", "Model") := eq_of_beq models
    have far := hidden.far
    unfold isFar at far
    split at far
    · rename_i id loc docs spot loc₁ docs₁ dates loc₂ docs₂ seen declared
      simp only [Bool.and_eq_true, beq_iff_eq] at far
      obtain ⟨datesArray, seenArray⟩ := far
      -- `Models` is an alias of the other module for an array of the class, whose constructor the
      -- type-only import takes away.
      have inBody : (p.tagsOf 0 [⟨0, "Models"⟩] (.inside 0) body).value
          = [.array [.named "Model" true]] :=
        (tagsOf_of_arrayOf? array fun _ => tagsOf_of_isClass hidden.isClass _ _).1
      have inModels : (p.tagsOf 0 [] (.inside 1) (.reference spot (.plain "Models") [])).value
          = [.array [.named "Model" true]] := by
        have declaredBody : p.typeDeclared? (Place.inside 1).scope (.plain "Models")
            = some (⟨0, "Models"⟩, .typeAlias aliasId [] body) := by
          simp [typeDeclared?, Place.inside, hidden.referent, declaredModels]
        rw [value_tagsOf_reference, referredTags, declaredBody]
        dsimp only
        rw [if_neg List.not_mem_nil, inBody]
        simp [Tag.erased]
      obtain ⟨a, showsModels⟩ : ∃ a, p.Shows 0 1
          (.property loc docs (some "models") false (some (.reference spot (.plain "Models") [])))
          "models" "Array<Model>" a :=
        exists_shows_of_tags rfl inModels rfl
      obtain ⟨b, showsDates⟩ : ∃ b, p.Shows 0 1
          (.property loc₁ docs₁ (some "dates") false (some dates)) "dates" "Array<Date>" b :=
        exists_shows_of_arrayOf? rfl datesArray fun _ =>
          tagsOf_of_unbound hidden.unboundDate rfl _ _
      obtain ⟨c, showsSeen⟩ : ∃ c, p.Shows 0 1
          (.property loc₂ docs₂ (some "seen") false (some seen)) "seen" "Array<Map>" c :=
        exists_shows_of_arrayOf? rfl seenArray fun _ =>
          tagsOf_of_unbound hidden.unboundMap rfl _ _
      exact ⟨id, _, _, _, a, b, c, declared, rfl, rfl, rfl, showsModels, showsDates, showsSeen⟩
    · cases far
  · cases models

/-- A component has a prop with an annotation, which a member of module `m` declares where some type
parameters are in scope. -/
def PropShows (p : Program) (origin : ModuleId) (described : Ty) (c : Component) (m : ModuleId)
    (parameters : List String) (shown : String) : Prop :=
  ∃ q ∈ c.props, ∃ around member tags, p.DeclaredUnder [] origin described m around member ∧
    parameters = around ++ member.generics ∧
    (p.propertyOf origin (.inside m) member).value = some q ∧ q.type = some ⟨tags, some shown⟩

/-- The one type that describes a component made from a type name. -/
theorem describedBy_of_namedComponent? {items : List Item} {bound : String} {loc : Excerpt}
    {name : EntityName} (declares : namedComponent? items = some (bound, loc, name))
    (script : ModuleId) :
    DescribedBy .standard script items bound (.reference loc name []) := by
  unfold namedComponent? at declares
  split at declares
  · rename_i single
    cases declares
    rw [DescribedBy, single]
    exact ⟨_, List.mem_cons_self, rfl, _, _, rfl, rfl, Or.inl rfl⟩
  · cases declares

/-- A member of an interface that a type name leads to gives the component a prop. -/
theorem propShows_of_shows {described : Ty} {c : Component} {t : Symbol} {id : Identifier}
    {generics : List String} {bases : List Base} {members : List Member} {member : Member}
    {key shown : String} {q : Property}
    (enclosed : p.Enclosed [] (.type (.inside origin) described) (.declared t) generics)
    (declared : p.declaration? t = some (.interfaceDecl id generics bases members))
    (mem : member ∈ members) (shows : p.Shows origin t.module member key shown q)
    (among : q ∈ c.props) :
    p.PropShows origin described c t.module (generics ++ member.generics) shown := by
  obtain ⟨property, -, tags, typed⟩ := shows
  exact ⟨q, among, generics, member, tags, ⟨_, enclosed, .interfaceDecl declared mem⟩, rfl,
    property, typed⟩

/-- The annotations in `hiddenFiles`. -/
theorem Hidden.exists_annotations (hidden : p.Hidden) (loc : Excerpt) :
    ∃ properties,
      Property.firsts (p.expand 0 [] ⟨0, 0⟩ (.reference loc (.plain "Near") [])).value
        = properties ∧
      let has := p.PropShows 0 (.reference loc (.plain "Near") []) ⟨properties, [], []⟩
      has 0 ["T"] "T[]" ∧ has 0 ["T", "K"] "(key: K) => K" ∧ has 1 ["Map"] "Array<Model>" ∧
        has 1 ["Map"] "Array<Date>" ∧ has 1 ["Map"] "Array<Map>" := by
  obtain ⟨nearId, base, items, pick, a, b, declaredNear, plainItems, genericPick, showsItems,
    showsPick⟩ := hidden.exists_shows_near
  obtain ⟨farId, models, dates, seen, d, e, f, declaredFar, plainModels, plainDates, plainSeen,
    showsModels, showsDates, showsSeen⟩ := hidden.exists_shows_far
  have boundNear : p.symbolAt 0 (.plain "Near") = some ⟨0, "Near"⟩ := by
    simp [symbolAt, EntityName.plain, lookup, declaredNear]
  have behindNear : p.behindImports? ⟨0, "Near"⟩ = some ⟨0, "Near"⟩ := by
    simp [behindImports?, declaredNear]
  -- The members of the type name are those of `Near`, followed by those of its base.
  have own : (p.propertiesOfMembers 0 (.inside 0) [items, pick]).value = [a, b] := by
    simp [value_propertiesOfMembers, showsItems.1, showsPick.1]
  have inherited : (p.propertiesOfMembers 0 (.inside 1) [models, dates, seen]).value
      = [d, e, f] := by
    simp [value_propertiesOfMembers, showsModels.1, showsDates.1, showsSeen.1]
  have ofFar : (p.expandSymbol 0 [⟨0, "Near"⟩] ⟨0, "Far"⟩ 0 base).value = [d, e, f] := by
    rw [value_expandSymbol, hidden.behindFar]
    dsimp only
    rw [if_neg (by decide), declaredFar]
    dsimp only
    rw [inherited, expandBases_nil]
    rfl
  have ofBase : (p.expandBases 0 [⟨0, "Near"⟩] 0 [⟨base, some "Far"⟩]).value = [d, e, f] := by
    simp [value_expandBases, hidden.boundFar, ofFar]
  have members : (p.expand 0 [] ⟨0, 0⟩ (.reference loc (.plain "Near") [])).value
      = [a, b, d, e, f] := by
    rw [expand_of_interface boundNear behindNear declaredNear List.not_mem_nil]
    simp [own, ofBase]
  have distinct : Property.firsts [a, b, d, e, f] = [a, b, d, e, f] := by
    apply Property.firsts_eq_self
    simp [showsItems.2.1, showsPick.2.1, showsModels.2.1, showsDates.2.1, showsSeen.2.1]
  -- The way to a member goes through `Near` and, for the last three, through `Far`.
  have inNear : p.Enclosed [] (.type (.inside 0) (.reference loc (.plain "Near") []))
      (.declared ⟨0, "Near"⟩) ["T"] := by
    have expands : p.Expands (.type (.inside 0) (.reference loc (.plain "Near") []))
        (.declared ⟨0, "Near"⟩) := .reference boundNear behindNear
    have begins : p.Enclosed [] (.type (.inside 0) (.reference loc (.plain "Near") []))
        (.type (.inside 0) (.reference loc (.plain "Near") [])) [] := .start
    simpa [Shape.parameters, declaredNear] using begins.step expands
  have inFar : p.Enclosed [] (.type (.inside 0) (.reference loc (.plain "Near") []))
      (.declared ⟨1, "Far"⟩) ["Map"] := by
    have expands : p.Expands (.declared ⟨0, "Near"⟩) (.declared ⟨1, "Far"⟩) :=
      .base declaredNear List.mem_cons_self rfl hidden.boundFar hidden.behindFar
    simpa [Shape.parameters, declaredFar] using inNear.step expands
  refine ⟨[a, b, d, e, f], by rw [members, distinct], ?_, ?_, ?_, ?_, ?_⟩
  · simpa [plainItems] using
      propShows_of_shows inNear declaredNear (by simp) showsItems (by simp)
  · simpa [genericPick] using
      propShows_of_shows inNear declaredNear (by simp) showsPick (by simp)
  · simpa [plainModels] using
      propShows_of_shows inFar declaredFar (by simp) showsModels (by simp)
  · simpa [plainDates] using
      propShows_of_shows inFar declaredFar (by simp) showsDates (by simp)
  · simpa [plainSeen] using
      propShows_of_shows inFar declaredFar (by simp) showsSeen (by simp)

/-- `hiddenFiles` declare one component with these annotations. -/
theorem exists_component_of_hiddenFiles :
    ∃ p m c described, load hiddenFiles "/a.ts" = .ok p ∧ p.module? 0 = some m ∧
      ("C", c) ∈ (p.componentsOf .standard 0 0 m.items).value ∧
      DescribedBy .standard 0 m.items "C" described ∧ p.Hidden ∧
      let has := p.PropShows 0 described c
      has 0 ["T"] "T[]" ∧ has 0 ["T", "K"] "(key: K) => K" ∧ has 1 ["Map"] "Array<Model>" ∧
        has 1 ["Map"] "Array<Date>" ∧ has 1 ["Map"] "Array<Map>" := by
  obtain ⟨p, m, loc, loaded, first, declares, hidden⟩ := exists_hidden
  obtain ⟨properties, members, annotations⟩ := hidden.exists_annotations loc
  refine ⟨p, m, _, _, loaded, first, ?_, describedBy_of_namedComponent? declares 0, hidden,
    annotations⟩
  rw [componentsOf_of_namedComponent? declares, Noted.map_value, members]
  exact List.mem_singleton.mpr rfl

/-! ### Annotations of components -/

/-- An annotation is a copy of what a member of module `origin` says. A name means the same at the
top level of the module, unless it is a type parameter where the member stands or of the member. -/
structure Copied (p : Program) (origin m : ModuleId) (parameters : List String) (member : Member)
    (shown : String) : Prop where
  same : m = origin
  text : member.written? = some shown
  meaning_iff : ∀ n, p.meaning m (parameters ++ member.generics) n = p.meaning origin [] n ↔
    n ∉ parameters ++ member.generics

/-- The annotation of a member of another module is composed from tags. Each name in it is that of
arrays or of functions, or was written as a reference. The first identifier of the reference means
the same there and at the top level of module `origin`, unless it is a type parameter there, or the
two are different modules and one of them binds it. -/
structure Composed (p : Program) (origin m : ModuleId) (parameters : List String)
    (member : Member) (tags : List Tag) (shown : String) : Prop where
  different : m ≠ origin
  text : shown = Piece.textAll (Tag.unionPieces tags)
  names : ∀ n, .name n ∈ Tag.unionPieces tags → n = "Array" ∨ n = "Function" ∨
    ∃ type source loc name arguments, member.type? = some type ∧
      Relation.ReflTransGen p.Draws ⟨m, parameters, type⟩ source ∧
      source.type = .reference loc name arguments ∧ p.Spells origin source name n ∧
      (p.meaning source.scope source.parameters name.first = p.meaning origin [] name.first ↔
        name.first ∉ source.parameters ∧ (source.scope = origin ∨
          p.lookup source.scope name.first = none ∧ p.lookup origin name.first = none))

/-- The annotation of a property of a component is a copy or composed, whatever type parameters
`outer` the functions have that declare the types of the component. -/
theorem annotation_eq_copied_or_composed {options : Options} {items : List Item} {name : String}
    {c : Component} {q : Property} {type : ResolvedType} {shown : String}
    (component : (name, c) ∈ (p.componentsOf options origin origin items).value)
    (property : q ∈ c.props ∨ q ∈ c.events ∨ q ∈ c.slots) (typed : q.type = some type)
    (annotated : type.shown = some shown) (outer : List String) :
    ∃ described m parameters member, DescribedBy options origin items name described ∧
      p.DeclaredUnder outer origin described m parameters member ∧
      (p.propertyOf origin (.inside m) member).value = some q ∧
      (p.Copied origin m parameters member shown ∨
        p.Composed origin m parameters member type.tags shown) := by
  -- From the property back to its member, and from the member to what the property shows.
  obtain ⟨described, describedBy, mem⟩ := exists_describedBy_of_mem_componentsOf component property
  obtain ⟨place, member, declares, declared⟩ := exists_member_of_mem_propertiesOf mem
  obtain ⟨m, parameters, rfl, under⟩ := exists_declaredUnder declares outer
  refine ⟨described, m, parameters, member, describedBy, under, declared, ?_⟩
  have text := shown_of_propertyOf declared typed annotated
  split at text
  · rename_i same
    have inOrigin : m = origin := same
    refine Or.inl ⟨inOrigin, text, fun n => ?_⟩
    rw [meaning_eq_iff]
    exact and_iff_left (Or.inl inOrigin)
  · rename_i different
    obtain ⟨text, all⟩ := text
    refine Or.inr ⟨different, text.trans (Tag.textAll_unionPieces _).symm, fun n named => ?_⟩
    obtain ⟨t, among, named⟩ := Tag.exists_of_name_mem_unionPieces named
    rcases all t among with rfl | ⟨written, hasType, mem⟩
    · exact Or.inr (Or.inl (by simpa [Tag.pieces] using named))
    · rcases traced_of_mem_tagsOf mem named parameters with
        isArray | isFunction | ⟨source, loc, name, arguments, ways, reference, spells⟩
      · exact Or.inl isArray
      · exact Or.inr (Or.inl isFunction)
      · exact Or.inr (Or.inr ⟨written, source, loc, name, arguments, hasType, ways, reference,
          spells, meaning_eq_iff⟩)

/-- The theorem at a prop of the component of `hiddenFiles` that is declared in the other module and
composed from a tag with a class of the patched module. -/
theorem annotation_eq_copied_or_composed_class :
    ∃ p m c q type, load hiddenFiles "/a.ts" = .ok p ∧ p.module? 0 = some m ∧
      ("C", c) ∈ (p.componentsOf .standard 0 0 m.items).value ∧
      (q ∈ c.props ∨ q ∈ c.events ∨ q ∈ c.slots) ∧ q.type = some type ∧
      type.shown = some "Array<Model>" ∧
      ∃ described m' parameters member, DescribedBy .standard 0 m.items "C" described ∧
        p.DeclaredUnder [] 0 described m' parameters member ∧
        (p.propertyOf 0 (.inside m') member).value = some q ∧
        (p.Copied 0 m' parameters member "Array<Model>" ∨
          p.Composed 0 m' parameters member type.tags "Array<Model>") := by
  obtain ⟨p, m, c, described, loaded, first, component, -, -, -, -, models, -, -⟩ :=
    exists_component_of_hiddenFiles
  obtain ⟨q, mem, -, -, tags, -, -, -, typed⟩ := models
  exact ⟨p, m, c, q, _, loaded, first, component, Or.inl mem, typed, rfl,
    annotation_eq_copied_or_composed component (Or.inl mem) typed rfl []⟩

/-- In `hiddenFiles` four annotations have a name with another meaning where they are put than where
it comes from: a type parameter of an interface and one of a method that are copied, a global that
the patched module declares itself, and a type parameter that is taken for a global. -/
theorem annotation_of_hidden_names :
    ∃ p m c described, load hiddenFiles "/a.ts" = .ok p ∧ p.module? 0 = some m ∧
      ("C", c) ∈ (p.componentsOf .standard 0 0 m.items).value ∧
      DescribedBy .standard 0 m.items "C" described ∧
      (p.PropShows 0 described c 0 ["T"] "T[]" ∧
        p.meaning 0 ["T"] "T" = .parameter ∧ p.meaning 0 [] "T" = .ambient) ∧
      (p.PropShows 0 described c 0 ["T", "K"] "(key: K) => K" ∧
        p.meaning 0 ["T", "K"] "K" = .parameter ∧ p.meaning 0 [] "K" = .ambient) ∧
      (p.PropShows 0 described c 1 ["Map"] "Array<Date>" ∧
        p.meaning 1 ["Map"] "Date" = .ambient ∧ p.meaning 0 [] "Date" = .bound ⟨0, "Date"⟩) ∧
      (p.PropShows 0 described c 1 ["Map"] "Array<Map>" ∧
        p.meaning 1 ["Map"] "Map" = .parameter ∧ p.meaning 0 [] "Map" = .ambient) := by
  obtain ⟨p, m, c, described, loaded, first, component, describedBy, hidden, items, pick, -, dates,
    seen⟩ := exists_component_of_hiddenFiles
  refine ⟨p, m, c, described, loaded, first, component, describedBy, ⟨items, ?_, ?_⟩,
    ⟨pick, ?_, ?_⟩, ⟨dates, ?_, ?_⟩, ⟨seen, ?_, ?_⟩⟩
  · rfl
  · simp [meaning, hidden.unboundT]
  · rfl
  · simp [meaning, hidden.unboundK]
  · simp [meaning, hidden.unboundDate]
  · simp [meaning, hidden.boundDate]
  · rfl
  · simp [meaning, hidden.ambientMap]

end Program

end TypedProps
