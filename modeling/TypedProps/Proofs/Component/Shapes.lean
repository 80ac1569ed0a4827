import TypedProps.Proofs.Component.Relocation
import TypedProps.Proofs.Program.Outline

/-!
# `TypedProps.Proofs.Component.Shapes`: the shapes in which one component can be declared

A component is a call of a factory, alone or with a function or an object as its first argument, or
a function under the type of a functional component (`Shape`), and nothing else is one
(`Recognized.exists_shape_of_ofVariable`). Each shape gives a list of type arguments, a list of
parameters and an object that lists names by hand, and each may be empty. These three decide
everything (`Program.lookup_componentsOf`): the types of props, events and slots are the type
arguments, or those of the parameters where an argument is missing, one independently of the other,
and a component is recorded exactly if its props have a type.

The same types give the same component, in whatever shape and wherever they are written
(`Program.shapes_converge`). The programs in which two such declarations stand may differ in all
that does not concern types, so they are compared by their outlines.
-/

set_option autoImplicit false

namespace TypedProps

/-! ### Objects with component options -/

/-- The parameters of the function under the key `setup`, if a property is one. -/
def ObjectProperty.setup? : ObjectProperty → Option (List Pattern)
  | .method _ (some "setup") parameters => some parameters
  | .keyValue _ (some "setup") value =>
    match value.unparenthesized with
    | .callback _ parameters => some parameters
    | _ => none
  | _ => none

/-- The parameters of the last `setup` function of an object; none without such a function. -/
def setupParameters (properties : List ObjectProperty) : List Pattern :=
  ((properties.filterMap ObjectProperty.setup?).getLast?).getD []

/-- The names that a value lists: the keys of an object, or the strings of a list. -/
def listedNames (value : Expr) : List String :=
  match value.unparenthesized with
  | .object _ properties => properties.filterMap Descriptor.key?
  | .array _ elements => elements.filterMap fun
    | .plain (.string _ name) => some name
    | _ => none
  | _ => []

/-- The names that a property lists if it has one of some keys. -/
def ObjectProperty.namesUnder (keys : List String) : ObjectProperty → List String
  | .keyValue _ (some key) value => if key ∈ keys then listedNames value else []
  | _ => []

/-- The names that an object lists by hand under some keys. -/
def byHand (keys : List String) (properties : List ObjectProperty) : List String :=
  properties.flatMap (ObjectProperty.namesUnder keys)

/-- Under fewer keys there are no names that are not there under all of them. -/
theorem byHand_eq_nil {keys all : List String} (subset : keys ⊆ all)
    {properties : List ObjectProperty} (nothing : byHand all properties = []) :
    byHand keys properties = [] := by
  unfold byHand at nothing ⊢
  rw [List.flatMap_eq_nil_iff] at nothing ⊢
  intro property mem
  have nothing := nothing property mem
  unfold ObjectProperty.namesUnder at nothing ⊢
  split
  · rename_i key value
    dsimp only at nothing
    split
    · rename_i known
      rwa [if_pos (subset known)] at nothing
    · rfl
  · rfl

namespace Descriptor

theorem value_keysOf (m : ModuleId) (properties : List ObjectProperty) :
    (keysOf m properties).value = properties.filterMap key? := by
  induction properties with
  | nil => rfl
  | cons property rest ih =>
    rw [keysOf.eq_def, List.filterMap_cons, ← ih]
    cases property with
    | spread dots => rfl
    | keyValue loc key _ | method loc key _ | bare loc key => cases key <;> rfl

theorem value_namesOf (m : ModuleId) (elements : List Argument) :
    (namesOf m elements).value = elements.filterMap fun
      | .plain (.string _ name) => some name
      | _ => none := by
  induction elements with
  | nil => rfl
  | cons element rest ih =>
    rw [namesOf.eq_def, List.filterMap_cons, ← ih]
    cases element with
    | spread value => rfl
    | plain value => cases value <;> rfl

theorem value_exclusions (m : ModuleId) (value : Expr) :
    (exclusions m value).value = listedNames value := by
  unfold exclusions listedNames
  cases value.unparenthesized with
  | object loc properties => exact value_keysOf m properties
  | array loc elements => exact value_namesOf m elements
  | _ => rfl

/-- What one property adds to what an object says. -/
theorem value_add (m : ModuleId) (d : Descriptor) (property : ObjectProperty) :
    (add m d property).value
      = ⟨(property.setup?.map TypeSources.ofParameters).or d.setup,
          d.excludedProps ++ property.namesUnder ["props"],
          d.excludedEvents ++ property.namesUnder ["events", "emits"]⟩ := by
  -- A case for each key that says something; those for lists of names are alike.
  unfold add
  split
  · simp [ObjectProperty.setup?, ObjectProperty.namesUnder]
  · rename_i value
    simp only [ObjectProperty.setup?, ObjectProperty.namesUnder]
    cases value.unparenthesized <;> simp
  · simp [ObjectProperty.setup?, ObjectProperty.namesUnder, value_exclusions]
  · simp [ObjectProperty.setup?, ObjectProperty.namesUnder, value_exclusions]
  · simp [ObjectProperty.setup?, ObjectProperty.namesUnder, value_exclusions]
  · -- A property under another key says nothing.
    rename_i notMethod notSetup notProps notEvents notEmits
    have setup : property.setup? = none := by
      unfold ObjectProperty.setup?
      split
      · exact absurd rfl (notMethod _ _)
      · exact absurd rfl (notSetup _ _)
      · rfl
    have names (keys : List String) (subset : keys ⊆ ["props", "events", "emits"]) :
        property.namesUnder keys = [] := by
      unfold ObjectProperty.namesUnder
      split
      · rename_i loc key value
        rw [if_neg]
        intro mem
        have known := subset mem
        simp only [List.mem_cons, List.not_mem_nil, or_false] at known
        rcases known with rfl | rfl | rfl
        · exact notProps _ _ rfl
        · exact notEvents _ _ rfl
        · exact notEmits _ _ rfl
      · rfl
    rw [setup, names ["props"] (by decide), names ["events", "emits"] (by decide)]
    simp

/-- An object says what its last `setup` function has for parameters, and lists names by hand. -/
theorem value_ofObject (m : ModuleId) (properties : List ObjectProperty) :
    (ofObject m properties).value
      = ⟨((properties.filterMap ObjectProperty.setup?).getLast?).map TypeSources.ofParameters,
          byHand ["props"] properties, byHand ["events", "emits"] properties⟩ := by
  have along (d : Descriptor) : (properties.foldlM (add m) d).value
      = ⟨(((properties.filterMap ObjectProperty.setup?).getLast?).map
            TypeSources.ofParameters).or d.setup,
          d.excludedProps ++ byHand ["props"] properties,
          d.excludedEvents ++ byHand ["events", "emits"] properties⟩ := by
    -- `d` is what the properties so far have said. A later `setup` replaces it, names are added.
    induction properties generalizing d with
    | nil => simp [byHand]
    | cons property rest ih =>
      rw [List.foldlM_cons, Noted.bind_value, ih, value_add]
      simp only [byHand, List.flatMap_cons, List.append_assoc, List.filterMap_cons]
      cases property.setup? with
      | none => simp
      | some parameters =>
        simp only [Option.map_some, Option.some_or, List.getLast?_cons]
        cases (rest.filterMap ObjectProperty.setup?).getLast? <;> simp
  exact (along .empty).trans (by rw [show empty.setup = none from rfl, Option.or_none]; rfl)

end Descriptor

/-! ### Shapes -/

/-- The arguments of the type of the second parameter. -/
def contextArguments (parameters : List Pattern) : List Ty :=
  match TypeSources.parameterType? parameters 1 with
  | some (.reference _ _ arguments) => arguments
  | _ => []

/-- The types of a component: the type arguments and, for those that are missing, the types of the
parameters. -/
def typeSources (explicit : List Ty) (parameters : List Pattern) : TypeSources :=
  ⟨explicit[0]?.or (TypeSources.parameterType? parameters 0),
    explicit[1]?.or (contextArguments parameters)[0]?,
    explicit[2]?.or (contextArguments parameters)[1]?⟩

/-- The properties of the first plain argument behind a function, if it is an object. -/
def optionsBehind : List Expr → List ObjectProperty
  | .object _ properties :: _ => properties
  | _ => []

/-- The shapes in which a variable can be a component, with their type arguments, parameters and
options. The value may stand in parentheses in all of them. -/
inductive Shape (options : Options) :
    Variable → List Ty → List Pattern → List ObjectProperty → Prop
  /-- `C = F<P, E, S>(..)` and `C = x.F<P, E, S>(..)`. -/
  | factory {pattern : Pattern} {init callee : Expr} {loc : Span} {explicit : List Ty}
      {arguments : List Argument}
      (value : init.unparenthesized = .call loc callee explicit arguments)
      (isFactory : Recognized.isFactory options callee = true)
      (noFunction : ∀ loc parameters,
        (Recognized.plainArguments arguments).head? ≠ some (.callback loc parameters))
      (noObject : ∀ loc properties,
        (Recognized.plainArguments arguments).head? ≠ some (.object loc properties)) :
      Shape options ⟨pattern, some init⟩ explicit [] []
  /-- `C = F((props: P, context: K<E, S>) => .., { .. })`. -/
  | function {pattern : Pattern} {init callee : Expr} {loc loc' : Span} {explicit : List Ty}
      {arguments : List Argument} {parameters : List Pattern} {others : List Expr}
      (value : init.unparenthesized = .call loc callee explicit arguments)
      (isFactory : Recognized.isFactory options callee = true)
      (first : Recognized.plainArguments arguments = .callback loc' parameters :: others) :
      Shape options ⟨pattern, some init⟩ explicit parameters (optionsBehind others)
  /-- `C = F({ setup(props: P, context: K<E, S>) {..} })`, also with a function under `setup:`. -/
  | object {pattern : Pattern} {init callee : Expr} {loc loc' : Span} {explicit : List Ty}
      {arguments : List Argument} {properties : List ObjectProperty} {others : List Expr}
      (value : init.unparenthesized = .call loc callee explicit arguments)
      (isFactory : Recognized.isFactory options callee = true)
      (first : Recognized.plainArguments arguments = .object loc' properties :: others) :
      Shape options ⟨pattern, some init⟩ explicit (setupParameters properties) properties
  /-- `C: G<P, E, S> = (props, context) => ..`. -/
  | functional {pattern : Pattern} {init : Expr} {loc : Span} {at' : Excerpt} {name : EntityName}
      {explicit : List Ty} {parameters : List Pattern}
      (annotated : pattern.type = some (.reference at' name explicit))
      (isFunctional : options.functionalTypeNames.contains name.last = true)
      (value : init.unparenthesized = .callback loc parameters) :
      Shape options ⟨pattern, some init⟩ explicit parameters []

/-- What a shape says about a component. -/
def recognizedBy (explicit : List Ty) (parameters : List Pattern)
    (properties : List ObjectProperty) : Recognized :=
  ⟨typeSources explicit parameters, byHand ["props"] properties,
    byHand ["events", "emits"] properties⟩

/-- Without parameters there are only type arguments. -/
theorem typeSources_nil (explicit : List Ty) :
    typeSources explicit [] = .ofArguments explicit := by
  unfold typeSources TypeSources.ofArguments
  simp [contextArguments, TypeSources.parameterType?]

namespace Recognized

/-- The `setup` function of an object has parameters, and no such function has none. -/
theorem getD_map_ofParameters (properties : List ObjectProperty) :
    ((((properties.filterMap ObjectProperty.setup?).getLast?).map
      TypeSources.ofParameters).getD .missing) = .ofParameters (setupParameters properties) := by
  unfold setupParameters
  cases (properties.filterMap ObjectProperty.setup?).getLast? <;> rfl

/-- A function as the first plain argument gives its parameters, and an object behind it lists
names. -/
theorem value_ofCall_of_function {m : ModuleId} {explicit : List Ty} {arguments : List Argument}
    {loc : Span} {parameters : List Pattern} {others : List Expr}
    (first : plainArguments arguments = .callback loc parameters :: others) :
    (ofCall m explicit arguments).value
      = recognizedBy explicit parameters (optionsBehind others) := by
  unfold ofCall
  rw [first]
  rcases others with _ | ⟨second, rest⟩
  · rfl
  · cases second with
    | object loc properties =>
      show Recognized.mk _ (Descriptor.ofObject m properties).value.excludedProps
        (Descriptor.ofObject m properties).value.excludedEvents = _
      rw [Descriptor.value_ofObject]
      rfl
    | _ => rfl

/-- An object as the first plain argument gives the parameters of its `setup` function, and lists
names. -/
theorem value_ofCall_of_object {m : ModuleId} {explicit : List Ty} {arguments : List Argument}
    {loc : Span} {properties : List ObjectProperty} {others : List Expr}
    (first : plainArguments arguments = .object loc properties :: others) :
    (ofCall m explicit arguments).value
      = recognizedBy explicit (setupParameters properties) properties := by
  unfold ofCall
  rw [first]
  show Recognized.mk ((TypeSources.ofArguments explicit).orElse
      ((Descriptor.ofObject m properties).value.setup.getD .missing))
    (Descriptor.ofObject m properties).value.excludedProps
    (Descriptor.ofObject m properties).value.excludedEvents = _
  rw [Descriptor.value_ofObject, getD_map_ofParameters]
  rfl

/-- A call without a function or an object in front has type arguments only. -/
theorem value_ofCall_of_other {m : ModuleId} {explicit : List Ty} {arguments : List Argument}
    (noFunction : ∀ loc parameters,
      (plainArguments arguments).head? ≠ some (.callback loc parameters))
    (noObject : ∀ loc properties,
      (plainArguments arguments).head? ≠ some (.object loc properties)) :
    (ofCall m explicit arguments).value = recognizedBy explicit [] [] := by
  unfold ofCall recognizedBy
  rw [typeSources_nil]
  split
  · rename_i eq
    exact absurd (by rw [eq]; rfl) (noFunction _ _)
  · rename_i eq
    exact absurd (by rw [eq]; rfl) (noFunction _ _)
  · rename_i eq
    exact absurd (by rw [eq]; rfl) (noObject _ _)
  · rfl

/-- A variable of a shape is recognized as the shape says. -/
theorem value_ofVariable_of_shape {options : Options} {v : Variable} {explicit : List Ty}
    {parameters : List Pattern} {properties : List ObjectProperty}
    (shape : Shape options v explicit parameters properties) (m : ModuleId) :
    ∃ init, v.init = some init ∧ (ofVariable options m v.pattern.type init).value
      = some (recognizedBy explicit parameters properties) := by
  cases shape with
  | factory value isFactory noFunction noObject =>
    refine ⟨_, rfl, ?_⟩
    unfold ofVariable
    rw [value]
    dsimp only
    rw [if_pos isFactory, Noted.map_value, value_ofCall_of_other noFunction noObject]
  | function value isFactory first =>
    refine ⟨_, rfl, ?_⟩
    unfold ofVariable
    rw [value]
    dsimp only
    rw [if_pos isFactory, Noted.map_value, value_ofCall_of_function first]
  | object value isFactory first =>
    refine ⟨_, rfl, ?_⟩
    unfold ofVariable
    rw [value]
    dsimp only
    rw [if_pos isFactory, Noted.map_value, value_ofCall_of_object first]
  | functional annotated isFunctional value =>
    refine ⟨_, rfl, ?_⟩
    unfold ofVariable
    rw [value, annotated]
    dsimp only
    rw [if_pos isFunctional]
    rfl

/-- Only variables of one of the shapes are recognized. -/
theorem exists_shape_of_ofVariable {options : Options} {m : ModuleId} (pattern : Pattern)
    {init : Expr} {r : Recognized}
    (recognized : (ofVariable options m pattern.type init).value = some r) :
    ∃ explicit parameters properties,
      Shape options ⟨pattern, some init⟩ explicit parameters properties := by
  -- A call of a factory, read by its plain arguments, or a function with the annotation.
  unfold ofVariable at recognized
  split at recognized
  · rename_i callee explicit arguments value
    split at recognized
    · rename_i isFactory
      rcases plain : plainArguments arguments with _ | ⟨first, others⟩
      · exact ⟨_, _, _, .factory value isFactory (by simp [plain]) (by simp [plain])⟩
      · cases first with
        | callback => exact ⟨_, _, _, .function value isFactory plain⟩
        | object => exact ⟨_, _, _, .object value isFactory plain⟩
        | _ => exact ⟨_, _, _, .factory value isFactory (by simp [plain]) (by simp [plain])⟩
    · cases recognized
  · rename_i value
    split at recognized
    · rename_i annotated
      split at recognized
      · rename_i isFunctional
        exact ⟨_, _, _, .functional annotated isFunctional value⟩
      · cases recognized
    · cases recognized
  · cases recognized

end Recognized

/-! ### Components -/

/-- The last component under a name is the one that the map holds. -/
theorem ComponentMap.lookup_ofList (list : List (String × Component)) (name : String) :
    (ofList list).lookup name = ((list.filter (·.1 == name)).getLast?).map (·.2) := by
  have along (map : ComponentMap) :
      (list.foldl (fun map pair => map.insert pair.1 pair.2) map).lookup name
        = (((list.filter (·.1 == name)).getLast?).map (·.2)).or (map.lookup name) := by
    induction list generalizing map with
    | nil => rfl
    | cons pair rest ih =>
      rw [List.foldl_cons, ih]
      by_cases same : pair.1 = name
      · rw [List.filter_cons_of_pos (by simpa using same), List.getLast?_cons, ← same]
        unfold insert
        rw [Keyed.lookup_put_self]
        cases (rest.filter (·.1 == pair.1)).getLast? <;> rfl
      · rw [List.filter_cons_of_neg (by simpa using same)]
        unfold insert
        rw [Keyed.lookup_put_of_ne (Ne.symm same)]
  exact (along []).trans (Option.or_none)

/-- Some items declare just one variable of a name, in one of the shapes. -/
def DeclaresComponent (options : Options) (items : List Item) (name : String) (explicit : List Ty)
    (parameters : List Pattern) (properties : List ObjectProperty) : Prop :=
  ∃ before v after, items.flatMap Item.variables = before ++ v :: after ∧
    v.pattern.name = some name ∧ (∀ w ∈ before ++ after, w.pattern.name ≠ some name) ∧
    Shape options v explicit parameters properties

namespace Program

variable {p : Program} {options : Options} {origin script : ModuleId}

/-- A component has the name of its variable. -/
theorem name_of_componentOfVariable {v : Variable} {pair : String × Component}
    (component : (p.componentOfVariable options origin script v).value = some pair) :
    v.pattern.name = some pair.1 := by
  unfold componentOfVariable at component
  split at component
  · rename_i name init named initialized
    rw [Noted.bind_value] at component
    split at component
    · rw [Noted.bind_value] at component
      obtain ⟨c, -, rfl⟩ := Option.map_eq_some_iff.mp component
      exact named
    · cases component
  · cases component

/-- Variables of other names declare no component of a name. -/
theorem filter_components_eq_nil (p : Program) (options : Options) (origin script : ModuleId)
    {list : List Variable} {name : String} (apart : ∀ w ∈ list, w.pattern.name ≠ some name) :
    (list.filterMap fun w => (p.componentOfVariable options origin script w).value).filter
      (·.1 == name) = [] := by
  rw [List.filter_eq_nil_iff]
  intro pair mem same
  obtain ⟨w, inside, component⟩ := List.mem_filterMap.mp mem
  have named := name_of_componentOfVariable component
  rw [eq_of_beq same] at named
  exact apart w inside named

/-- What is recorded for a variable of a shape is the component of the types. -/
theorem value_componentOfVariable (p : Program) (origin script : ModuleId) {v : Variable}
    {name : String} {explicit : List Ty} {parameters : List Pattern}
    {properties : List ObjectProperty} (named : v.pattern.name = some name)
    (shape : TypedProps.Shape options v explicit parameters properties) :
    (p.componentOfVariable options origin script v).value
      = (p.componentOf origin script (recognizedBy explicit parameters properties)).value.map
          (name, ·) := by
  obtain ⟨init, initialized, recognized⟩ := Recognized.value_ofVariable_of_shape shape script
  unfold componentOfVariable
  rw [named, initialized]
  dsimp only
  rw [Noted.bind_value, recognized]
  rfl

/-- The component that is recorded for a variable of a shape. The types of props, events and slots
are type arguments or, where these are missing, those of the parameters. Without a type for the
props there is no component. -/
theorem lookup_componentsOf {items : List Item} {name : String} {explicit : List Ty}
    {parameters : List Pattern} {properties : List ObjectProperty}
    (declares : DeclaresComponent options items name explicit parameters properties) :
    (p.componentsOf options origin script items).value.lookup name
      = (p.componentOf origin script (recognizedBy explicit parameters properties)).value := by
  obtain ⟨before, v, after, list, named, once, shape⟩ := declares
  have nothingBefore := filter_components_eq_nil p options origin script
    fun w mem => once w (List.mem_append_left after mem)
  have nothingAfter := filter_components_eq_nil p options origin script
    fun w mem => once w (List.mem_append_right before mem)
  -- Of the components of all variables, only the one of `v` can have the name.
  show (ComponentMap.ofList (p.componentsAmong options origin script _).value).lookup name = _
  rw [ComponentMap.lookup_ofList, value_componentsAmong, list, List.filterMap_append,
    List.filterMap_cons, List.filter_append, nothingBefore, List.nil_append,
    p.value_componentOfVariable origin script named shape]
  cases (p.componentOf origin script (recognizedBy explicit parameters properties)).value with
  | none =>
    show ((List.filter _ (List.filterMap _ after)).getLast?).map _ = _
    rw [nothingAfter]
    rfl
  | some component =>
    show ((List.filter _ ((name, component) :: List.filterMap _ after)).getLast?).map _ = _
    rw [List.filter_cons_of_pos (by simp), nothingAfter]
    rfl

/-- Programs with one outline make the same component of the same types. -/
theorem value_componentOf_congr {p' : Program} (alike : p'.outline = p.outline)
    {r r' : Recognized} (same : r'.moved Span.forget = r.moved Span.forget) :
    (p'.componentOf origin script r').value = (p.componentOf origin script r).value := by
  -- Both are the component that the outline makes.
  have outlined (p : Program) (r : Recognized) :
      (p.outline.componentOf origin script (r.moved Span.forget)).value
        = (p.componentOf origin script r).value := by
    have moved := p.embeds_outline.componentOf origin script r
    exact (congrArg Noted.value moved :)
  rw [← outlined p', ← outlined p, alike, same]

end Program

/-- The same type, wherever it is written. -/
def Ty.SameAs (a b : Ty) : Prop := a.moved Span.forget = b.moved Span.forget

/-- Type arguments, or parameters without them, give the types `P` of the props, `E` of the events
and `S` of the slots. -/
inductive Describes (P E S : Ty) : List Ty → List Pattern → Prop
  | explicit {props events slots : Ty} {parameters : List Pattern} (ofProps : props.SameAs P)
      (ofEvents : events.SameAs E) (ofSlots : slots.SameAs S) :
      Describes P E S [props, events, slots] parameters
  | parameters {first second : Pattern} {others : List Pattern} {loc : Excerpt}
      {context : EntityName} {props events slots : Ty} (ofFirst : first.type = some props)
      (ofSecond : second.type = some (.reference loc context [events, slots]))
      (ofProps : props.SameAs P) (ofEvents : events.SameAs E) (ofSlots : slots.SameAs S) :
      Describes P E S [] (first :: second :: others)

/-- These types are then those of the component. -/
theorem Describes.typeSources_eq {P E S : Ty} {explicit : List Ty} {parameters : List Pattern}
    (describes : Describes P E S explicit parameters) :
    (typeSources explicit parameters).moved Span.forget
      = TypeSources.moved Span.forget ⟨some P, some E, some S⟩ := by
  unfold TypeSources.moved
  cases describes with
  | explicit ofProps ofEvents ofSlots =>
    simp only [typeSources, Ty.moved?_eq_map]
    show TypeSources.mk (some _) (some _) (some _) = .mk (some _) (some _) (some _)
    rw [ofProps, ofEvents, ofSlots]
  | parameters ofFirst ofSecond ofProps ofEvents ofSlots =>
    simp only [typeSources, Ty.moved?_eq_map, contextArguments, TypeSources.parameterType?,
      List.getElem?_nil, Option.none_or, List.getElem?_cons_zero, List.getElem?_cons_succ,
      Option.bind_some, ofFirst, ofSecond]
    show TypeSources.mk (some _) (some _) (some _) = .mk (some _) (some _) (some _)
    rw [ofProps, ofEvents, ofSlots]

namespace Program

/-- In each shape, the types of props, events and slots are type arguments where these are present
and those of the parameters otherwise, and a component is recorded exactly if its props have a type.
Two declarations with the same types, in any two shapes and in programs that differ in nothing else
about types, record the same component if neither lists names by hand. -/
theorem shapes_converge (options : Options) {p p' : Program} (alike : p'.outline = p.outline)
    (origin script : ModuleId) {items items' : List Item} {name : String}
    {explicit explicit' : List Ty} {parameters parameters' : List Pattern}
    {properties properties' : List ObjectProperty}
    (declares : DeclaresComponent options items name explicit parameters properties)
    (declares' : DeclaresComponent options items' name explicit' parameters' properties') :
    ((p.componentsOf options origin script items).value.lookup name
        = (explicit[0]?.or (TypeSources.parameterType? parameters 0)).map fun type =>
          ⟨(p.propertiesWithout origin script (byHand ["props"] properties) (some type)).value,
            (p.propertiesWithout origin script (byHand ["events", "emits"] properties)
              (explicit[1]?.or (contextArguments parameters)[0]?)).value,
            (p.propertiesWithout origin script []
              (explicit[2]?.or (contextArguments parameters)[1]?)).value⟩) ∧
      ∀ P E S, Describes P E S explicit parameters → Describes P E S explicit' parameters' →
        byHand ["props", "events", "emits"] properties = [] →
        byHand ["props", "events", "emits"] properties' = [] →
        ∃ c, (p.componentsOf options origin script items).value.lookup name = some c ∧
          (p'.componentsOf options origin script items').value.lookup name = some c := by
  refine ⟨?_, ?_⟩
  · rw [lookup_componentsOf declares]
    unfold componentOf recognizedBy typeSources
    dsimp only
    cases explicit[0]?.or (TypeSources.parameterType? parameters 0) <;> rfl
  · intro P E S describes describes' nothing nothing'
    -- Without names listed by hand, the types are all there is to a shape.
    have bare {explicit : List Ty} {parameters : List Pattern} {properties : List ObjectProperty}
        (describes : Describes P E S explicit parameters)
        (nothing : byHand ["props", "events", "emits"] properties = []) :
        (recognizedBy explicit parameters properties).moved Span.forget
          = Recognized.moved Span.forget ⟨⟨some P, some E, some S⟩, [], []⟩ := by
      unfold recognizedBy Recognized.moved
      rw [describes.typeSources_eq, byHand_eq_nil (by decide) nothing,
        byHand_eq_nil (by decide) nothing]
    have present : ∃ c, (p.componentOf origin script
        ⟨⟨some P, some E, some S⟩, [], []⟩).value = some c := ⟨_, rfl⟩
    obtain ⟨c, present⟩ := present
    refine ⟨c, ?_, ?_⟩
    · rw [lookup_componentsOf declares, value_componentOf_congr rfl (bare describes nothing)]
      exact present
    · rw [lookup_componentsOf declares', value_componentOf_congr alike (bare describes' nothing')]
      exact present

/-- A text that begins at an offset. -/
def textAt (start : Nat) (text : String) : Excerpt := ⟨⟨start, start + text.length⟩, text⟩

/-- A type name that begins at an offset. -/
def nameAt (start : Nat) (name : String) : Ty := .reference (textAt start name) ⟨name, [], name⟩ []

/-- An empty object type that begins at an offset. -/
def emptyAt (start : Nat) : Ty := .object (textAt start "{}") []

/-- The alias `type Props = { a: string }`. -/
def propsAt (start : Nat) : Item :=
  ⟨start, [], .declaration false (.typeAlias ⟨"Props", (textAt (start + 5) "Props").span⟩ []
    (.object (textAt (start + 13) "{ a: string }") [.property (textAt (start + 15) "a: string") []
      (some "a") false (some (.keyword (textAt (start + 18) "string") .string))]))⟩

/-- The declaration `const C = (ui.defineComponent<Props, {}, {}>({}))` in front of the alias. -/
def callItems : List Item :=
  [ ⟨0, [], .declaration false (.variables [⟨⟨some "C", none⟩, some (.paren ⟨10, 49⟩
      (.call ⟨11, 48⟩ (.member ⟨11, 29⟩ "defineComponent")
        [nameAt 30 "Props", emptyAt 37, emptyAt 41] [.plain (.object ⟨45, 47⟩ [])]))⟩])⟩,
    propsAt 50 ]

/-- The parameters `a: Props, b: Context<{}, {}>`. -/
def functionParameters : List Pattern :=
  [ ⟨some "a", some (nameAt 62 "Props")⟩,
    ⟨some "b", some (.reference (textAt 72 "Context<{}, {}>") ⟨"Context", [], "Context"⟩
      [emptyAt 80, emptyAt 84])⟩ ]

/-- The declaration `const C: FunctionalComponent = (a: Props, b: Context<{}, {}>) => a` behind the
alias. -/
def functionItems : List Item :=
  [ propsAt 0,
    ⟨27, [], .declaration false (.variables [⟨⟨some "C", some (nameAt 36 "FunctionalComponent")⟩,
      some (.callback ⟨58, 93⟩ functionParameters)⟩])⟩ ]

/-- The program of one script. -/
def single (items : List Item) : Program := ⟨[⟨"/c.ts", "", items, []⟩], []⟩

/-- A call in parentheses and a function with an annotation, at different places, record the same
component. -/
theorem shapes_converge_call_function :
    (single functionItems).outline = (single callItems).outline ∧
    ∃ explicit explicit' parameters parameters' properties properties',
      DeclaresComponent .standard callItems "C" explicit parameters properties ∧
      DeclaresComponent .standard functionItems "C" explicit' parameters' properties' ∧
      ∃ c, ((single callItems).componentsOf .standard 0 0 callItems).value.lookup "C" = some c ∧
        ((single functionItems).componentsOf .standard 0 0 functionItems).value.lookup "C"
          = some c := by
  have alike : (single functionItems).outline = (single callItems).outline := by
    have hidden (start : Nat) (list : List Variable) :
        Item.outline? ⟨start, [], .declaration false (.variables list)⟩ = none := rfl
    have moved (start : Nat) : (propsAt start).outline? = (propsAt 0).outline? := by
      simp [propsAt, Item.outline?, ItemForm.outline?, Decl.outline?, Ty.moved, Ty.moved?,
        Member.movedAll, Member.moved, Excerpt.moved, Identifier.moved, Span.forget, textAt]
    simp only [single, outline, LoadedModule.outline, functionItems, callItems, List.map_cons,
      List.map_nil, List.filterMap_cons, List.filterMap_nil, hidden, moved 50]
  have called : DeclaresComponent .standard callItems "C"
      [nameAt 30 "Props", emptyAt 37, emptyAt 41] (setupParameters []) [] :=
    ⟨[], _, [], rfl, rfl, by simp, .object rfl rfl rfl⟩
  have annotated : DeclaresComponent .standard functionItems "C" [] functionParameters [] :=
    ⟨[], _, [], rfl, rfl, by simp, .functional rfl rfl rfl⟩
  -- Only the stretches differ, which do not count.
  have props : (nameAt 62 "Props").SameAs (nameAt 30 "Props") := by
    simp [Ty.SameAs, nameAt, Ty.moved, Ty.movedAll, Excerpt.moved, Span.forget, textAt]
  have empty (a b : Nat) : (emptyAt a).SameAs (emptyAt b) := by
    simp [Ty.SameAs, emptyAt, Ty.moved, Member.movedAll, Excerpt.moved, Span.forget, textAt]
  have both := (shapes_converge .standard alike 0 0 called annotated).2 _ _ _
    (.explicit rfl rfl rfl) (.parameters rfl rfl props (empty 80 37) (empty 84 41)) rfl rfl
  exact ⟨alike, _, _, _, _, _, _, called, annotated, both⟩

end Program

end TypedProps
