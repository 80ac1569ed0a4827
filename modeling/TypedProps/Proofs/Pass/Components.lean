import TypedProps.Proofs.Pass.Guards
import TypedProps.Transform

/-!
# `TypedProps.Proofs.Pass.Components`: a pass has no memory, and what it shows no effect

A pass finds the components that `Program.componentsOf` finds, and reports what is shown of its
diagnostics (`computes_resolveComponents`). So a transformation is a pass of its own
(`resolveComponents_transformModule`), a pass that is used for many modules does for each what a new
one would do (`resolveEach_eq_fresh`), and options that only say how results are presented have no
influence on them (`resolveComponents_of_same_names`).
-/

set_option autoImplicit false

namespace TypedProps.Pass

variable {p : Program} {options : Options} {origin : ModuleId} {r e : List Symbol}

/-- The properties of a type are collected. -/
theorem computes_propertiesOf (place : Place) (type : Ty) :
    Computes options [] [] (propertiesOf p options origin place type)
      (p.propertiesOf origin place type) :=
  (collects_collectType [] place type).map Property.firsts []

/-! ### Components -/

/-- The keys of an object are added. -/
theorem collects_readKeys (m : ModuleId) (properties : List ObjectProperty) :
    Collects options r e (readKeys options m properties) (Descriptor.keysOf m properties) := by
  induction properties with
  | nil => exact .nothing
  | cons property rest ih =>
    cases property with
    | spread dots => exact .warn_append _ _ _ ih
    | keyValue loc key value | method loc key parameters | bare loc key =>
      cases key with
      | none => exact .warn_append _ _ _ ih
      | some name => exact (Collects.single name).append ih

/-- The strings of a list are added. -/
theorem collects_readNames (m : ModuleId) (elements : List Argument) :
    Collects options r e (readNames options m elements) (Descriptor.namesOf m elements) := by
  induction elements with
  | nil => exact .nothing
  | cons element rest ih =>
    cases element with
    | spread value => exact .warn_append _ _ _ ih
    | plain value =>
      cases value with
      | string loc name => exact (Collects.single name).append ih
      | _ => exact .warn_append _ _ _ ih

/-- The names that a value declares by hand are added. -/
theorem collects_readExclusions (m : ModuleId) (value : Expr) :
    Collects options r e (readExclusions options m value) (Descriptor.exclusions m value) := by
  intro out
  unfold readExclusions Descriptor.exclusions
  cases value.unparenthesized with
  | object loc properties => exact collects_readKeys m properties out
  | array loc elements => exact collects_readNames m elements out
  | _ => exact Collects.nothing out

/-- What one property says is added. -/
theorem computes_readProperty (m : ModuleId) (d : Descriptor) (property : ObjectProperty) :
    Computes options r e (readProperty options m d property) (Descriptor.add m d property) := by
  -- The conditions of the cases of one definition decide the match of the other.
  fun_cases Descriptor.add m d property with
  | case1 loc parameters => exact .pure _
  | case2 loc value _ parameters callback =>
    simp only [readProperty, callback]
    exact .pure _
  | case3 loc value =>
    simp only [readProperty]
    exact .pure _
  | case4 loc value =>
    exact (collects_readExclusions m _).map (fun names => { d with excludedProps := names }) _
  | case5 loc value =>
    exact (collects_readExclusions m _).map (fun names => { d with excludedEvents := names }) _
  | case6 loc value =>
    exact (collects_readExclusions m _).map (fun names => { d with excludedEvents := names }) _
  | case7 =>
    simp only [readProperty]
    exact .pure _

/-- What an object with component options says is read. -/
theorem computes_readDescriptor (m : ModuleId) (properties : List ObjectProperty) (d : Descriptor) :
    Computes options r e (readDescriptor options m properties d)
      (properties.foldlM (Descriptor.add m) d) := by
  induction properties generalizing d with
  | nil => exact .pure d
  | cons property rest ih =>
    rw [List.foldlM_cons]
    exact (computes_readProperty m d property).bind (ih _)

/-- A call of a factory is read. -/
theorem computes_factorySources (m : ModuleId) (typeArguments : List Ty)
    (arguments : List Argument) :
    Computes options r e (factorySources options m typeArguments arguments)
      (Recognized.ofCall m typeArguments arguments) := by
  unfold factorySources Recognized.ofCall
  cases Recognized.plainArguments arguments with
  | nil => exact .pure _
  | cons first rest =>
    cases first with
    | object loc properties => exact (computes_readDescriptor m properties .empty).bind (.pure _)
    | callback loc parameters =>
      cases rest with
      | nil => exact .pure _
      | cons second others =>
        cases second with
        | object loc properties =>
          exact (computes_readDescriptor m properties .empty).bind (.pure _)
        | _ => exact .pure _
    | _ => exact .pure _

/-- A component is recognized. -/
theorem computes_matchComponent (m : ModuleId) (type : Option Ty) (init : Expr) :
    Computes options r e (matchComponent options m type init)
      (Recognized.ofVariable options m type init) := by
  unfold matchComponent Recognized.ofVariable
  cases init.unparenthesized with
  | call loc callee typeArguments arguments =>
    dsimp only
    split
    · exact (computes_factorySources m typeArguments arguments).map some
    · exact .pure none
  | callback loc parameters =>
    cases type with
    | none => exact .pure none
    | some type =>
      cases type with
      | reference loc name arguments =>
        dsimp only
        split <;> exact .pure _
      | _ => exact .pure none
  | _ => exact .pure none

/-- Leaving out no names leaves all properties. -/
theorem without_nil : Property.without [] = id :=
  funext fun _ => List.filter_eq_self.mpr fun _ _ => rfl

/-- The properties of a type are collected, if it is written. -/
theorem computes_propertiesOf? (script : ModuleId) (type : Option Ty) :
    Computes options [] [] (propertiesOf? p options origin script type)
      (p.propertiesWithout origin script [] type) := by
  cases type with
  | none => exact .pure []
  | some type =>
    rw [Program.propertiesWithout, without_nil, id_map]
    exact computes_propertiesOf ⟨origin, script⟩ type

/-- Names are left out in the end. -/
theorem propertiesWithout_eq (script : ModuleId) (excluded : List String) (type : Option Ty) :
    p.propertiesWithout origin script excluded type
      = Property.without excluded <$> p.propertiesWithout origin script [] type := by
  cases type with
  | none => rfl
  | some type =>
    rw [Program.propertiesWithout, Program.propertiesWithout, without_nil, id_map]

/-- The properties of a component are collected. -/
theorem computes_componentMeta (script : ModuleId) (c : Recognized) :
    Computes options [] [] (componentMeta p options origin script c)
      (p.componentOf origin script c) := by
  unfold componentMeta Program.componentOf
  cases c.sources.props with
  | none => exact .pure none
  | some type =>
    dsimp only
    rw [propertiesWithout_eq script c.excludedProps, propertiesWithout_eq script c.excludedEvents]
    simp only [bind_map_left]
    exact (computes_propertiesOf? script (some type)).bind
      ((computes_propertiesOf? script c.sources.events).bind
        ((computes_propertiesOf? script c.sources.slots).bind (.pure _)))

/-- A map of components with some more of them. -/
def insertAll (components : ComponentMap) (found : List (String × Component)) : ComponentMap :=
  found.foldl (fun map (name, c) => map.insert name c) components

/-- The component that a variable is is added. -/
theorem computes_resolveVariable (script : ModuleId) (v : Variable) (components : ComponentMap) :
    Computes options [] [] (resolveVariable p options origin script v components)
      ((fun found => insertAll components found.toList)
        <$> p.componentOfVariable options origin script v) := by
  -- Both stop where the name, the value, the recognition or the component is missing.
  unfold resolveVariable Program.componentOfVariable
  cases v.pattern.name with
  | none => exact .pure components
  | some name =>
    cases v.init with
    | none => exact .pure components
    | some init =>
      dsimp only
      rw [map_bind]
      refine (computes_matchComponent script v.pattern.type init).bind ?_
      cases (Recognized.ofVariable options script v.pattern.type init).value with
      | none => exact .pure components
      | some r =>
        dsimp only
        rw [map_bind]
        refine (computes_componentMeta script r).bind ?_
        cases (p.componentOf origin script r).value with
        | none => exact .pure components
        | some c => exact .pure _

/-- The components among some variables are added. -/
theorem computes_resolveVariables (script : ModuleId) (list : List Variable)
    (components : ComponentMap) :
    Computes options [] [] (resolveVariables p options origin script list components)
      (insertAll components <$> p.componentsAmong options origin script list) := by
  induction list generalizing components with
  | nil => exact .pure components
  | cons v rest ih =>
    have same : insertAll components <$> p.componentsAmong options origin script (v :: rest)
        = ((fun found => insertAll components found.toList)
            <$> p.componentOfVariable options origin script v)
          >>= fun map => insertAll map <$> p.componentsAmong options origin script rest := by
      rw [Program.componentsAmong]
      simp only [insertAll, ← bind_pure_comp, bind_assoc, pure_bind, List.foldl_append]
    rw [same]
    exact (computes_resolveVariable script v components).bind (ih _)

/-- The components of a module are found. -/
theorem computes_resolveComponents (script : ModuleId) (items : List Item) :
    Computes options [] [] (resolveComponents p options origin script items)
      (p.componentsOf options origin script items) :=
  computes_resolveVariables script _ []

/-! ### Several modules -/

/-- Calls a pass for one module after the other. Each call has what it finds and the state that it
leaves for the next one. -/
def resolveEach (p : Program) (options : Options) (origin : ModuleId) :
    List (ModuleId × List Item) → Pass → Option (List (ComponentMap × Pass))
  | [], _ => some []
  | (script, items) :: rest, pass => do
    let (components, after) ← resolveComponents p options origin script items pass
    let others ← resolveEach p options origin rest after
    some ((components, after) :: others)

/-- What a pass of its own reports for a module. -/
def reported (p : Program) (options : Options) (origin : ModuleId)
    (m : ModuleId × List Item) : List Diagnostic :=
  options.shown (p.componentsOf options origin m.1 m.2).notes

/-- A call on a new pass finds the components of the module, and only reports. -/
theorem resolveComponents_fresh (p : Program) (options : Options) (origin script : ModuleId)
    (items : List Item) :
    resolveComponents p options origin script items fresh
      = some ((p.componentsOf options origin script items).value,
          ⟨reported p options origin (script, items), [], []⟩) :=
  computes_resolveComponents script items []

/-- A transformation has the components and the diagnostics of a new pass over its module. -/
theorem resolveComponents_transformModule (id : ModuleId) (m : LoadedModule) :
    resolveComponents p options id id m.items fresh
      = some ((p.transformModule options id m).components,
          ⟨(p.transformModule options id m).diagnostics, [], []⟩) :=
  resolveComponents_fresh p options id id m.items

/-- The `k`-th call, on a pass that has reported something already. -/
theorem exists_resolveEach (p : Program) (options : Options) (origin : ModuleId)
    (modules : List (ModuleId × List Item)) (before : List Diagnostic) :
    ∃ calls, resolveEach p options origin modules ⟨before, [], []⟩ = some calls ∧
      calls.length = modules.length ∧
      ∀ (k : Nat) (m : ModuleId × List Item), modules[k]? = some m →
        calls[k]? = some ((p.componentsOf options origin m.1 m.2).value,
          ⟨before ++ (modules.take (k + 1)).flatMap (reported p options origin), [], []⟩) := by
  -- By induction on the modules, for any list of diagnostics that have been reported before.
  induction modules generalizing before with
  | nil => exact ⟨[], rfl, rfl, by simp⟩
  | cons m rest ih =>
    obtain ⟨others, run, length, each⟩ := ih (before ++ reported p options origin m)
    let first : ComponentMap × Pass :=
      ((p.componentsOf options origin m.1 m.2).value,
        ⟨before ++ reported p options origin m, [], []⟩)
    have ended : resolveComponents p options origin m.1 m.2 ⟨before, [], []⟩ = some first :=
      computes_resolveComponents m.1 m.2 before
    refine ⟨first :: others, ?_, congrArg (· + 1) length, ?_⟩
    · rw [resolveEach, ended]
      show (resolveEach p options origin rest first.2 >>= _) = _
      rw [run]
      rfl
    · intro k m' here
      cases k with
      | zero =>
        obtain rfl : m = m' := Option.some.inj here
        rw [List.take_succ_cons, List.take_zero, List.flatMap_cons, List.flatMap_nil,
          List.append_nil]
        rfl
      | succ k =>
        rw [List.getElem?_cons_succ] at here ⊢
        rw [each k m' here, List.take_succ_cons, List.flatMap_cons, List.append_assoc]

/-- A pass has no memory: a call has the components that it would have on a pass of its own, the
diagnostics are those of such passes, one after the other, and nothing is left under guard. -/
theorem resolveEach_eq_fresh (p : Program) (options : Options) (origin : ModuleId)
    (modules : List (ModuleId × List Item)) :
    ∃ calls alone, resolveEach p options origin modules fresh = some calls ∧
      modules.mapM (fun m => resolveComponents p options origin m.1 m.2 fresh) = some alone ∧
      calls.length = modules.length ∧ calls.map Prod.fst = alone.map Prod.fst ∧
      ∀ k (h : k < calls.length),
        calls[k].2.diagnostics = (alone.take (k + 1)).flatMap (·.2.diagnostics) ∧
        calls[k].2.resolving = [] ∧ calls[k].2.extracting = [] := by
  obtain ⟨calls, run, length, each⟩ := exists_resolveEach p options origin modules []
  let found (m : ModuleId × List Item) : ComponentMap × Pass :=
    ((p.componentsOf options origin m.1 m.2).value, ⟨reported p options origin m, [], []⟩)
  -- A pass of its own gives a call its components and just its diagnostics.
  have alone : modules.mapM (fun m => resolveComponents p options origin m.1 m.2 fresh)
      = some (modules.map found) := by
    have same : (fun m : ModuleId × List Item => resolveComponents p options origin m.1 m.2 fresh)
        = fun m => pure (found m) :=
      funext fun m => resolveComponents_fresh p options origin m.1 m.2
    rw [same]
    exact List.mapM_pure
  refine ⟨calls, _, run, alone, length, ?_, ?_⟩
  · refine List.ext_getElem? fun k => ?_
    rw [List.map_map, List.getElem?_map, List.getElem?_map]
    cases here : modules[k]? with
    | none =>
      rw [List.getElem?_eq_none_iff.mpr (length ▸ List.getElem?_eq_none_iff.mp here)]
      rfl
    | some m =>
      rw [each k m here]
      rfl
  · intro k h
    have here := each k modules[k] (List.getElem?_eq_getElem (length ▸ h))
    obtain ⟨_, same⟩ := List.getElem?_eq_some_iff.mp here
    rw [same, ← List.map_take, List.flatMap_map]
    exact ⟨rfl, rfl, rfl⟩

/-! ### Options -/

section
variable {o o' : Options}

/-- Which variables are components depends on the names of factories and functional types only. -/
theorem componentsOf_congr (p : Program) (origin : ModuleId)
    (factories : o.factoryNames = o'.factoryNames)
    (functional : o.functionalTypeNames = o'.functionalTypeNames) (script : ModuleId)
    (items : List Item) :
    p.componentsOf o origin script items = p.componentsOf o' origin script items := by
  have factory : Recognized.isFactory o = Recognized.isFactory o' := by
    funext callee
    cases callee <;> simp only [Recognized.isFactory, factories]
  have recognized : Recognized.ofVariable o = Recognized.ofVariable o' := by
    funext m type init
    rw [Recognized.ofVariable, factory, functional]
    rfl
  have among (list : List Variable) :
      p.componentsAmong o origin script list = p.componentsAmong o' origin script list := by
    induction list with
    | nil => rfl
    | cons v rest ih =>
      simp only [Program.componentsAmong, Program.componentOfVariable, recognized, ih]
  rw [Program.componentsOf, among]
  rfl

/-- What is written into a patch depends on where documentation goes and on the module of the
framework only. -/
theorem textAll_congr (mode : o.docMode = o'.docMode)
    (framework : o.frameworkModule = o'.frameworkModule) (components : ComponentMap) :
    Patch.textAll o components = Patch.textAll o' components := by
  have steps : Patch.steps o = Patch.steps o' := by
    funext c
    have same : Patch.stepOf o = Patch.stepOf o' := by
      funext prop
      simp only [Patch.stepOf, Patch.recordOf, mode]
    simp only [Patch.steps, same]
  simp only [Patch.textAll, Patch.text, steps, framework]

/-- What is shown while warnings are hidden is what is shown otherwise, without the warnings. -/
theorem shown_eq_filter (hidden : o.hideWarnings = true) (open' : o'.hideWarnings = false)
    (diagnostics : List Diagnostic) :
    o.shown diagnostics = (o'.shown diagnostics).filter (·.severity != .warning) := by
  simp [Options.shown, hidden, open']

/-- Every problem of a declared type is a warning, so nothing is shown while warnings are hidden. -/
theorem shown_eq_nil (hidden : o.hideWarnings = true) (diagnostics : List Diagnostic) :
    o.shown diagnostics = [] := by
  have warning (d : Diagnostic) : d.severity = .warning := by
    unfold Diagnostic.severity Diagnostic.code
    cases d.problem <;> rfl
  simp [Options.shown, hidden, warning]

end

/-- How results are presented has no influence on the analysis. Under options with the same names of
factories and functional types a pass finds the same components. While warnings are hidden its
diagnostics are those that it has otherwise without the warnings, which are none; and if all other
choices agree, the code and the patch of a module are the same. -/
theorem resolveComponents_of_same_names (p : Program) {o o' : Options}
    (factories : o.factoryNames = o'.factoryNames)
    (functional : o.functionalTypeNames = o'.functionalTypeNames) (origin script : ModuleId)
    (items : List Item) :
    (∃ components pass pass',
      resolveComponents p o origin script items fresh = some (components, pass) ∧
      resolveComponents p o' origin script items fresh = some (components, pass') ∧
      (o.hideWarnings = o'.hideWarnings → pass.diagnostics = pass'.diagnostics) ∧
      (o.hideWarnings = true → o'.hideWarnings = false →
        pass.diagnostics = pass'.diagnostics.filter (·.severity != .warning) ∧
        pass.diagnostics = [])) ∧
    (o.docMode = o'.docMode → o.frameworkModule = o'.frameworkModule → ∀ id m,
      (p.transformModule o id m).code = (p.transformModule o' id m).code ∧
      (p.transformModule o id m).patch = (p.transformModule o' id m).patch) := by
  have found (id : ModuleId) (script : ModuleId) (items : List Item) :=
    componentsOf_congr p id factories functional script items
  constructor
  · have other := resolveComponents_fresh p o' origin script items
    rw [← found] at other
    refine ⟨_, _, _, resolveComponents_fresh p o origin script items, other, ?_, ?_⟩
    · intro same
      simp only [reported, found, Options.shown, same]
    · intro hidden open'
      simp only [reported, found]
      exact ⟨shown_eq_filter hidden open' _, shown_eq_nil hidden _⟩
  · intro mode framework id m
    unfold Program.transformModule
    dsimp only
    rw [found id id m.items, textAll_congr mode framework]
    exact ⟨rfl, rfl⟩

/-- A type that nothing declares. -/
def missingType : Ty := .reference ⟨⟨2, 9⟩, "Missing"⟩ ⟨"Missing", [], "Missing"⟩ []

/-- The call `defineComponent<Missing>()`. -/
def missingCall : Expr := .call ⟨0, 1⟩ (.name ⟨0, 1⟩ "defineComponent") [missingType] []

/-- A script with a component `C` that this call declares. -/
def missingItems : List Item :=
  [⟨0, [], .declaration false (.variables [⟨⟨some "C", none⟩, some missingCall⟩])⟩]

/-- Hidden warnings, and documentation in comments. -/
def quietOptions : Options := { Options.standard with hideWarnings := true, docMode := .asComment }

/-- A component with an unknown type of props is found with and without the warning. -/
theorem resolveComponents_of_same_names_missing :
    ∃ components pass pass',
      resolveComponents ⟨[], []⟩ quietOptions 0 0 missingItems fresh = some (components, pass) ∧
      resolveComponents ⟨[], []⟩ .standard 0 0 missingItems fresh = some (components, pass') ∧
      components = [("C", ⟨[], [], []⟩)] ∧ pass.diagnostics = [] ∧
      pass'.diagnostics = [⟨.unknownType "Missing", 0, ⟨2, 9⟩⟩] := by
  let p : Program := ⟨[], []⟩
  have properties : p.propertiesOf 0 ⟨0, 0⟩ missingType
      = ⟨[], [⟨.unknownType "Missing", 0, ⟨2, 9⟩⟩]⟩ := by
    rw [Program.propertiesOf, missingType, Program.expand_reference]
    rfl
  have described : p.componentOf 0 0 ⟨.ofArguments [missingType], [], []⟩
      = ⟨some ⟨[], [], []⟩, [⟨.unknownType "Missing", 0, ⟨2, 9⟩⟩]⟩ := by
    show (do
      let props ← Property.without [] <$> p.propertiesOf 0 ⟨0, 0⟩ missingType
      let events ← pure []
      let slots ← pure []
      pure (some ⟨props, events, slots⟩) : Noted (Option Component)) = _
    rw [properties]
    rfl
  -- The problem comes up from the type through the component to the module.
  have found : p.componentsOf .standard 0 0 missingItems
      = ⟨[("C", ⟨[], [], []⟩)], [⟨.unknownType "Missing", 0, ⟨2, 9⟩⟩]⟩ := by
    show ComponentMap.ofList
      <$> p.componentsAmong .standard 0 0 [⟨⟨some "C", none⟩, some missingCall⟩] = _
    rw [Program.componentsAmong, Program.componentsAmong, Program.componentOfVariable]
    have recognized : Recognized.ofVariable .standard 0 none missingCall
        = pure (some ⟨.ofArguments [missingType], [], []⟩) := rfl
    dsimp only
    rw [recognized, pure_bind]
    dsimp only
    rw [described]
    rfl
  obtain ⟨⟨components, pass, pass', run, run', -, compared⟩, -⟩ :=
    @resolveComponents_of_same_names p quietOptions .standard rfl rfl 0 0 missingItems
  have here := run'.symm.trans (resolveComponents_fresh p .standard 0 0 missingItems)
  rw [reported, found] at here
  obtain ⟨rfl, rfl⟩ := Prod.mk.inj (Option.some.inj here)
  exact ⟨_, _, _, run, run', rfl, (compared rfl rfl).2, rfl⟩

end TypedProps.Pass
