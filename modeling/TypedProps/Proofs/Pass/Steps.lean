import TypedProps.Component.Discovery

/-!
# `TypedProps.Proofs.Pass.Steps`: components found step by step in one state

`Program.componentsOf` hands the aliases that are being followed down to whatever it calls, and its
values carry their diagnostics along. A pass that works in place keeps all of this in one state: it
drops or appends a diagnostic where a problem is met, puts a symbol into a set of guards before it
looks into the declaration, and takes it out again afterwards. Whatever a step leaves behind in the
state is there for the next one.

The steps below are such a pass. `warn` is the only one that looks at `Options.hideWarnings`. The
mutually recursive ones are defined as far as they end; that they always do is a theorem
(`TypedProps.Proofs.Pass.Guards`), and it rests on the guards.
-/

set_option autoImplicit false

namespace TypedProps

/-- The state of a pass. -/
structure Pass where
  diagnostics : List Diagnostic
  /-- The aliases whose tags are being collected. -/
  resolving : List Symbol
  /-- The aliases and interfaces whose members are being collected. -/
  extracting : List Symbol
deriving DecidableEq, Repr, Inhabited

variable (p : Program) (options : Options) (origin : ModuleId)

namespace Pass

/-- The state in which a pass begins. -/
def fresh : Pass := ⟨[], [], []⟩

/-- A step changes the state of a pass and has a value, or it never ends. -/
abbrev Step := StateT Pass Option

/-! ### What changes the state -/

/-- Reports a problem, unless it is a warning and those are hidden. -/
def warn (problem : Problem) (m : ModuleId) (span : Span) : Step Unit := do
  let d : Diagnostic := ⟨problem, m, span⟩
  if options.hideWarnings && d.severity == .warning then pure ()
  else modify fun pass => { pass with diagnostics := pass.diagnostics ++ [d] }

/-- Puts an alias under guard. The answer is whether it was not. -/
def beginResolving (s : Symbol) : Step Bool := fun pass =>
  some (s ∉ pass.resolving, { pass with resolving := pass.resolving.insert s })

/-- Releases an alias. -/
def endResolving (s : Symbol) : Step Unit :=
  modify fun pass => { pass with resolving := pass.resolving.erase s }

/-- Puts an alias or an interface under guard, or reports that it is. -/
def enter (s : Symbol) (m : ModuleId) (span : Span) : Step Bool := do
  let pass ← get
  if s ∈ pass.extracting then
    warn options (.recursiveMembers s.name) m span
    pure false
  else
    set { pass with extracting := pass.extracting.insert s }
    pure true

/-- Releases an alias or an interface. -/
def leave (s : Symbol) : Step Unit :=
  modify fun pass => { pass with extracting := pass.extracting.erase s }

end Pass

/-! ### Tags -/

namespace Program

open Pass

mutual

/-- Collects the tags of a type. -/
def typeTags (p : Program) (options : Options) (origin : ModuleId) (place : Place) (type : Ty) :
    Step (List Tag) :=
  match type with
  | .keyword _ word => pure word.tag?.toList
  | .literal loc form => pure (form.kind?.map (Tag.literal loc.text)).toList
  | .array _ element => do
    let inner ← p |>.typeTags options origin place element
    pure [.array inner]
  | .tuple _ elements => do
    let inner ← p |>.mergedTags options origin place [] elements
    pure [.array inner]
  | .function _ => pure [.function]
  | .paren _ inner | .optional _ inner | .readonly _ inner =>
    p |>.typeTags options origin place inner
  | .object _ _ | .mapped _ => pure [.object]
  | .union _ parts | .intersection _ parts => p |>.mergedTags options origin place [] parts
  | .other _ => pure []
  | .reference loc name arguments =>
    match p.symbolAt place.scope name with
    | some s => p |>.symbolTags options origin place loc name arguments s
    | none => p |>.builtinTags options origin place name arguments
partial_fixpoint

/-- Merges the tags of some types, one after the other, into those at hand. -/
def mergedTags (p : Program) (options : Options) (origin : ModuleId) (place : Place)
    (tags : List Tag) (types : List Ty) : Step (List Tag) :=
  match types with
  | [] => pure tags
  | type :: rest => do
    let more ← p |>.typeTags options origin place type
    p |>.mergedTags options origin place (Tag.merge tags more) rest
partial_fixpoint

/-- Collects the tags of a reference that leads to a symbol. -/
def symbolTags (p : Program) (options : Options) (origin : ModuleId) (place : Place) (loc : Excerpt)
    (name : EntityName) (arguments : List Ty) (s : Symbol) : Step (List Tag) :=
  match p.declaration? s with
  | none => p |>.builtinTags options origin place name arguments
  | some (.imported ..) =>
    match p.aliased? s with
    | some target => do
      let tags ← p |>.symbolTags options origin place loc name arguments target
      pure (if p.isTypeOnly s then tags.map Tag.erased else tags)
    | none => p |>.builtinTags options origin place name arguments
  | some (.typeAlias _ _ body) => do
    if ← beginResolving s then
      let tags ← p |>.typeTags options origin (.inside s.module) body
      endResolving s
      pure tags
    else
      warn options (.recursiveAlias s.name) place.script loc.span
      pure []
  | some (.interfaceDecl ..) => pure [.object]
  | some (.classDecl _) => pure [.named name.text (place.scope == origin)]
  | some (.enumDecl _ members) => pure [enumTag members]
partial_fixpoint

/-- Collects the tags of a name under which nothing is declared. -/
def builtinTags (p : Program) (options : Options) (origin : ModuleId) (place : Place)
    (name : EntityName) (arguments : List Ty) : Step (List Tag) :=
  if name.isGlobalArray then
    match arguments with
    | argument :: _ => do
      let inner ← p |>.typeTags options origin place argument
      pure [.array inner]
    | [] => pure [.array []]
  else pure [name.globalTag]
partial_fixpoint

end

end Program

namespace Pass

/-- Resolves the type of a member. -/
def resolveType (place : Place) (type : Ty) : Step (Option ResolvedType) := do
  let tags := Tag.merge [] (← p.typeTags options origin place type)
  if tags.isEmpty then pure none
  else if Program.isSelfDescribing type tags then pure (some ⟨tags, none⟩)
  else pure (some ⟨tags, some (if place.scope == origin then type.text else Tag.unionText tags)⟩)

/-! ### Members -/

/-- Adds the property that a member declares, if it declares one. -/
def collectMember (place : Place) (member : Member) (out : List Property) :
    Step (List Property) :=
  match member with
  | .property _ docs name optional type =>
    match usableName? name with
    | none => pure out
    | some name => do
      let type ← match type with
        | some type => resolveType p options origin place type
        | none => pure none
      let required := !optional && !(type.map (·.contains .undefined)).getD false
      pure (out ++ [⟨name, type, required, none, Doc.cleanAll docs⟩])
  | .method _ docs name optional _ parameters result =>
    match usableName? name with
    | none => pure out
    | some name =>
      let shown :=
        if place.scope == origin then signatureText parameters result else Tag.function.typeText
      pure (out ++ [⟨name, some ⟨[.function], some shown⟩, !optional, none, Doc.cleanAll docs⟩])
  | .other _ _ => pure out

/-- Adds the properties that members declare. -/
def collectMembers (place : Place) : List Member → List Property → Step (List Property)
  | [], out => pure out
  | member :: rest, out => do
    let out ← collectMember p options origin place member out
    collectMembers place rest out

end Pass

namespace Program

open Pass

mutual

/-- Adds the members of a type. -/
def collectType (p : Program) (options : Options) (origin : ModuleId) (place : Place) (type : Ty)
    (out : List Property) : Step (List Property) :=
  match type with
  | .object _ members => collectMembers p options origin place members out
  | .paren _ inner => p |>.collectType options origin place inner out
  | .reference loc name _ =>
    match p.symbolAt place.scope name with
    | some s => p |>.collectSymbol options origin s place.script loc.span out
    | none => do
      warn options (.unknownType name.text) place.script loc.span
      pure out
  | .intersection _ parts => p |>.collectParts options origin place parts out
  | other => do
    warn options .notAnObject place.script other.span
    pure out
partial_fixpoint

/-- Adds the members of the parts of an intersection. -/
def collectParts (p : Program) (options : Options) (origin : ModuleId) (place : Place)
    (parts : List Ty) (out : List Property) : Step (List Property) :=
  match parts with
  | [] => pure out
  | part :: rest => do
    if Program.mayHaveMembers part then
      let out ← p |>.collectType options origin place part out
      p |>.collectParts options origin place rest out
    else
      warn options .intersectionPart place.script part.span
      p |>.collectParts options origin place rest out
partial_fixpoint

/-- Adds the members of what a symbol is declared as. `script` and `span` are where it is referred
to. -/
def collectSymbol (p : Program) (options : Options) (origin : ModuleId) (s : Symbol)
    (script : ModuleId) (span : Span) (out : List Property) : Step (List Property) :=
  match p.declaration? s with
  | none => do
    warn options (.undeclared s.name) script span
    pure out
  | some (.typeAlias _ _ body) => do
    if ← enter options s script span then
      let out ← p |>.collectType options origin (.inside s.module) body out
      leave s
      pure out
    else pure out
  | some (.interfaceDecl _ _ bases members) => do
    if ← enter options s script span then
      let out ← p |>.collectInterface options origin s.module members bases out
      leave s
      pure out
    else pure out
  | some (.imported ..) =>
    match p.aliased? s with
    | some target => p |>.collectSymbol options origin target script span out
    | none => do
      warn options (.unresolvedImport s.name) script span
      pure out
  | some (.classDecl _) | some (.enumDecl ..) => do
    warn options (.memberless s.name) script span
    pure out
partial_fixpoint

/-- Adds the members of an interface, its own before those of its bases. -/
def collectInterface (p : Program) (options : Options) (origin : ModuleId) (m : ModuleId)
    (members : List Member) (bases : List Base) (out : List Property) : Step (List Property) := do
  let out ← collectMembers p options origin (.inside m) members out
  p |>.collectBases options origin m bases out
partial_fixpoint

/-- Adds the members of the bases of an interface. -/
def collectBases (p : Program) (options : Options) (origin : ModuleId) (m : ModuleId)
    (bases : List Base) (out : List Property) : Step (List Property) :=
  match bases with
  | [] => pure out
  | base :: rest =>
    match base.name with
    | none => do
      warn options .qualifiedBase m base.loc
      p |>.collectBases options origin m rest out
    | some name =>
      match p.lookup m name with
      | some s => do
        let out ← p |>.collectSymbol options origin s m base.loc out
        p |>.collectBases options origin m rest out
      | none => do
        warn options (.unknownType name) m base.loc
        p |>.collectBases options origin m rest out
partial_fixpoint

end

end Program

namespace Pass

/-- Collects the properties of a type; of those with one name the first counts. -/
def propertiesOf (place : Place) (type : Ty) : Step (List Property) := do
  let out ← p.collectType options origin place type []
  pure (Property.firsts out)

/-! ### Components -/

/-- Adds the keys of an object that declares names. -/
def readKeys (m : ModuleId) : List ObjectProperty → List String → Step (List String)
  | [], names => pure names
  | .spread dots :: rest, names => do
    warn options .spreadDeclaration m dots
    readKeys m rest names
  | .keyValue loc key _ :: rest, names | .method loc key _ :: rest, names
  | .bare loc key :: rest, names =>
    match key with
    | some name => readKeys m rest (names ++ [name])
    | none => do
      warn options .computedDeclaration m loc
      readKeys m rest names

/-- Adds the strings of a list that declares names. -/
def readNames (m : ModuleId) : List Argument → List String → Step (List String)
  | [], names => pure names
  | .plain (.string _ name) :: rest, names => readNames m rest (names ++ [name])
  | .plain value :: rest, names | .spread value :: rest, names => do
    warn options .unreadableName m value.loc
    readNames m rest names

/-- Adds the names that a value declares by hand. -/
def readExclusions (m : ModuleId) (value : Expr) (names : List String) : Step (List String) :=
  match value.unparenthesized with
  | .object _ properties => readKeys options m properties names
  | .array _ elements => readNames options m elements names
  | _ => pure names

/-- Adds what one property of an object with component options says. -/
def readProperty (m : ModuleId) (d : Descriptor) (property : ObjectProperty) : Step Descriptor :=
  match property with
  | .method _ (some "setup") parameters => pure { d with setup := some (.ofParameters parameters) }
  | .keyValue _ (some "setup") value =>
    match value.unparenthesized with
    | .callback _ parameters => pure { d with setup := some (.ofParameters parameters) }
    | _ => pure d
  | .keyValue _ (some "props") value => do
    let names ← readExclusions options m value d.excludedProps
    pure { d with excludedProps := names }
  | .keyValue _ (some "events") value | .keyValue _ (some "emits") value => do
    let names ← readExclusions options m value d.excludedEvents
    pure { d with excludedEvents := names }
  | _ => pure d

/-- Reads an object with component options. -/
def readDescriptor (m : ModuleId) : List ObjectProperty → Descriptor → Step Descriptor
  | [], d => pure d
  | property :: rest, d => do
    let d ← readProperty options m d property
    readDescriptor m rest d

/-- Reads a call of a factory. -/
def factorySources (m : ModuleId) (typeArguments : List Ty) (arguments : List Argument) :
    Step Recognized :=
  let explicit := TypeSources.ofArguments typeArguments
  match Recognized.plainArguments arguments with
  | .callback _ parameters :: .object _ properties :: _ => do
    let d ← readDescriptor options m properties .empty
    pure ⟨explicit.orElse (.ofParameters parameters), d.excludedProps, d.excludedEvents⟩
  | .callback _ parameters :: _ => pure ⟨explicit.orElse (.ofParameters parameters), [], []⟩
  | .object _ properties :: _ => do
    let d ← readDescriptor options m properties .empty
    pure ⟨explicit.orElse (d.setup.getD .missing), d.excludedProps, d.excludedEvents⟩
  | _ => pure ⟨explicit, [], []⟩

/-- Recognizes a variable that is a component. -/
def matchComponent (m : ModuleId) (type : Option Ty) (init : Expr) : Step (Option Recognized) :=
  match init.unparenthesized with
  | .call _ callee typeArguments arguments => do
    if Recognized.isFactory options callee then
      let r ← factorySources options m typeArguments arguments
      pure (some r)
    else pure none
  | .callback _ parameters =>
    match type with
    | some (.reference _ name arguments) =>
      if options.functionalTypeNames.contains name.last then
        pure (some ⟨(TypeSources.ofArguments arguments).orElse (.ofParameters parameters), [], []⟩)
      else pure none
    | _ => pure none
  | _ => pure none

/-- Collects the properties of a type, if it is written. -/
def propertiesOf? (script : ModuleId) : Option Ty → Step (List Property)
  | some type => propertiesOf p options origin ⟨origin, script⟩ type
  | none => pure []

/-- Collects the properties of a component, if the type of its props is written. -/
def componentMeta (script : ModuleId) (r : Recognized) : Step (Option Component) :=
  match r.sources.props with
  | none => pure none
  | some type => do
    let props ← propertiesOf p options origin ⟨origin, script⟩ type
    let props := Property.without r.excludedProps props
    let events ← propertiesOf? p options origin script r.sources.events
    let events := Property.without r.excludedEvents events
    let slots ← propertiesOf? p options origin script r.sources.slots
    pure (some ⟨props, events, slots⟩)

/-- Adds the component that a variable is, if it is one. -/
def resolveVariable (script : ModuleId) (v : Variable) (components : ComponentMap) :
    Step ComponentMap :=
  match v.pattern.name, v.init with
  | some name, some init => do
    match ← matchComponent options script v.pattern.type init with
    | some r =>
      match ← componentMeta p options origin script r with
      | some c => pure (components.insert name c)
      | none => pure components
    | none => pure components
  | _, _ => pure components

/-- Adds the components among some variables. -/
def resolveVariables (script : ModuleId) : List Variable → ComponentMap → Step ComponentMap
  | [], components => pure components
  | v :: rest, components => do
    let components ← resolveVariable p options origin script v components
    resolveVariables script rest components

/-- Finds the components that the items of the module `script` declare, as seen from module
`origin`. -/
def resolveComponents (script : ModuleId) (items : List Item) : Step ComponentMap :=
  resolveVariables p options origin script (items.flatMap Item.variables) []

end Pass

end TypedProps
