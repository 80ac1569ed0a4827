import TypedProps.Diagnostic
import TypedProps.Options

/-!
# `TypedProps.Component.Declaration`: the forms in which components are declared

A component is a variable whose value is a call of a factory, or a function under the type of a
functional component. The types of its props, events and slots are type arguments or, where these
are missing, belong to the parameters of a function: of the value itself, of the factory's first
argument, or of the `setup` function in an object. Such an object may also list props and events
that are declared by hand; their names are exclusions.
-/

set_option autoImplicit false

namespace TypedProps

/-- The types that describe a component, as far as they are written. -/
structure TypeSources where
  props : Option Ty
  events : Option Ty
  slots : Option Ty
deriving Inhabited

namespace TypeSources

/-- No types. -/
def missing : TypeSources := ⟨none, none, none⟩

/-- Types in the order of type arguments. -/
def ofArguments (types : List Ty) : TypeSources := ⟨types[0]?, types[1]?, types[2]?⟩

/-- The type of a parameter of a function. -/
def parameterType? (parameters : List Pattern) (i : Nat) : Option Ty :=
  parameters[i]?.bind Pattern.type

/-- The types of the parameters of a function: props are the first; events and slots are the
arguments of the second one's type. -/
def ofParameters (parameters : List Pattern) : TypeSources :=
  let context : List Ty :=
    match parameterType? parameters 1 with
    | some (.reference _ _ arguments) => arguments
    | _ => []
  ⟨parameterType? parameters 0, context[0]?, context[1]?⟩

/-- Takes from `other` what is missing. -/
def orElse (sources other : TypeSources) : TypeSources :=
  ⟨sources.props.or other.props, sources.events.or other.events, sources.slots.or other.slots⟩

end TypeSources

/-- A variable that is a component: its types and the names it declares by hand. -/
structure Recognized where
  sources : TypeSources
  excludedProps : List String
  excludedEvents : List String
deriving Inhabited

/-- What an object with component options says. -/
structure Descriptor where
  setup : Option TypeSources
  excludedProps : List String
  excludedEvents : List String
deriving Inhabited

namespace Descriptor

/-- An object that says nothing. -/
def empty : Descriptor := ⟨none, [], []⟩

/-- The key that a property of an object declares; the dots of a spread declare none. -/
def key? : ObjectProperty → Option String
  | .keyValue _ key _ | .method _ key _ | .bare _ key => key
  | .spread _ => none

/-- The names declared by an object: its keys. -/
def keysOf (m : ModuleId) : List ObjectProperty → Noted (List String)
  | [] => pure []
  | property :: rest => do
    let first ← match property with
      | .spread dots => do
        Noted.note .spreadDeclaration m dots
        pure []
      | .keyValue loc key _ | .method loc key _ | .bare loc key =>
        match key with
        | some name => pure [name]
        | none => do
          Noted.note .computedDeclaration m loc
          pure []
    pure (first ++ (← keysOf m rest))

/-- The names declared by a list: its strings. -/
def namesOf (m : ModuleId) : List Argument → Noted (List String)
  | [] => pure []
  | element :: rest => do
    let first ← match element with
      | .plain (.string _ name) => pure [name]
      | .plain value | .spread value => do
        Noted.note .unreadableName m value.loc
        pure []
    pure (first ++ (← namesOf m rest))

/-- The names that a value declares by hand. -/
def exclusions (m : ModuleId) (value : Expr) : Noted (List String) :=
  match value.unparenthesized with
  | .object _ properties => keysOf m properties
  | .array _ elements => namesOf m elements
  | _ => pure []

/-- Adds what one property of the object says. -/
def add (m : ModuleId) (d : Descriptor) (property : ObjectProperty) : Noted Descriptor :=
  match property with
  | .method _ (some "setup") parameters => pure { d with setup := some (.ofParameters parameters) }
  | .keyValue _ (some "setup") value =>
    match value.unparenthesized with
    | .callback _ parameters => pure { d with setup := some (.ofParameters parameters) }
    | _ => pure d
  | .keyValue _ (some "props") value => do
    pure { d with excludedProps := d.excludedProps ++ (← exclusions m value) }
  | .keyValue _ (some "events") value | .keyValue _ (some "emits") value => do
    pure { d with excludedEvents := d.excludedEvents ++ (← exclusions m value) }
  | _ => pure d

/-- Reads an object with component options. -/
def ofObject (m : ModuleId) (properties : List ObjectProperty) : Noted Descriptor :=
  properties.foldlM (add m) empty

end Descriptor

namespace Recognized

/-- Whether an expression names a factory, by itself or as a member. -/
def isFactory (options : Options) : Expr → Bool
  | .name _ id => options.factoryNames.contains id
  | .member _ property => options.factoryNames.contains property
  | _ => false

/-- The values of the arguments that are not spread, without parentheses. -/
def plainArguments (arguments : List Argument) : List Expr :=
  arguments.filterMap fun
    | .plain value => some value.unparenthesized
    | .spread _ => none

/-- Reads a call of a factory. -/
def ofCall (m : ModuleId) (typeArguments : List Ty) (arguments : List Argument) :
    Noted Recognized :=
  let explicit := TypeSources.ofArguments typeArguments
  match plainArguments arguments with
  | .callback _ parameters :: .object _ properties :: _ => do
    let d ← Descriptor.ofObject m properties
    pure ⟨explicit.orElse (.ofParameters parameters), d.excludedProps, d.excludedEvents⟩
  | .callback _ parameters :: _ => pure ⟨explicit.orElse (.ofParameters parameters), [], []⟩
  | .object _ properties :: _ => do
    let d ← Descriptor.ofObject m properties
    pure ⟨explicit.orElse (d.setup.getD .missing), d.excludedProps, d.excludedEvents⟩
  | _ => pure ⟨explicit, [], []⟩

/-- Recognizes a variable that is a component. -/
def ofVariable (options : Options) (m : ModuleId) (type : Option Ty) (init : Expr) :
    Noted (Option Recognized) :=
  match init.unparenthesized with
  | .call _ callee typeArguments arguments =>
    if isFactory options callee then some <$> ofCall m typeArguments arguments else pure none
  | .callback _ parameters =>
    match type with
    | some (.reference _ name arguments) =>
      if options.functionalTypeNames.contains name.last then
        pure (some ⟨(TypeSources.ofArguments arguments).orElse (.ofParameters parameters), [], []⟩)
      else pure none
    | _ => pure none
  | _ => pure none

end Recognized

end TypedProps
