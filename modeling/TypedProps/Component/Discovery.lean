import TypedProps.Component.Declaration
import TypedProps.Property.Extraction

/-!
# `TypedProps.Component.Discovery`: the components of a module

The top-level variables of a module that are components, with the properties their types have and
without the names they declare by hand. A component without a type for its props is left alone.
Components may be looked at from another module than the one that declares them: names are then
looked up in the scope of that module, which also decides which types may be shown as written.
-/

set_option autoImplicit false

namespace TypedProps

/-- The variables that a top-level item declares. -/
def Item.variables (item : Item) : List Variable :=
  match item.form with
  | .declaration _ (.variables list) => list
  | _ => []

namespace Program

/-- The properties of a type, if it is written, without some names. -/
def propertiesWithout (p : Program) (origin script : ModuleId) (excluded : List String) :
    Option Ty → Noted (List Property)
  | some type => Property.without excluded <$> p.propertiesOf origin ⟨origin, script⟩ type
  | none => pure []

/-- The component that is described by types; `none` without a type for its props. -/
def componentOf (p : Program) (origin script : ModuleId) (r : Recognized) :
    Noted (Option Component) :=
  match r.sources.props with
  | none => pure none
  | some type => do
    let props ← p.propertiesWithout origin script r.excludedProps (some type)
    let events ← p.propertiesWithout origin script r.excludedEvents r.sources.events
    let slots ← p.propertiesWithout origin script [] r.sources.slots
    pure (some ⟨props, events, slots⟩)

/-- The component that a variable is, under its name. -/
def componentOfVariable (p : Program) (options : Options) (origin script : ModuleId)
    (v : Variable) : Noted (Option (String × Component)) :=
  match v.pattern.name, v.init with
  | some name, some init => do
    match ← Recognized.ofVariable options script v.pattern.type init with
    | some r => do pure ((← p.componentOf origin script r).map (name, ·))
    | none => pure none
  | _, _ => pure none

/-- The components among some variables, in order. -/
def componentsAmong (p : Program) (options : Options) (origin script : ModuleId) :
    List Variable → Noted (List (String × Component))
  | [] => pure []
  | v :: rest => do
    let first ← p.componentOfVariable options origin script v
    pure (first.toList ++ (← componentsAmong p options origin script rest))

/-- The components that the items of the module `script` declare, as seen from module `origin`. -/
def componentsOf (p : Program) (options : Options) (origin script : ModuleId)
    (items : List Item) : Noted ComponentMap :=
  ComponentMap.ofList <$> p.componentsAmong options origin script (items.flatMap Item.variables)

end Program

/-- The diagnostics that a user wants to see. -/
def Options.shown (options : Options) (diagnostics : List Diagnostic) : List Diagnostic :=
  if options.hideWarnings then diagnostics.filter (·.severity != .warning) else diagnostics

end TypedProps
