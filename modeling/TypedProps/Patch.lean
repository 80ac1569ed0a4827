import TypedProps.Doc
import TypedProps.Options
import TypedProps.Property
import TypedProps.Text.Quoted

/-!
# `TypedProps.Patch`: the statements that declare a component at run time

A patch is a list of steps. The first two make sure that the component has an object of props and
something to add events to; then each prop is defined with its record, and the events are added. The
steps are data; `Step.text` writes each one as a statement.
-/

set_option autoImplicit false

namespace TypedProps

namespace Tag

/-- Whether a value of this tag cannot be checked at run time at all. -/
def isUncheckable : Tag → Bool
  | .any | .named _ false => true
  | _ => false

/-- The constructors that values of some tags have, each once; none if one of them cannot be
checked. -/
def constructors (tags : List Tag) : List String :=
  if tags.any isUncheckable then [] else (tags.filterMap constructor?).eraseDups

end Tag

namespace Patch

open TypedProps.Text

/-- The record that describes a prop at run time. -/
structure Record where
  /-- The constructors of its values; without any, every value is accepted. -/
  constructors : List String
  /-- The type of its values, in full. -/
  shown : Option String
  required : Bool
  /-- The expression of its default value. -/
  default : Option String
  /-- The lines of its documentation. -/
  doc : List String
deriving DecidableEq, Repr, Inhabited

/-- A step of a patch. -/
inductive Step where
  /-- Makes the props an object: an empty one where there are none, and one without records from a
  list of names. -/
  | ensureProps
  /-- Makes the events a list where there are none. -/
  | ensureEvents
  /-- Defines a prop. The lines stand in a comment in front of it. -/
  | defineProp (comment : List String) (name : String) (record : Record)
  /-- Adds events to a list, or as keys to an object. -/
  | addEvents (names : List String)
deriving DecidableEq, Repr, Inhabited

/-- The record of a prop. -/
def recordOf (options : Options) (prop : Property) : Record where
  constructors := (prop.type.map fun type => Tag.constructors type.tags).getD []
  shown := prop.type.bind (·.shown)
  required := prop.required
  default := prop.default
  doc := if options.docMode == .asMetadata then prop.doc else []

/-- The step that defines a prop. -/
def stepOf (options : Options) (prop : Property) : Step :=
  .defineProp (if options.docMode == .asComment then prop.doc else []) prop.name
    (recordOf options prop)

/-- The steps that declare a component. -/
def steps (options : Options) (component : Component) : List Step :=
  [.ensureProps, .ensureEvents]
    ++ component.props.map (stepOf options)
    ++ (if component.events.isEmpty then [] else [.addEvents (component.events.map (·.name))])

/-- The constructors of a record as an expression. -/
def constructorsText : List String → String
  | [] => "null"
  | [name] => name
  | names => "[" ++ ", ".intercalate names ++ "]"

/-- The value of a record's type as an expression. The type in full is an assertion on it. -/
def typeExpression (frameworkModule : String) (record : Record) : String :=
  constructorsText record.constructors ++
    match record.shown with
    | some shown => " as import(" ++ quote frameworkModule ++ ").PropType<" ++ shown ++ ">"
    | none => ""

/-- The lines of a record as the value of a property descriptor. -/
def recordText (frameworkModule : String) (record : Record) : String :=
  "  configurable: true,\n  enumerable: true,\n  writable: true,\n  value: \x7b\n"
    ++ "    type: " ++ typeExpression frameworkModule record ++ ",\n"
    ++ "    required: " ++ (if record.required then "true" else "false") ++ ",\n"
    ++ (match record.default with
      | some value => "    default: " ++ value ++ ",\n"
      | none => "")
    ++ (if record.doc.isEmpty then ""
      else "    doc: [" ++ ", ".intercalate (record.doc.map quote) ++ "],\n")
    ++ "  \x7d,\n"

/-- A step as a statement about the component bound to `name`. -/
def Step.text (frameworkModule name : String) : Step → String
  | .ensureProps =>
    s!"if ({name}.props === undefined) \x7b\n  {name}.props = \x7b\x7d;\n"
      ++ s!"\x7d else if (Array.isArray({name}.props)) \x7b\n"
      ++ s!"  {name}.props = Object.fromEntries({name}.props.map((key) => [key, null]));\n\x7d\n"
  | .ensureEvents =>
    s!"if ({name}.emits === undefined) \x7b\n  {name}.emits = [];\n\x7d\n"
  | .defineProp comment prop record =>
    (if comment.isEmpty then "" else Doc.block comment)
      ++ "Object.defineProperty(" ++ name ++ ".props, " ++ quote prop ++ ", \x7b\n"
      ++ recordText frameworkModule record ++ "\x7d);\n"
  | .addEvents names =>
    s!"if (Array.isArray({name}.emits)) \x7b\n"
      ++ "  " ++ name ++ ".emits.push(" ++ ", ".intercalate (names.map quote)
      ++ ");\n\x7d else \x7b\n"
      ++ String.join (names.map fun event =>
        "  " ++ name ++ ".emits[" ++ quote event ++ "] = null;\n")
      ++ "\x7d\n"

/-- The patch of one component. -/
def text (options : Options) (name : String) (component : Component) : String :=
  String.join ((steps options component).map (Step.text options.frameworkModule name))

/-- The patches of several components, with an empty line between them. -/
def textAll (options : Options) (components : ComponentMap) : String :=
  "\n".intercalate (components.map fun (name, component) => text options name component)

end Patch

end TypedProps
