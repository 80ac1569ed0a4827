import TypedProps.Keyed
import TypedProps.Tag

/-!
# `TypedProps.Property`: the properties of a component

A property is a named member of an object type with what is known about it. Props, events and slots
are lists of properties.
-/

set_option autoImplicit false

namespace TypedProps

/-- A declared property, event or slot. -/
structure Property where
  name : String
  /-- `none` when the declared type has no tags. -/
  type : Option ResolvedType
  required : Bool
  /-- The expression of a default value, as it is written. -/
  default : Option String
  /-- The lines of the documentation. -/
  doc : List String
deriving DecidableEq, Repr, Inhabited

/-- What is known about a component. -/
structure Component where
  props : List Property
  events : List Property
  slots : List Property
deriving DecidableEq, Repr, Inhabited

/-- Components by the names they are bound to. -/
abbrev ComponentMap := List (String × Component)

namespace ComponentMap

/-- Gives a name a component. A name keeps its first place and its last component. -/
def insert (map : ComponentMap) (name : String) (component : Component) : ComponentMap :=
  Keyed.put name component map

/-- The map of a list of components. -/
def ofList (list : List (String × Component)) : ComponentMap :=
  list.foldl (fun map (name, component) => map.insert name component) []

end ComponentMap

namespace Property

/-- Keeps the first property of each name. -/
def firsts : List Property → List Property
  | [] => []
  | p :: rest => p :: (firsts rest).filter (·.name != p.name)

/-- Leaves out the properties with certain names. -/
def without (names : List String) (properties : List Property) : List Property :=
  properties.filter fun p => !names.contains p.name

end Property

end TypedProps
