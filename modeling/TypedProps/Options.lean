/-!
# `TypedProps.Options`: what a user may choose

Which calls and types declare components, where documentation goes in a patch, which module of the
framework a patch refers to, and whether warnings are shown.
-/

set_option autoImplicit false

namespace TypedProps

/-- Where the documentation of a property goes in a patch. -/
inductive DocMode where
  | omit
  /-- Into a comment in front of the property. -/
  | asComment
  /-- Into the record of the property. -/
  | asMetadata
deriving DecidableEq, Repr, Inhabited

namespace DocMode

/-- The spelling of a mode. -/
def name : DocMode → String
  | .omit => "false"
  | .asComment => "as-comment"
  | .asMetadata => "as-meta-data"

/-- The mode that a word spells. -/
def ofName? : String → Option DocMode
  | "false" | "none" | "omit" => some .omit
  | "as-comment" => some .asComment
  | "as-meta-data" | "as-metadata" => some .asMetadata
  | _ => none

@[simp] theorem ofName?_name (mode : DocMode) : ofName? mode.name = some mode := by
  cases mode <;> rfl

end DocMode

/-- The choices of a user. -/
structure Options where
  hideWarnings : Bool
  docMode : DocMode
  /-- Names of functions whose calls declare components. -/
  factoryNames : List String
  /-- Names of types whose values are components. -/
  functionalTypeNames : List String
  /-- The module that a patch imports its helper type from. -/
  frameworkModule : String
deriving DecidableEq, Repr

namespace Options

/-- The choices of a user who makes none. -/
def standard : Options where
  hideWarnings := false
  docMode := .omit
  factoryNames := ["defineComponent"]
  functionalTypeNames := ["FunctionalComponent"]
  frameworkModule := "vue"

instance : Inhabited Options := ⟨standard⟩

end Options

end TypedProps
