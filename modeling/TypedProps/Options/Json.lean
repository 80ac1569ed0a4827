import TypedProps.Json.Reader
import TypedProps.Options
import TypedProps.Text.Quoted

/-!
# `TypedProps.Options.Json`: options as a JSON document

A document names the options it sets, in any order and each at most once, or lists their values in
a fixed order. Options that are not set keep their standard values, and keys that name no option
are passed over. `toJson` writes every option.
-/

set_option autoImplicit false

namespace TypedProps.Options

open TypedProps.Json

/-- The options a document may set. -/
inductive Field where
  | hideWarnings | docMode | factoryNames | functionalTypeNames | frameworkModule
deriving DecidableEq, Repr

/-- The options in the order of their values in a list. -/
def Field.all : List Field :=
  [.hideWarnings, .docMode, .factoryNames, .functionalTypeNames, .frameworkModule]

/-- The option that a key names. -/
def Field.ofKey? : String → Option Field
  | "hideWarnings" => some .hideWarnings
  | "includeJsDoc" | "includeJSDoc" => some .docMode
  | "factoryNames" => some .factoryNames
  | "functionalTypeNames" => some .functionalTypeNames
  | "frameworkModule" => some .frameworkModule
  | _ => none

/-- What is said about a string that is no documentation mode. -/
def invalidModeMessage (mode : String) : String :=
  s!"invalid includeJsDoc value `{mode}`, expected false, \"as-comment\" or \"as-meta-data\""

/-- Reads a documentation mode: its name, or a truth value, of which `true` means a comment. A value
of another shape is read to its end before it is refused. -/
def docModeValue : Reader DocMode := do
  match ← peek with
  | some 't' => advance; word "rue".toList; pure .asComment
  | some 'f' => advance; word "alse".toList; pure .omit
  | some '\x22' =>
    let name ← string
    match DocMode.ofName? name with
    | some mode => pure mode
    | none => throw (.invalid (invalidModeMessage name))
  | _ =>
    skipValue true
    throw .mismatched

/-- Reads the value of an option. -/
def setField (options : Options) : Field → Reader Options
  | .hideWarnings => do pure { options with hideWarnings := ← bool }
  | .docMode => do pure { options with docMode := ← docModeValue }
  | .factoryNames => do pure { options with factoryNames := ← textList }
  | .functionalTypeNames => do pure { options with functionalTypeNames := ← textList }
  | .frameworkModule => do pure { options with frameworkModule := ← text }

/-- Reads the next key of an object, if there is one, and its value. A key that names an option sets
it, unless the option is set. -/
def nextEntry : Options × List Field × Bool → Reader ((Options × List Field × Bool) × Bool)
  | (options, done, first) => do
    match ← nextKey first with
    | none => pure ((options, done, first), false)
    | some key =>
      match Field.ofKey? key with
      | none =>
        colon
        skipValue false
        pure ((options, done, false), true)
      | some field =>
        if field ∈ done then throw .mismatched
        colon
        pure ((← setField options field, field :: done, false), true)

/-- Reads the keys of an object and the values of those that name options. -/
def objectEntries : Reader Options := do
  let (options, _, _) ← loop nextEntry (standard, [], true)
  advance
  pure options

/-- Reads the values of a list, as far as it goes. -/
def listEntries : List Field → Bool → Options → Reader Options
  | [], _, options => pure options
  | field :: rest, first, options => do
    if ← nextElement first then listEntries rest false (← setField options field)
    else pure options

/-- Reads options. -/
def value : Reader Options := do
  match ← peek with
  | some '{' =>
    advance
    objectEntries
  | some '[' =>
    advance
    let options ← listEntries Field.all true standard
    match ← peek with
    | none => throw .truncated
    | some ']' => advance; pure options
    | _ => throw .malformed
  | _ => mismatch

/-- The options that a document sets. -/
def ofJson (text : String) : Except ReadError Options := document value text

/-- Options as a document. -/
def toJson (options : Options) : String :=
  let list (names : List String) : String := "[" ++ ",".intercalate (names.map Text.quote) ++ "]"
  "\x7b\"hideWarnings\":" ++ (if options.hideWarnings then "true" else "false")
    ++ ",\"includeJsDoc\":" ++ Text.quote options.docMode.name
    ++ ",\"factoryNames\":" ++ list options.factoryNames
    ++ ",\"functionalTypeNames\":" ++ list options.functionalTypeNames
    ++ ",\"frameworkModule\":" ++ Text.quote options.frameworkModule ++ "\x7d"

end TypedProps.Options
