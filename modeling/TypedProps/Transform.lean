import TypedProps.Component.Discovery
import TypedProps.Patch
import TypedProps.Program.Load

/-!
# `TypedProps.Transform`: a module with its patch

Transforming a module finds its components and appends their patch to its text. A module without
components stays as it is.
-/

set_option autoImplicit false

namespace TypedProps

/-- The outcome of transforming a module. -/
structure Transformed where
  /-- The text of the module with the patch behind it. -/
  code : String
  patch : String
  components : ComponentMap
  diagnostics : List Diagnostic
deriving Inhabited

namespace Program

/-- Transforms a module of a program. -/
def transformModule (p : Program) (options : Options) (id : ModuleId) (m : LoadedModule) :
    Transformed :=
  let found := p.componentsOf options id id m.items
  let patch := if found.value.isEmpty then "" else Patch.textAll options found.value
  { code := if found.value.isEmpty then m.text else m.text ++ "\n" ++ patch
    patch
    components := found.value
    diagnostics := options.shown found.notes }

end Program

/-- Loads a file with all it depends on, and transforms it. -/
def transformFile (sources : Sources) (options : Options) (path : String) :
    Except LoadError (Program × Transformed) := do
  let p ← Program.load sources path
  match p.module? 0 with
  | some m => pure (p, p.transformModule options 0 m)
  | none => throw (.unreadable path)

end TypedProps
