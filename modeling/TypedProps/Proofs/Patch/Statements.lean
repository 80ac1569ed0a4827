import TypedProps.Patch
import TypedProps.Proofs.Runtime.Syntax

/-!
# `TypedProps.Proofs.Patch.Statements`: a patch as statements

The steps of a patch are written as text. Here each of them is a list of statements, and
`text_eq_scriptText` says that the text of a patch is that of its statements.
-/

set_option autoImplicit false

namespace TypedProps.Patch

open TypedProps.Text TypedProps.Runtime

/-- A property of the component bound to a name. -/
def slot (name key : String) : Expression := .member (.name name) key

/-- The call `Array.isArray(e)`. -/
def isArrayCall (e : Expression) : Expression := .call (.member (.name "Array") "isArray") [e]

/-- The constructors of a record as an expression. -/
def constructorsExpression : List String → Expression
  | [] => .null
  | [name] => .name name
  | names => .array (names.map .name)

/-- The value of a record's type. -/
def typeOf (frameworkModule : String) (record : Record) : Expression :=
  match record.shown with
  | some shown =>
    .asserted (constructorsExpression record.constructors)
      ("import(" ++ quote frameworkModule ++ ").PropType<" ++ shown ++ ">")
  | none => constructorsExpression record.constructors

/-- The property for a default value. -/
def defaultFields : Option String → List Field
  | some text => [.mk "default" (.source text)]
  | none => []

/-- The property for documentation. -/
def docFields : List String → List Field
  | [] => []
  | lines => [.mk "doc" (.array (lines.map .string))]

/-- The properties of a record. -/
def recordFields (frameworkModule : String) (record : Record) : List Field :=
  .mk "type" (typeOf frameworkModule record) :: .mk "required" (.boolean record.required)
    :: (defaultFields record.default ++ docFields record.doc)

/-- The call that defines a prop with a record. -/
def defineCall (frameworkModule name prop : String) (record : Record) : Expression :=
  .call (.member (.name "Object") "defineProperty")
    [slot name "props", .string prop,
      .object [.mk "configurable" (.boolean true), .mk "enumerable" (.boolean true),
        .mk "writable" (.boolean true),
        .mk "value" (.object (recordFields frameworkModule record))]]

/-- A step as statements about the component bound to `name`. -/
def statementsOf (frameworkModule name : String) : Step → List Statement
  | .ensureProps =>
    [.branch (.equals (slot name "props") (.name "undefined"))
      [.assign (slot name "props") (.object [])]
      [.branch (isArrayCall (slot name "props"))
        [.assign (slot name "props") (.call (.member (.name "Object") "fromEntries")
          [.call (.member (slot name "props") "map")
            [.arrow "key" (.array [.name "key", .null])]])]
        []]]
  | .ensureEvents =>
    [.branch (.equals (slot name "emits") (.name "undefined"))
      [.assign (slot name "emits") (.array [])] []]
  | .defineProp comment prop record =>
    (if comment.isEmpty then [] else [.comment comment])
      ++ [.evaluate (defineCall frameworkModule name prop record)]
  | .addEvents names =>
    [.branch (isArrayCall (slot name "emits"))
      [.evaluate (.call (.member (slot name "emits") "push") (names.map .string))]
      (names.map fun event => .assign (.index (slot name "emits") (.string event)) .null)]

/-- The patch of one component. -/
def statements (options : Options) (name : String) (component : Component) : List Statement :=
  (steps options component).flatMap (statementsOf options.frameworkModule name)

/-! ### The text of the statements -/

attribute [local simp] Expression.text textsOf fieldsText Statement.inner otherwiseText scriptText

theorem textsOf_eq (indent : String) (list : List Expression) :
    textsOf indent list = list.map (Expression.text indent) := by
  induction list with
  | nil => rfl
  | cons e rest ih => rw [textsOf, ih, List.map_cons]

/-- Strings are written in quotes. -/
theorem text_comp_string (indent : String) : Expression.text indent ∘ Expression.string = quote :=
  rfl

theorem scriptText_append (indent : String) (first rest : List Statement) :
    scriptText indent (first ++ rest) = scriptText indent first ++ scriptText indent rest := by
  induction first with
  | nil => simp
  | cons s more ih => cases s <;> simp [ih, String.append_assoc]

/-- Constructors are written as their expression. -/
theorem text_constructorsExpression (indent : String) (names : List String) :
    (constructorsExpression names).text indent = constructorsText names := by
  match names with
  | [] => rfl
  | [name] => rfl
  | first :: second :: rest =>
    simp [constructorsExpression, constructorsText, textsOf_eq, Function.comp_def]

/-- A type is written as its expression. -/
theorem text_typeOf (indent frameworkModule : String) (record : Record) :
    (typeOf frameworkModule record).text indent = typeExpression frameworkModule record := by
  unfold typeOf typeExpression
  cases record.shown with
  | none => simp [text_constructorsExpression]
  | some shown =>
    apply String.toList_inj.mp
    simp [text_constructorsExpression]

/-- The properties of a record are written line by line. -/
theorem recordText_eq (frameworkModule : String) (record : Record) :
    recordText frameworkModule record
      = "  configurable: true,\n  enumerable: true,\n  writable: true,\n  value: \x7b\n"
        ++ fieldsText "    " (recordFields frameworkModule record) ++ "  \x7d,\n" := by
  unfold recordText recordFields
  simp only [String.append_assoc]
  congr 1
  apply String.toList_inj.mp
  cases record.default <;> cases record.doc <;>
    simp [defaultFields, docFields, text_typeOf, textsOf_eq, text_comp_string]

/-- The definition of a prop is written over several lines. -/
theorem text_defineCall (frameworkModule name prop : String) (record : Record) :
    (defineCall frameworkModule name prop record).text ""
      = "Object.defineProperty(" ++ name ++ ".props, " ++ quote prop ++ ", \x7b\n"
        ++ recordText frameworkModule record ++ "\x7d)" := by
  obtain ⟨field, rest, fields⟩ :
      ∃ field rest, recordFields frameworkModule record = field :: rest := ⟨_, _, rfl⟩
  rw [recordText_eq, fields]
  have deeper : "" ++ "  " ++ "  " = "    " := by decide
  simp only [defineCall, fields, Expression.text, textsOf, slot, fieldsText.eq_2, deeper]
  generalize fieldsText "    " (field :: rest) = lines
  apply String.toList_inj.mp
  simp

/-- The events of an object are written line by line. -/
theorem scriptText_assigned (indent name : String) (names : List String) :
    scriptText indent
        (names.map fun event => .assign (.index (slot name "emits") (.string event)) .null)
      = String.join (names.map fun event =>
        indent ++ name ++ ".emits[" ++ quote event ++ "] = null;\n") := by
  induction names with
  | nil => simp
  | cons event rest ih =>
    apply String.toList_inj.mp
    rw [List.map_cons, scriptText, ih]
    · simp [slot]
    · intro lines again
      cases again

/-- A step is written as its statements. -/
theorem text_step (frameworkModule name : String) {step : Step} (some : step ≠ .addEvents []) :
    step.text frameworkModule name = scriptText "" (statementsOf frameworkModule name step) := by
  -- Both sides are compared as characters, where it does not matter how literals are divided.
  apply String.toList_inj.mp
  unfold Step.text
  cases step with
  | ensureProps =>
    simp only [statementsOf, scriptText, Statement.inner, otherwiseText, Expression.text, textsOf,
      slot, isArrayCall]
    simp [toString]
  | ensureEvents =>
    simp only [statementsOf, scriptText, Statement.inner, otherwiseText, Expression.text, textsOf,
      slot]
    simp [toString]
  | defineProp comment prop record =>
    simp only [statementsOf, scriptText_append, scriptText, Statement.inner, text_defineCall]
    cases comment <;> simp
  | addEvents names =>
    cases names with
    | nil => exact absurd rfl some
    | cons event rest =>
      have deeper : "" ++ "  " = "  " := by decide
      have assigned := scriptText_assigned "  " name rest
      simp only [slot] at assigned
      simp only [statementsOf, List.map_cons, scriptText, Statement.inner, otherwiseText, deeper,
        assigned, isArrayCall, slot, Expression.text, textsOf, textsOf_eq, List.map_map,
        text_comp_string]
      simp [toString]

/-- The text of a patch is that of its statements. -/
theorem text_eq_scriptText (options : Options) (name : String) (component : Component) :
    text options name component = scriptText "" (statements options name component) := by
  have all (steps : List Step) (some : ∀ step ∈ steps, step ≠ .addEvents []) :
      String.join (steps.map (Step.text options.frameworkModule name))
        = scriptText "" (steps.flatMap (statementsOf options.frameworkModule name)) := by
    induction steps with
    | nil => simp
    | cons step rest ih =>
      rw [List.map_cons, List.flatMap_cons, scriptText_append, String.join_cons,
        text_step _ _ (some step List.mem_cons_self),
        ih fun other mem => some other (List.mem_cons_of_mem _ mem)]
  refine all _ fun step mem => ?_
  rintro rfl
  unfold steps at mem
  cases component.events <;> simp [stepOf] at mem

end TypedProps.Patch
