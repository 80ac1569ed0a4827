import TypedProps.Proofs.Component.Shapes
import TypedProps.Proofs.Pass.Components
import TypedProps.Proofs.Program.Scripts

/-!
# `TypedProps.Proofs.Component.Bystanders`: variables that are no component

A variable that is not recorded as a component contributes nothing to the components of its module.
Nothing is reported about it either, unless it calls a factory with options that list names in a
form that cannot be read (`Variable.complaints`): the options are read before it is known whether
there is a type for the props. `resolveComponents_without` compares the module with and without such
a variable.

* `problems_ofVariable`: what is noted while a variable is recognized are its complaints.
* `problems_componentOfVariable`: nothing else is noted about a variable that is not recorded.
* `componentsAmong_congr`: variables that differ in their positions only, in programs of one outline,
  are the same components with the same problems. Taking a variable out of a script moves what
  stands behind it.
-/

set_option autoImplicit false

namespace TypedProps

/-! ### Names that cannot be read -/

/-- What is wrong with a property of an object that lists names. -/
def ObjectProperty.complaint? : ObjectProperty → Option Problem
  | .spread _ => some .spreadDeclaration
  | .keyValue _ none _ | .method _ none _ | .bare _ none => some .computedDeclaration
  | _ => none

/-- What is wrong with an element of a list of names. -/
def Argument.complaint? : Argument → Option Problem
  | .plain (.string _ _) => none
  | _ => some .unreadableName

/-- What is wrong with a value that lists names. -/
def Expr.complaints (value : Expr) : List Problem :=
  match value.unparenthesized with
  | .object _ properties => properties.filterMap ObjectProperty.complaint?
  | .array _ elements => elements.filterMap Argument.complaint?
  | _ => []

/-- What is wrong with the names that a property lists, if it is one that lists names. -/
def ObjectProperty.complaints : ObjectProperty → List Problem
  | .keyValue _ (some key) value =>
    if key ∈ ["props", "events", "emits"] then value.complaints else []
  | _ => []

/-- The options with which an expression calls a factory; none if it is no such call. -/
def Expr.factoryOptions (options : Options) (e : Expr) : List ObjectProperty :=
  match e.unparenthesized with
  | .call _ callee _ arguments =>
    if Recognized.isFactory options callee then
      match Recognized.plainArguments arguments with
      | .callback _ _ :: others => optionsBehind others
      | .object _ properties :: _ => properties
      | _ => []
    else []
  | _ => []

/-- What is wrong with the names that the value of a variable lists by hand. -/
def Variable.complaints (options : Options) (v : Variable) : List Problem :=
  match v.pattern.name, v.init with
  | some _, some init => (init.factoryOptions options).flatMap ObjectProperty.complaints
  | _, _ => []

/-- The problems that are noted with a value. -/
def Noted.problems {α : Type} (a : Noted α) : List Problem := a.notes.map (·.problem)

section

variable {α β : Type}

@[simp] theorem Noted.problems_pure (a : α) : (pure a : Noted α).problems = [] := rfl

@[simp] theorem Noted.problems_note (problem : Problem) (m : ModuleId) (span : Span) :
    (Noted.note problem m span).problems = [problem] := rfl

@[simp] theorem Noted.problems_bind (a : Noted α) (f : α → Noted β) :
    (a >>= f).problems = a.problems ++ (f a.value).problems := List.map_append

@[simp] theorem Noted.problems_map (f : α → β) (a : Noted α) : (f <$> a).problems = a.problems := by
  simp [Noted.problems, Functor.map]

end

namespace Descriptor

theorem problems_keysOf (m : ModuleId) (properties : List ObjectProperty) :
    (keysOf m properties).problems = properties.filterMap ObjectProperty.complaint? := by
  induction properties with
  | nil => rfl
  | cons property rest ih =>
    rw [keysOf.eq_def, List.filterMap_cons]
    cases property with
    | spread dots => simp [ih, ObjectProperty.complaint?]
    | keyValue loc key _ | method loc key _ | bare loc key =>
      cases key <;> simp [ih, ObjectProperty.complaint?]

theorem problems_namesOf (m : ModuleId) (elements : List Argument) :
    (namesOf m elements).problems = elements.filterMap Argument.complaint? := by
  induction elements with
  | nil => rfl
  | cons element rest ih =>
    rw [namesOf.eq_def, List.filterMap_cons]
    cases element with
    | spread value => simp [ih, Argument.complaint?]
    | plain value => cases value <;> simp [ih, Argument.complaint?]

theorem problems_exclusions (m : ModuleId) (value : Expr) :
    (exclusions m value).problems = value.complaints := by
  unfold exclusions Expr.complaints
  cases value.unparenthesized with
  | object loc properties => exact problems_keysOf m properties
  | array loc elements => exact problems_namesOf m elements
  | name | member | call | callback | string | template | paren | other => rfl

/-- A property of the options is read with the problems of the names that it lists. -/
theorem problems_add (m : ModuleId) (d : Descriptor) (property : ObjectProperty) :
    (add m d property).problems = property.complaints := by
  unfold add
  split
  · rfl
  · rename_i value
    rw [show (ObjectProperty.keyValue _ (some "setup") value).complaints = [] from rfl]
    cases value.unparenthesized <;> rfl
  · simp [problems_exclusions, ObjectProperty.complaints]
  · simp [problems_exclusions, ObjectProperty.complaints]
  · simp [problems_exclusions, ObjectProperty.complaints]
  · rename_i notMethod notSetup notProps notEvents notEmits
    rw [Noted.problems_pure]
    unfold ObjectProperty.complaints
    split
    · rename_i loc key value
      -- The keys that list names are those of the cases before.
      rw [if_neg]
      simp only [List.mem_cons, List.not_mem_nil, or_false]
      rintro (rfl | rfl | rfl)
      · exact notProps _ _ rfl
      · exact notEvents _ _ rfl
      · exact notEmits _ _ rfl
    · rfl

theorem problems_ofObject (m : ModuleId) (properties : List ObjectProperty) :
    (ofObject m properties).problems = properties.flatMap ObjectProperty.complaints := by
  have along (d : Descriptor) : (properties.foldlM (add m) d).problems
      = properties.flatMap ObjectProperty.complaints := by
    induction properties generalizing d with
    | nil => rfl
    | cons property rest ih =>
      rw [List.foldlM_cons, Noted.problems_bind, problems_add, ih, List.flatMap_cons]
  exact along .empty

end Descriptor

namespace Recognized

/-- A variable is recognized with the problems of the names that its value lists by hand. -/
theorem problems_ofVariable (options : Options) (m : ModuleId) (type : Option Ty) (init : Expr) :
    (ofVariable options m type init).problems
      = (init.factoryOptions options).flatMap ObjectProperty.complaints := by
  unfold ofVariable Expr.factoryOptions
  -- Names are listed by hand in the options of a call only.
  cases init.unparenthesized with
  | call loc callee typeArguments arguments =>
    dsimp only
    split
    · rw [Noted.problems_map]
      unfold ofCall
      cases plainArguments arguments with
      | nil => rfl
      | cons first others =>
        cases first with
        | callback loc parameters =>
          cases others with
          | nil => rfl
          | cons second rest =>
            cases second <;> simp [optionsBehind, Descriptor.problems_ofObject]
        | object loc properties => simp [Descriptor.problems_ofObject]
        | name | member | call | array | string | template | paren | other => rfl
    · rfl
  | callback loc parameters =>
    dsimp only
    split
    · split <;> rfl
    · rfl
  | name | member | object | array | string | template | paren | other => rfl

end Recognized

namespace Program

variable {p p' : Program} {options : Options} {origin script : ModuleId}

/-! ### Variables that are not recorded -/

/-- Types describe a component exactly if there is one for the props, and without one nothing is
noted. -/
theorem componentOf_eq_pure {r : Recognized}
    (unrecorded : (p.componentOf origin script r).value = none) :
    p.componentOf origin script r = pure none := by
  unfold componentOf at unrecorded ⊢
  cases props : r.sources.props with
  | none => rfl
  | some type => simp [props] at unrecorded

/-- About a variable that is not recorded, only its complaints are noted. -/
theorem problems_componentOfVariable {v : Variable}
    (unrecorded : (p.componentOfVariable options origin script v).value = none) :
    (p.componentOfVariable options origin script v).problems = v.complaints options := by
  obtain ⟨⟨name, type⟩, init⟩ := v
  unfold componentOfVariable at unrecorded ⊢
  unfold Variable.complaints
  cases name with
  | none => rfl
  | some name =>
    cases init with
    | none => rfl
    | some init =>
      dsimp only at unrecorded ⊢
      rw [Noted.problems_bind, Recognized.problems_ofVariable]
      rw [Noted.bind_value] at unrecorded
      -- What is recognized has no type for the props, or nothing is recognized.
      cases recognized : (Recognized.ofVariable options script type init).value with
      | none => simp
      | some r =>
        rw [recognized, Noted.bind_value, Noted.pure_value, Option.map_eq_none_iff] at unrecorded
        dsimp only
        rw [componentOf_eq_pure unrecorded]
        simp

/-! ### Variables at other places -/

/-- The components among some variables are noted with what is noted about each, in order. -/
theorem problems_componentsAmong (list : List Variable) :
    (p.componentsAmong options origin script list).problems
      = list.flatMap fun v => (p.componentOfVariable options origin script v).problems := by
  induction list with
  | nil => rfl
  | cons v rest ih =>
    rw [componentsAmong, List.flatMap_cons, ← ih]
    simp

/-- In the outline of a program, variables without positions are the same components with the same
problems. -/
theorem componentsAmong_outline (p : Program) (options : Options) (origin script : ModuleId)
    (list : List Variable) :
    (p.outline.componentsAmong options origin script (list.map (Variable.moved Span.forget))).value
        = (p.componentsAmong options origin script list).value ∧
      (p.outline.componentsAmong options origin script
          (list.map (Variable.moved Span.forget))).problems
        = (p.componentsAmong options origin script list).problems := by
  have moved := p.embeds_outline.componentsAmong_moved options origin script list
  have same : p.outline.componentsAmong options origin script
        (list.map (Variable.moved Span.forget))
      = Relocation.forget.noted (p.componentsAmong options origin script list) := moved
  rw [same]
  refine ⟨rfl, ?_⟩
  show ((p.componentsAmong options origin script list).notes.map _).map _ = _
  rw [List.map_map]
  rfl

/-- Variables that differ in their positions only are the same components with the same problems, in
programs of one outline. -/
theorem componentsAmong_congr (options : Options) (origin script : ModuleId)
    (alike : p'.outline = p.outline) {list list' : List Variable}
    (same : list'.map (Variable.moved Span.forget) = list.map (Variable.moved Span.forget)) :
    (p'.componentsAmong options origin script list').value
        = (p.componentsAmong options origin script list).value ∧
      (p'.componentsAmong options origin script list').problems
        = (p.componentsAmong options origin script list).problems := by
  obtain ⟨value, problems⟩ := p.componentsAmong_outline options origin script list
  obtain ⟨value', problems'⟩ := p'.componentsAmong_outline options origin script list'
  rw [alike, same] at value' problems'
  exact ⟨value'.symm.trans value, problems'.symm.trans problems⟩

end Program

/-! ### A module without the variable -/

/-- A variable is no component: it has none of the shapes, or its shape has no type for the props.
-/
def Variable.IsBystander (options : Options) (v : Variable) : Prop :=
  v.pattern.name ≠ none → ∀ explicit parameters properties,
    Shape options v explicit parameters properties → (typeSources explicit parameters).props = none

namespace Program

variable {p : Program} {options : Options} {origin script : ModuleId}

/-- No component is recorded for a variable exactly if it is none. -/
theorem componentOfVariable_eq_none_iff (p : Program) (origin script : ModuleId) {v : Variable} :
    (p.componentOfVariable options origin script v).value = none ↔ v.IsBystander options := by
  obtain ⟨⟨name, type⟩, init⟩ := v
  cases name with
  | none => exact ⟨fun _ named => absurd rfl named, fun _ => rfl⟩
  | some name =>
    -- Only a recognized variable with a type for its props is recorded, and only the shapes are
    -- recognized.
    constructor
    · intro unrecorded _ explicit parameters properties shape
      rw [p.value_componentOfVariable origin script rfl shape, Option.map_eq_none_iff] at unrecorded
      unfold componentOf recognizedBy at unrecorded
      cases props : (typeSources explicit parameters).props with
      | none => rfl
      | some type => simp [props] at unrecorded
    · intro bystander
      cases init with
      | none => rfl
      | some init =>
        cases recognized : (Recognized.ofVariable options script type init).value with
        | none =>
          unfold componentOfVariable
          dsimp only
          rw [Noted.bind_value, recognized]
          rfl
        | some r =>
          obtain ⟨explicit, parameters, properties, shape⟩ :=
            Recognized.exists_shape_of_ofVariable ⟨some name, type⟩ recognized
          have props := bystander (Option.some_ne_none name) _ _ _ shape
          rw [p.value_componentOfVariable origin script rfl shape, Option.map_eq_none_iff]
          simp [componentOf, recognizedBy, props]

end Program

/-- The code and the message of a problem. -/
def Problem.said (problem : Problem) : Code × String := (problem.code, problem.message)

/-- The code and the message of a diagnostic. -/
def Diagnostic.said (d : Diagnostic) : Code × String := (d.code, d.message)

/-- What is shown says what the problems say, unless warnings are hidden. -/
theorem Options.map_said_shown (options : Options) {α : Type} (noted : Noted α) :
    (options.shown noted.notes).map Diagnostic.said
      = if options.hideWarnings then [] else noted.problems.map Problem.said := by
  cases hidden : options.hideWarnings with
  | true => rw [Pass.shown_eq_nil hidden]; rfl
  | false =>
    rw [if_neg Bool.false_ne_true, Noted.problems, List.map_map]
    unfold Options.shown
    rw [if_neg (by simp [hidden])]
    rfl

namespace Pass

variable {p p' : Program} {options : Options} {origin script : ModuleId}

/-- A pass over a module, and one over the same module without a variable that is no component. The
programs have one outline, because an outline has no variables in it, and the other variables differ
in their positions only.

Both find the same components. What they report is the same, except for the complaints about the
names that the variable lists by hand, which the second one lacks. So the codes and messages are the
same exactly if there are no complaints, or warnings are hidden. -/
theorem resolveComponents_without (origin script : ModuleId) (alike : p'.outline = p.outline)
    {items items' : List Item} {before after : List Variable} {v : Variable}
    (listed : items.flatMap Item.variables = before ++ v :: after)
    (others : (items'.flatMap Item.variables).map (Variable.moved Span.forget)
      = (before ++ after).map (Variable.moved Span.forget))
    (bystander : v.IsBystander options) :
    ∃ components reported reported' ahead behind,
      resolveComponents p options origin script items fresh
        = some (components, ⟨reported, [], []⟩) ∧
      resolveComponents p' options origin script items' fresh
        = some (components, ⟨reported', [], []⟩) ∧
      reported.map Diagnostic.said
        = ahead ++ (if options.hideWarnings then [] else (v.complaints options).map Problem.said)
            ++ behind ∧
      reported'.map Diagnostic.said = ahead ++ behind ∧
      (reported'.map Diagnostic.said = reported.map Diagnostic.said ↔
        options.hideWarnings = true ∨ v.complaints options = []) := by
  have unrecorded := (p.componentOfVariable_eq_none_iff origin script).mpr bystander
  obtain ⟨sameValue, sameProblems⟩ :=
    Program.componentsAmong_congr options origin script alike others
  -- The variable adds no component, and its complaints stand between those about the others.
  have noComponent : (p.componentsAmong options origin script (items.flatMap Item.variables)).value
      = (p.componentsAmong options origin script (before ++ after)).value := by
    rw [listed, Program.value_componentsAmong, Program.value_componentsAmong,
      List.filterMap_append, List.filterMap_append, List.filterMap_cons, unrecorded]
  have between : (p.componentsAmong options origin script (items.flatMap Item.variables)).problems
      = (p.componentsAmong options origin script before).problems ++ v.complaints options
          ++ (p.componentsAmong options origin script after).problems := by
    simp only [listed, Program.problems_componentsAmong, List.flatMap_append, List.flatMap_cons,
      Program.problems_componentOfVariable unrecorded, List.append_assoc]
  have around : (p.componentsAmong options origin script (before ++ after)).problems
      = (p.componentsAmong options origin script before).problems
          ++ (p.componentsAmong options origin script after).problems := by
    simp only [Program.problems_componentsAmong, List.flatMap_append]
  have sameComponents : (p'.componentsOf options origin script items').value
      = (p.componentsOf options origin script items).value := by
    unfold Program.componentsOf
    rw [Noted.map_value, Noted.map_value, sameValue, noComponent]
  have said : (reported p options origin (script, items)).map Diagnostic.said
      = if options.hideWarnings then [] else
          (p.componentsAmong options origin script (items.flatMap Item.variables)).problems.map
            Problem.said := by
    rw [← Noted.problems_map ComponentMap.ofList]
    exact options.map_said_shown _
  have said' : (reported p' options origin (script, items')).map Diagnostic.said
      = if options.hideWarnings then [] else
          (p'.componentsAmong options origin script (items'.flatMap Item.variables)).problems.map
            Problem.said := by
    rw [← Noted.problems_map ComponentMap.ofList]
    exact options.map_said_shown _
  rw [between] at said
  rw [sameProblems, around] at said'
  have runs' := resolveComponents_fresh p' options origin script items'
  rw [sameComponents] at runs'
  refine ⟨_, _, _,
    if options.hideWarnings then [] else
      (p.componentsAmong options origin script before).problems.map Problem.said,
    if options.hideWarnings then [] else
      (p.componentsAmong options origin script after).problems.map Problem.said,
    resolveComponents_fresh p options origin script items, runs', ?_⟩
  rw [said, said']
  cases hidden : options.hideWarnings with
  | true => simp
  | false => simp

/-- The variable `plain = defineComponent({ props: ["a"] })`, in front of or behind other ones. -/
def plainVariable : Variable :=
  ⟨⟨some "plain", none⟩, some (.call ⟨14, 49⟩ (.name ⟨14, 29⟩ "defineComponent") [] [.plain
    (.object ⟨30, 48⟩ [.keyValue ⟨32, 46⟩ (some "props")
      (.array ⟨39, 46⟩ [.plain (.string ⟨40, 43⟩ "a")])])])⟩

/-- A script with this variable and one that is a component. -/
def plainItems : List Item :=
  ⟨0, [], .declaration false (.variables [plainVariable])⟩ :: missingItems

/-- Without the variable, the same component is found and the same is reported about it. -/
theorem resolveComponents_without_plain :
    (Program.single missingItems).outline = (Program.single plainItems).outline ∧
      plainItems.flatMap Item.variables
        = [] ++ plainVariable :: missingItems.flatMap Item.variables ∧
      plainVariable.IsBystander .standard ∧
      ∃ components reported reported',
        resolveComponents (Program.single plainItems) .standard 0 0 plainItems fresh
          = some (components, ⟨reported, [], []⟩) ∧
        resolveComponents (Program.single missingItems) .standard 0 0 missingItems fresh
          = some (components, ⟨reported', [], []⟩) ∧
        reported'.map Diagnostic.said = reported.map Diagnostic.said := by
  have alike : (Program.single missingItems).outline = (Program.single plainItems).outline := rfl
  have listed : plainItems.flatMap Item.variables
      = [] ++ plainVariable :: missingItems.flatMap Item.variables := rfl
  have others : (missingItems.flatMap Item.variables).map (Variable.moved Span.forget)
      = ([] ++ missingItems.flatMap Item.variables).map (Variable.moved Span.forget) := rfl
  have bystander : plainVariable.IsBystander .standard :=
    (Program.componentOfVariable_eq_none_iff ⟨[], []⟩ 0 0).mp rfl
  obtain ⟨components, reported, reported', _, _, runs, runs', -, -, same⟩ :=
    resolveComponents_without 0 0 alike listed others bystander
  exact ⟨alike, rfl, bystander, components, reported, reported', runs, runs', same.mpr (.inr rfl)⟩

/-- A call of a factory without a type for the props, whose options spread another object. -/
def spreadFiles : Sources := .ofList
  [("/a.ts", .text "const shared = {}\nconst c = defineComponent({ props: { ...shared } })\n")]

/-- A pass that finds no component reports what is shown of its problems. -/
theorem resolveComponents_of_isEmpty {items : List Item}
    (nothing : (p.componentsOf options origin script items).value.isEmpty = true) :
    ∃ reported,
      resolveComponents p options origin script items fresh = some ([], ⟨reported, [], []⟩) ∧
      reported.map Diagnostic.said = if options.hideWarnings then [] else
        (p.componentsOf options origin script items).problems.map Problem.said := by
  refine ⟨_, ?_, options.map_said_shown _⟩
  rw [resolveComponents_fresh, List.isEmpty_iff.mp nothing]
  rfl

/-- In `spreadFiles` the second variable is no component, and neither is the first. There is a
warning about the second one, which is gone with its item. -/
theorem resolveComponents_spread :
    ∃ p m v reported, Program.load spreadFiles "/a.ts" = .ok p ∧ p.modules = [m] ∧
      (m.items.drop 1).flatMap Item.variables = [v] ∧ v.IsBystander .standard ∧
      resolveComponents p .standard 0 0 m.items fresh = some ([], ⟨reported, [], []⟩) ∧
      reported.map Diagnostic.said
        = [(.unsupportedPattern, "spread in hand-written declarations is ignored")] ∧
      resolveComponents ⟨[{ m with items := m.items.take 1 }], p.failures⟩ .standard 0 0
        (m.items.take 1) fresh = some ([], ⟨[], [], []⟩) := by
  have loads : Program.loadsWith spreadFiles "/a.ts" (fun p =>
      decide (p.modules.length = 1) &&
      p.modules.all fun m =>
        let without : Program := ⟨[{ m with items := m.items.take 1 }], p.failures⟩
        decide (((m.items.drop 1).flatMap Item.variables).length = 1) &&
        ((m.items.drop 1).flatMap Item.variables).all (fun v =>
          (p.componentOfVariable .standard 0 0 v).value.isNone) &&
        (p.componentsOf .standard 0 0 m.items).value.isEmpty &&
        decide ((p.componentsOf .standard 0 0 m.items).problems = [.spreadDeclaration]) &&
        (without.componentsOf .standard 0 0 (m.items.take 1)).value.isEmpty &&
        decide ((without.componentsOf .standard 0 0 (m.items.take 1)).problems = [])) = true := by
    refine Program.loadsWith_of_written (by repeat constructor) ?_
    decide +kernel
  obtain ⟨p, loaded, facts⟩ := Program.exists_of_loadsWith loads
  simp only [Bool.and_eq_true, decide_eq_true_eq, List.all_eq_true] at facts
  obtain ⟨single, facts⟩ := facts
  obtain ⟨m, modules⟩ := List.length_eq_one_iff.mp single
  obtain ⟨⟨⟨⟨⟨one, none⟩, nothing⟩, problems⟩, nothing'⟩, problems'⟩ :=
    facts m (by rw [modules]; exact List.mem_singleton_self m)
  obtain ⟨v, holds⟩ := List.length_eq_one_iff.mp one
  have unrecorded := none v (by rw [holds]; exact List.mem_singleton_self v)
  have bystander :=
    (p.componentOfVariable_eq_none_iff 0 0).mp (Option.isNone_iff_eq_none.mp unrecorded)
  -- Neither of the two programs has a component, so each run leaves an empty list.
  obtain ⟨reported, runs, said⟩ := resolveComponents_of_isEmpty nothing
  obtain ⟨reported', runs', said'⟩ := resolveComponents_of_isEmpty nothing'
  rw [problems] at said
  rw [problems'] at said'
  obtain rfl := List.map_eq_nil_iff.mp said'
  exact ⟨p, m, v, reported, loaded, modules, holds, bystander, runs, said, runs'⟩

end Pass

end TypedProps
