import TypedProps.Component.Discovery
import TypedProps.Proofs.Property.Relocation

/-!
# `TypedProps.Proofs.Component.Relocation`: components of relocated modules

Where one program is embedded in another one, the types that describe a component give it the same
properties there (`Relocation.Embeds.componentOf`). What a relocated variable says about a component
is the same at the relocated places (`Relocation.ofVariable`), so relocated variables are the same
components, and what is noted about them is the same in the relocated modules
(`Relocation.Embeds.componentsAmong_moved`). If the stretches of all scripts stay where they are,
this holds of the items of a module as they are (`Relocation.Embeds.componentsOf`).
-/

set_option autoImplicit false

namespace TypedProps

/-- The same types at other places. -/
def TypeSources.moved (g : Span → Span) (sources : TypeSources) : TypeSources :=
  ⟨Ty.moved? g sources.props, Ty.moved? g sources.events, Ty.moved? g sources.slots⟩

/-- The same component, described at another place. -/
def Recognized.moved (g : Span → Span) (recognized : Recognized) : Recognized :=
  { recognized with sources := recognized.sources.moved g }

/-- What the same object says at another place. -/
def Descriptor.moved (g : Span → Span) (d : Descriptor) : Descriptor :=
  { d with setup := d.setup.map (TypeSources.moved g) }

/-- The same variable at another place. -/
def Variable.moved (g : Span → Span) (v : Variable) : Variable :=
  ⟨v.pattern.moved g, v.init.map (Expr.moved g)⟩

theorem Variable.moved_id (v : Variable) : v.moved id = v := by
  obtain ⟨pattern, init⟩ := v
  unfold Variable.moved
  rw [Pattern.moved_id, show Expr.moved id = id from funext Expr.moved_id, Option.map_id]
  rfl

section Moved

variable (g : Span → Span)

@[simp] theorem Expr.loc_moved (e : Expr) : (e.moved g).loc = g e.loc := by
  cases e <;> rw [Expr.moved] <;> rfl

/-- Parentheses are taken off wherever they stand. -/
theorem Expr.unparenthesized_moved (e : Expr) :
    (e.moved g).unparenthesized = e.unparenthesized.moved g := by
  cases e with
  | paren loc inner =>
    rw [Expr.moved, Expr.unparenthesized, Expr.unparenthesized, Expr.unparenthesized_moved inner]
  | name | member | call | callback | object | array | string | template | other =>
    simp only [Expr.moved, Expr.unparenthesized]

theorem Argument.movedAll_eq_map (arguments : List Argument) :
    Argument.movedAll g arguments = arguments.map (Argument.moved g) := by
  induction arguments with
  | nil => rw [Argument.movedAll, List.map_nil]
  | cons argument rest ih => rw [Argument.movedAll, List.map_cons, ih]

theorem TypeSources.moved_missing : TypeSources.missing.moved g = .missing := by
  simp [TypeSources.missing, TypeSources.moved, Ty.moved?_eq_map]

theorem TypeSources.ofArguments_moved (types : List Ty) :
    TypeSources.ofArguments (Ty.movedAll g types) = (TypeSources.ofArguments types).moved g := by
  simp [TypeSources.ofArguments, TypeSources.moved, Ty.movedAll_eq_map, Ty.moved?_eq_map]

theorem TypeSources.orElse_moved (sources other : TypeSources) :
    (sources.moved g).orElse (other.moved g) = (sources.orElse other).moved g := by
  simp only [TypeSources.orElse, TypeSources.moved, Ty.moved?_eq_map, Option.map_or]

theorem TypeSources.parameterType?_moved (parameters : List Pattern) (i : Nat) :
    TypeSources.parameterType? (parameters.map (Pattern.moved g)) i
      = Ty.moved? g (TypeSources.parameterType? parameters i) := by
  unfold TypeSources.parameterType?
  rw [List.getElem?_map, Ty.moved?_eq_map]
  cases parameters[i]? with
  | none => rfl
  | some pattern => exact Ty.moved?_eq_map g pattern.type

theorem TypeSources.ofParameters_moved (parameters : List Pattern) :
    TypeSources.ofParameters (parameters.map (Pattern.moved g))
      = (TypeSources.ofParameters parameters).moved g := by
  unfold TypeSources.ofParameters TypeSources.moved
  rw [TypeSources.parameterType?_moved, TypeSources.parameterType?_moved]
  -- Only the arguments of a reference count, and these move with it.
  cases TypeSources.parameterType? parameters 1 with
  | none => simp [Ty.moved?_eq_map]
  | some type =>
    cases type <;> simp [Ty.moved?_eq_map, Ty.moved, Ty.movedAll_eq_map]

theorem Recognized.isFactory_moved (options : Options) (callee : Expr) :
    Recognized.isFactory options (callee.moved g) = Recognized.isFactory options callee := by
  cases callee <;> rw [Expr.moved] <;> rfl

theorem Recognized.plainArguments_moved (arguments : List Argument) :
    Recognized.plainArguments (Argument.movedAll g arguments)
      = (Recognized.plainArguments arguments).map (Expr.moved g) := by
  unfold Recognized.plainArguments
  rw [Argument.movedAll_eq_map, List.filterMap_map, List.map_filterMap]
  congr 1
  funext argument
  cases argument with
  | plain value => simp [Argument.moved, Expr.unparenthesized_moved]
  | spread value => simp [Argument.moved]

end Moved

namespace Relocation

variable {r : Relocation}

/-! ### Declarations by hand -/

section Recognition

variable (m : ModuleId)

theorem keysOf (properties : List ObjectProperty) :
    Descriptor.keysOf (r.module m) (ObjectProperty.movedAll r.span properties)
      = r.noted (Descriptor.keysOf m properties) := by
  induction properties with
  | nil => rw [ObjectProperty.movedAll]; rfl
  | cons property rest ih =>
    rw [ObjectProperty.movedAll, Descriptor.keysOf.eq_def, Descriptor.keysOf.eq_def]
    cases property with
    | spread dots => simp [ih, ObjectProperty.moved]
    | keyValue loc key _ | method loc key _ | bare loc key =>
      cases key <;> simp [ih, ObjectProperty.moved]

theorem namesOf (elements : List Argument) :
    Descriptor.namesOf (r.module m) (Argument.movedAll r.span elements)
      = r.noted (Descriptor.namesOf m elements) := by
  induction elements with
  | nil => rw [Argument.movedAll]; rfl
  | cons element rest ih =>
    rw [Argument.movedAll, Descriptor.namesOf.eq_def, Descriptor.namesOf.eq_def]
    dsimp only
    rw [ih]
    cases element with
    | spread value => simp [Argument.moved]
    | plain value => cases value <;> simp [Argument.moved, Expr.moved, Expr.loc]

theorem exclusions (value : Expr) :
    Descriptor.exclusions (r.module m) (value.moved r.span)
      = r.noted (Descriptor.exclusions m value) := by
  unfold Descriptor.exclusions
  rw [Expr.unparenthesized_moved]
  cases value.unparenthesized with
  | object loc properties => rw [Expr.moved]; exact keysOf m properties
  | array loc elements => rw [Expr.moved]; exact namesOf m elements
  | name | member | call | callback | string | template | paren | other => rw [Expr.moved]; rfl

theorem add (d : Descriptor) (property : ObjectProperty) :
    Descriptor.add (r.module m) (d.moved r.span) (property.moved r.span)
      = Descriptor.moved r.span <$> r.noted (Descriptor.add m d property) := by
  cases property with
  | spread dots => rfl
  | bare loc key => rfl
  | method loc key parameters =>
    rw [ObjectProperty.moved]
    unfold Descriptor.add
    split
    · rename_i same
      cases same
      simp [Descriptor.moved, TypeSources.ofParameters_moved]
    · rename_i same
      cases same
    · rename_i same
      cases same
    · rename_i same
      cases same
    · rename_i same
      cases same
    · rename_i notSetup _ _ _ _
      -- Another key is another key in both.
      have other : key ≠ some "setup" := by
        rintro rfl
        exact notSetup _ _ rfl
      simp [other]
  | keyValue loc key value =>
    rw [ObjectProperty.moved]
    unfold Descriptor.add
    split
    · rename_i same
      cases same
    · rename_i same
      cases same
      rw [Expr.unparenthesized_moved]
      cases read : value.unparenthesized <;>
        simp [read, Expr.moved, Descriptor.moved, TypeSources.ofParameters_moved]
    · rename_i same
      cases same
      simp [Descriptor.moved, exclusions]
    · rename_i same
      cases same
      simp [Descriptor.moved, exclusions]
    · rename_i same
      cases same
      simp [Descriptor.moved, exclusions]
    · rename_i notSetup notProps notEvents notEmits
      have otherSetup : key ≠ some "setup" := by
        rintro rfl
        exact notSetup _ _ rfl
      have otherProps : key ≠ some "props" := by
        rintro rfl
        exact notProps _ _ rfl
      have otherEvents : key ≠ some "events" := by
        rintro rfl
        exact notEvents _ _ rfl
      have otherEmits : key ≠ some "emits" := by
        rintro rfl
        exact notEmits _ _ rfl
      simp [otherSetup, otherProps, otherEvents, otherEmits]

theorem ofObject (properties : List ObjectProperty) :
    Descriptor.ofObject (r.module m) (ObjectProperty.movedAll r.span properties)
      = Descriptor.moved r.span <$> r.noted (Descriptor.ofObject m properties) := by
  have along (d : Descriptor) :
      (ObjectProperty.movedAll r.span properties).foldlM (Descriptor.add (r.module m))
          (d.moved r.span)
        = Descriptor.moved r.span <$> r.noted (properties.foldlM (Descriptor.add m) d) := by
    -- Each property is added to what the properties before it say at the other place.
    induction properties generalizing d with
    | nil => rw [ObjectProperty.movedAll]; rfl
    | cons property rest ih =>
      rw [ObjectProperty.movedAll, List.foldlM_cons, List.foldlM_cons, add, noted_bind]
      simp only [bind_map_left, ih, map_bind]
  exact along .empty

theorem ofCall (typeArguments : List Ty) (arguments : List Argument) :
    Recognized.ofCall (r.module m) (Ty.movedAll r.span typeArguments)
        (Argument.movedAll r.span arguments)
      = Recognized.moved r.span <$> r.noted (Recognized.ofCall m typeArguments arguments) := by
  unfold Recognized.ofCall
  dsimp only
  rw [Recognized.plainArguments_moved, TypeSources.ofArguments_moved]
  cases Recognized.plainArguments arguments with
  | nil => rfl
  | cons first others =>
    cases first with
    | callback loc parameters =>
      cases others with
      | nil =>
        simp [Expr.moved, Recognized.moved, TypeSources.ofParameters_moved,
          TypeSources.orElse_moved]
      | cons second rest =>
        cases second <;>
          simp [Expr.moved, Recognized.moved, TypeSources.ofParameters_moved,
            TypeSources.orElse_moved, ofObject, Descriptor.moved]
    | object loc properties =>
      simp only [List.map_cons, Expr.moved, ofObject, noted_bind, bind_map_left, map_bind]
      congr 1
      funext d
      -- Without a `setup` function there are no types, here and there.
      have setup : (d.moved r.span).setup.getD .missing
          = (d.setup.getD .missing).moved r.span := by
        unfold Descriptor.moved
        cases d.setup with
        | none => rw [Option.map_none, Option.getD_none, TypeSources.moved_missing]
        | some sources => rfl
      simp only [setup, TypeSources.orElse_moved]
      rfl
    | name | member | call | array | string | template | paren | other =>
      simp only [List.map_cons, Expr.moved]
      rfl

/-- A variable is recognized in the relocated module as it was before. -/
theorem ofVariable (options : Options) (type : Option Ty) (init : Expr) :
    Recognized.ofVariable options (r.module m) (Ty.moved? r.span type) (init.moved r.span)
      = Option.map (Recognized.moved r.span) <$>
          r.noted (Recognized.ofVariable options m type init) := by
  unfold Recognized.ofVariable
  rw [Expr.unparenthesized_moved]
  -- What is recognized is seen from the forms alone, and they stay.
  cases init.unparenthesized with
  | call loc callee typeArguments arguments =>
    simp only [Expr.moved]
    rw [Recognized.isFactory_moved, ofCall]
    split
    · simp
    · rfl
  | callback loc parameters =>
    simp only [Expr.moved]
    cases type with
    | none => rw [Ty.moved?]; rfl
    | some type =>
      rw [Ty.moved?]
      cases type with
      | reference at' name arguments =>
        simp only [Ty.moved]
        split
        · simp [Recognized.moved, TypeSources.ofParameters_moved, TypeSources.ofArguments_moved,
            TypeSources.orElse_moved]
        · rfl
      | keyword | literal | array | tuple | function | paren | optional | readonly | object
      | mapped | union | intersection | other =>
        simp only [Ty.moved]
        rfl
  | name | member | object | array | string | template | paren | other =>
    simp only [Expr.moved]
    rfl

end Recognition

namespace Embeds

open Program

variable {p q : Program}

/-! ### Components -/

theorem propertiesWithout (embeds : r.Embeds p q) (origin script : ModuleId)
    (excluded : List String) (type : Option Ty) :
    p.propertiesWithout (r.module origin) (r.module script) excluded (Ty.moved? r.span type)
      = r.noted (q.propertiesWithout origin script excluded type) := by
  cases type with
  | none =>
    rw [Ty.moved?]
    rfl
  | some type =>
    have properties := embeds.propertiesOf origin ⟨origin, script⟩ type
    rw [Ty.moved?]
    unfold Program.propertiesWithout
    rw [noted_map]
    exact congrArg (Property.without excluded <$> ·) properties

/-- Relocated types describe the same component. -/
theorem componentOf (embeds : r.Embeds p q) (origin script : ModuleId) (recognized : Recognized) :
    p.componentOf (r.module origin) (r.module script) (recognized.moved r.span)
      = r.noted (q.componentOf origin script recognized) := by
  obtain ⟨⟨props, events, slots⟩, excludedProps, excludedEvents⟩ := recognized
  cases props with
  | none =>
    unfold Program.componentOf Recognized.moved TypeSources.moved
    rw [Ty.moved?]
    rfl
  | some type =>
    have ofProps := embeds.propertiesWithout origin script excludedProps (some type)
    have ofEvents := embeds.propertiesWithout origin script excludedEvents events
    have ofSlots := embeds.propertiesWithout origin script [] slots
    rw [Ty.moved?] at ofProps
    unfold Program.componentOf Recognized.moved TypeSources.moved
    rw [Ty.moved?]
    simp only [ofProps, ofEvents, ofSlots, noted_bind, noted_pure]

section Items

variable (embeds : r.Embeds p q) (options : Options) (origin script : ModuleId)
include embeds

/-- A relocated variable is the same component. -/
theorem componentOfVariable_moved (v : Variable) :
    p.componentOfVariable options (r.module origin) (r.module script) (v.moved r.span)
      = r.noted (q.componentOfVariable options origin script v) := by
  obtain ⟨⟨name, type⟩, init⟩ := v
  unfold Program.componentOfVariable Variable.moved Pattern.moved
  cases name with
  | none => rfl
  | some name =>
    cases init with
    | none => rfl
    | some init =>
      simp only [Option.map_some]
      rw [ofVariable, noted_bind, bind_map_left]
      congr 1
      funext recognized
      cases recognized with
      | none => rfl
      | some recognized =>
        simp [embeds.componentOf origin script recognized]

/-- Relocated variables are the same components. -/
theorem componentsAmong_moved (list : List Variable) :
    p.componentsAmong options (r.module origin) (r.module script)
        (list.map (Variable.moved r.span))
      = r.noted (q.componentsAmong options origin script list) := by
  induction list with
  | nil => rfl
  | cons v rest ih =>
    rw [List.map_cons, componentsAmong, componentsAmong, embeds.componentOfVariable_moved, ih]
    simp

end Items

/-- The items of a module declare the same components, noted in the relocated modules, if the
stretches of all scripts stay where they are. -/
theorem componentsOf (embeds : r.Embeds p q) (stays : r.span = id) (options : Options)
    (origin script : ModuleId) (items : List Item) :
    p.componentsOf options (r.module origin) (r.module script) items
      = r.noted (q.componentsOf options origin script items) := by
  have among := embeds.componentsAmong_moved options origin script
    (items.flatMap Item.variables)
  rw [stays, show Variable.moved id = id from funext Variable.moved_id, List.map_id] at among
  unfold Program.componentsOf
  rw [among, noted_map]

end Embeds

end Relocation

end TypedProps
