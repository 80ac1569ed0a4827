import TypedProps.Proofs.Property.Places
import TypedProps.Transform

/-!
# `TypedProps.Proofs.Component.Places`: where diagnostics about components point to

The types that describe a component are written in the module that declares it, and so are the names
that it declares by hand. What is noted about these names, and on the way from these types to the
members of the component, is therefore placed (`placedIn_componentsOf`), and so is every diagnostic
of a transformed module (`placed_of_mem_transformModule`).
-/

set_option autoImplicit false

namespace TypedProps


/-- The stretches of the types that describe a component. -/
def TypeSources.spans (sources : TypeSources) : List Span :=
  Ty.spansOf? sources.props ++ Ty.spansOf? sources.events ++ Ty.spansOf? sources.slots

namespace TypeSources

variable {spans : List Span}

theorem spans_subset_iff {sources : TypeSources} : sources.spans ⊆ spans ↔
    Ty.spansOf? sources.props ⊆ spans ∧ Ty.spansOf? sources.events ⊆ spans ∧
      Ty.spansOf? sources.slots ⊆ spans := by
  rw [TypeSources.spans, List.append_subset, List.append_subset, and_assoc]

/-- A type in a list takes no stretch that the list does not take. -/
theorem spansOf?_getElem?_subset {types : List Ty} (written : Ty.spansOfAll types ⊆ spans)
    (i : Nat) :
    Ty.spansOf? types[i]? ⊆ spans := by
  cases found : types[i]? with
  | none => exact List.nil_subset _
  | some type =>
    exact List.Subset.trans (Ty.spans_subset_spansOfAll (List.mem_of_getElem? found)) written

theorem spans_ofArguments {types : List Ty} (written : Ty.spansOfAll types ⊆ spans) :
    (ofArguments types).spans ⊆ spans :=
  spans_subset_iff.2 ⟨spansOf?_getElem?_subset written 0, spansOf?_getElem?_subset written 1,
    spansOf?_getElem?_subset written 2⟩

theorem spansOf?_parameterType?_subset {parameters : List Pattern}
    (written : parameters.flatMap Pattern.spans ⊆ spans) (i : Nat) :
    Ty.spansOf? (parameterType? parameters i) ⊆ spans := by
  unfold parameterType?
  cases found : parameters[i]? with
  | none => exact List.nil_subset _
  | some pattern =>
    intro s mem
    exact written (List.mem_flatMap.mpr ⟨pattern, List.mem_of_getElem? found, mem⟩)

/-- The type of the second parameter describes events and slots by its arguments. -/
theorem spansOfAll_context_subset {parameters : List Pattern}
    (written : parameters.flatMap Pattern.spans ⊆ spans) :
    Ty.spansOfAll (match parameterType? parameters 1 with
      | some (.reference _ _ arguments) => arguments
      | _ => []) ⊆ spans := by
  have second := spansOf?_parameterType?_subset written 1
  split
  · rename_i loc name arguments eq
    rw [eq, Ty.spansOf?, Ty.spans] at second
    exact List.subset_of_cons_subset second
  · exact List.nil_subset _

theorem spans_ofParameters {parameters : List Pattern}
    (written : parameters.flatMap Pattern.spans ⊆ spans) :
    (ofParameters parameters).spans ⊆ spans := by
  have context := spansOfAll_context_subset written
  exact spans_subset_iff.2 ⟨spansOf?_parameterType?_subset written 0,
    spansOf?_getElem?_subset context 0, spansOf?_getElem?_subset context 1⟩

theorem spans_orElse {sources other : TypeSources} (written : sources.spans ⊆ spans)
    (otherWritten : other.spans ⊆ spans) : (sources.orElse other).spans ⊆ spans := by
  have either {a b : Option Ty} (first : Ty.spansOf? a ⊆ spans) (second : Ty.spansOf? b ⊆ spans) :
      Ty.spansOf? (a.or b) ⊆ spans := by
    cases a with
    | none => exact second
    | some type => exact first
  obtain ⟨props, events, slots⟩ := spans_subset_iff.1 written
  obtain ⟨props', events', slots'⟩ := spans_subset_iff.1 otherWritten
  exact spans_subset_iff.2 ⟨either props props', either events events', either slots slots'⟩

end TypeSources

attribute [local simp] Expr.loc Expr.spans

/-- An expression without parentheses takes no more than with them. -/
theorem Expr.spans_unparenthesized (e : Expr) : e.unparenthesized.spans ⊆ e.spans := by
  cases e with
  | paren loc inner =>
    rw [Expr.unparenthesized]
    exact List.Subset.trans (Expr.spans_unparenthesized inner) (by simp)
  | _ => exact List.Subset.refl _

theorem Expr.loc_mem_spans (e : Expr) : e.loc ∈ e.spans := by
  cases e <;> simp

theorem Argument.spans_subset_spansOfAll {argument : Argument} {arguments : List Argument}
    (mem : argument ∈ arguments) : argument.spans ⊆ Argument.spansOfAll arguments := by
  induction arguments with
  | nil => cases mem
  | cons first rest ih =>
    rw [Argument.spansOfAll]
    rcases List.mem_cons.mp mem with rfl | mem
    · exact List.subset_append_left _ _
    · exact List.Subset.trans (ih mem) (List.subset_append_right _ _)

section Declarations

variable {p : Program} {m : ModuleId}

namespace Descriptor

theorem placedIn_keysOf {properties : List ObjectProperty}
    (written : ObjectProperty.spansOfAll properties ⊆ p.spansOf m) :
    (keysOf m properties).PlacedIn p := by
  induction properties with
  | nil => exact .pure _
  | cons property rest ih =>
    rw [ObjectProperty.spansOfAll] at written
    obtain ⟨first, others⟩ := List.append_subset.mp written
    have behind := ih others
    rw [keysOf.eq_def]
    cases property with
    | spread dots =>
      rw [ObjectProperty.spans] at first
      exact .bind (.note (first List.mem_cons_self)) (.bind (.pure _) (.bind behind (.pure _)))
    | keyValue loc key _ | method loc key _ | bare loc key =>
      rw [ObjectProperty.spans] at first
      cases key with
      | some name => exact .bind (.pure _) (.bind behind (.pure _))
      | none =>
        exact .bind (.note (first List.mem_cons_self)) (.bind (.pure _) (.bind behind (.pure _)))

theorem placedIn_namesOf {elements : List Argument}
    (written : Argument.spansOfAll elements ⊆ p.spansOf m) : (namesOf m elements).PlacedIn p := by
  induction elements with
  | nil => exact .pure _
  | cons element rest ih =>
    rw [Argument.spansOfAll] at written
    obtain ⟨first, others⟩ := List.append_subset.mp written
    have behind := ih others
    rw [namesOf.eq_def]
    dsimp only
    split
    · exact .bind (.pure _) (.bind behind (.pure _))
    · rename_i value _
      rw [Argument.spans] at first
      exact .bind (.note (first value.loc_mem_spans)) (.bind (.pure _) (.bind behind (.pure _)))
    · rename_i value
      rw [Argument.spans] at first
      exact .bind (.note (first value.loc_mem_spans)) (.bind (.pure _) (.bind behind (.pure _)))

/-- What is noted on the way to names that are declared by hand is placed. -/
theorem placedIn_exclusions {value : Expr} (written : value.spans ⊆ p.spansOf m) :
    (exclusions m value).PlacedIn p := by
  have inside := List.Subset.trans value.spans_unparenthesized written
  unfold exclusions
  split
  · rename_i loc properties eq
    rw [eq, Expr.spans] at inside
    exact placedIn_keysOf (List.subset_of_cons_subset inside)
  · rename_i loc elements eq
    rw [eq, Expr.spans] at inside
    exact placedIn_namesOf (List.subset_of_cons_subset inside)
  · exact .pure _

/-- The types of a `setup` function are written in the module. -/
def WrittenIn (d : Descriptor) (p : Program) (m : ModuleId) : Prop :=
  ∀ sources, d.setup = some sources → sources.spans ⊆ p.spansOf m

/-- Reading one property of an object notes what is placed and adds types that are written there. -/
theorem placedIn_add {d : Descriptor} {property : ObjectProperty} (wrote : d.WrittenIn p m)
    (written : property.spans ⊆ p.spansOf m) :
    (add m d property).PlacedIn p ∧ (add m d property).value.WrittenIn p m := by
  have setup {parameters : List Pattern}
      (inside : parameters.flatMap Pattern.spans ⊆ p.spansOf m) :
      WrittenIn { d with setup := some (.ofParameters parameters) } p m := by
    intro sources eq
    obtain rfl := Option.some.inj eq
    exact TypeSources.spans_ofParameters inside
  -- A case for each key that says something, in the order of the definition.
  unfold add
  split
  · rw [ObjectProperty.spans] at written
    exact ⟨.pure _, setup (List.subset_of_cons_subset written)⟩
  · rename_i value
    rw [ObjectProperty.spans] at written
    have inside :=
      List.Subset.trans value.spans_unparenthesized (List.subset_of_cons_subset written)
    split
    · rename_i loc parameters eq
      rw [eq, Expr.spans] at inside
      exact ⟨.pure _, setup (List.subset_of_cons_subset inside)⟩
    · exact ⟨.pure _, wrote⟩
  · rw [ObjectProperty.spans] at written
    exact ⟨.bind (placedIn_exclusions (List.subset_of_cons_subset written)) (.pure _), wrote⟩
  · rw [ObjectProperty.spans] at written
    exact ⟨.bind (placedIn_exclusions (List.subset_of_cons_subset written)) (.pure _), wrote⟩
  · rw [ObjectProperty.spans] at written
    exact ⟨.bind (placedIn_exclusions (List.subset_of_cons_subset written)) (.pure _), wrote⟩
  · exact ⟨.pure _, wrote⟩

theorem placedIn_ofObject {properties : List ObjectProperty}
    (written : ObjectProperty.spansOfAll properties ⊆ p.spansOf m) :
    (ofObject m properties).PlacedIn p ∧ (ofObject m properties).value.WrittenIn p m := by
  have along (d : Descriptor) (wrote : d.WrittenIn p m) :
      (properties.foldlM (add m) d).PlacedIn p ∧
        (properties.foldlM (add m) d).value.WrittenIn p m := by
    induction properties generalizing d with
    | nil => exact ⟨.pure _, wrote⟩
    | cons property rest ih =>
      rw [ObjectProperty.spansOfAll] at written
      obtain ⟨first, others⟩ := List.append_subset.mp written
      obtain ⟨placed, wrote'⟩ := placedIn_add wrote first
      obtain ⟨placed', wrote''⟩ := ih others _ wrote'
      rw [List.foldlM_cons]
      exact ⟨placed.bind placed', wrote''⟩
  exact along empty fun sources eq => by cases eq

end Descriptor

namespace Recognized

/-- What is noted on the way to the description of a call is placed, and so are the types in it. -/
theorem placedIn_ofCall {types : List Ty} {arguments : List Argument}
    (writtenTypes : Ty.spansOfAll types ⊆ p.spansOf m)
    (written : Argument.spansOfAll arguments ⊆ p.spansOf m) :
    (ofCall m types arguments).PlacedIn p ∧
      (ofCall m types arguments).value.sources.spans ⊆ p.spansOf m := by
  have explicit := TypeSources.spans_ofArguments writtenTypes
  have plain : ∀ e ∈ plainArguments arguments, e.spans ⊆ p.spansOf m := by
    intro e mem
    obtain ⟨argument, isArgument, eq⟩ := List.mem_filterMap.mp mem
    have inside := List.Subset.trans (Argument.spans_subset_spansOfAll isArgument) written
    split at eq
    · rename_i value
      obtain rfl := Option.some.inj eq
      rw [Argument.spans] at inside
      exact List.Subset.trans value.spans_unparenthesized inside
    · cases eq
  -- The call has a callback and an object, only a callback, only an object, or neither.
  unfold ofCall
  dsimp only
  split
  · rename_i loc parameters loc' properties rest eq
    rw [eq] at plain
    have callback := plain _ List.mem_cons_self
    have object := plain _ (List.mem_cons_of_mem _ List.mem_cons_self)
    rw [Expr.spans] at callback
    rw [Expr.spans] at object
    obtain ⟨placed, -⟩ := Descriptor.placedIn_ofObject (List.subset_of_cons_subset object)
    exact ⟨.bind placed (.pure _), TypeSources.spans_orElse explicit
      (TypeSources.spans_ofParameters (List.subset_of_cons_subset callback))⟩
  · rename_i loc parameters rest _ eq
    rw [eq] at plain
    have callback := plain _ List.mem_cons_self
    rw [Expr.spans] at callback
    exact ⟨.pure _, TypeSources.spans_orElse explicit
      (TypeSources.spans_ofParameters (List.subset_of_cons_subset callback))⟩
  · rename_i loc properties rest eq
    rw [eq] at plain
    have object := plain _ List.mem_cons_self
    rw [Expr.spans] at object
    obtain ⟨placed, wrote⟩ := Descriptor.placedIn_ofObject (List.subset_of_cons_subset object)
    refine ⟨.bind placed (.pure _), TypeSources.spans_orElse explicit ?_⟩
    cases setup : (Descriptor.ofObject m properties).value.setup with
    | none => exact List.nil_subset _
    | some sources => exact wrote sources setup
  · exact ⟨.pure _, explicit⟩

/-- What is noted on the way to a component is placed, and so are the types that describe it. -/
theorem placedIn_ofVariable (options : Options) {v : Variable} {init : Expr}
    (isInit : v.init = some init) (written : v.spans ⊆ p.spansOf m) :
    (ofVariable options m v.pattern.type init).PlacedIn p ∧
      ∀ r, (ofVariable options m v.pattern.type init).value = some r →
        r.sources.spans ⊆ p.spansOf m := by
  unfold Variable.spans at written
  rw [isInit] at written
  obtain ⟨ofType, whole⟩ := List.append_subset.mp written
  have inside : init.unparenthesized.spans ⊆ p.spansOf m :=
    List.Subset.trans init.spans_unparenthesized whole
  have nothing : ∀ r, (Pure.pure none : Noted (Option Recognized)).value = some r →
      r.sources.spans ⊆ p.spansOf m := fun r eq => by cases eq
  -- Only a call and a function can describe a component; what they pass on is written inside of
  -- them.
  unfold ofVariable
  split
  · rename_i loc callee types arguments eq
    rw [eq, Expr.spans] at inside
    obtain ⟨front, ofArguments⟩ := List.append_subset.mp (List.subset_of_cons_subset inside)
    obtain ⟨placed, wrote⟩ := placedIn_ofCall (List.append_subset.mp front).2 ofArguments
    split
    · refine ⟨placed.map _, fun r eq => ?_⟩
      obtain rfl := Option.some.inj eq
      exact wrote
    · exact ⟨.pure _, nothing⟩
  · rename_i loc parameters eq
    rw [eq, Expr.spans] at inside
    have ofParameters := TypeSources.spans_ofParameters (List.subset_of_cons_subset inside)
    split
    · rename_i loc' name arguments typed
      rw [Pattern.spans, typed, Ty.spansOf?, Ty.spans] at ofType
      have ofArguments :=
        TypeSources.spans_ofArguments (List.subset_of_cons_subset ofType)
      split
      · refine ⟨.pure _, fun r eq => ?_⟩
        obtain rfl := Option.some.inj eq
        exact TypeSources.spans_orElse ofArguments ofParameters
      · exact ⟨.pure _, nothing⟩
    · exact ⟨.pure _, nothing⟩
  · exact ⟨.pure _, nothing⟩

end Recognized

end Declarations

namespace Program

variable {p : Program} {origin script : ModuleId}

theorem placedIn_propertiesWithout {excluded : List String} {type : Option Ty}
    (written : Ty.spansOf? type ⊆ p.spansOf script) :
    (p.propertiesWithout origin script excluded type).PlacedIn p := by
  cases type with
  | none => exact .pure _
  | some type =>
    rw [Ty.spansOf?] at written
    exact (placedIn_propertiesOf written).map _

theorem placedIn_componentOf {r : Recognized} (written : r.sources.spans ⊆ p.spansOf script) :
    (p.componentOf origin script r).PlacedIn p := by
  obtain ⟨props, events, slots⟩ := TypeSources.spans_subset_iff.mp written
  unfold componentOf
  split
  · exact .pure _
  · rename_i type isProps
    rw [isProps] at props
    exact .bind (placedIn_propertiesWithout props) (.bind (placedIn_propertiesWithout events)
      (.bind (placedIn_propertiesWithout slots) (.pure _)))

theorem placedIn_componentOfVariable {options : Options} {v : Variable}
    (written : v.spans ⊆ p.spansOf script) :
    (p.componentOfVariable options origin script v).PlacedIn p := by
  unfold componentOfVariable
  split
  · rename_i name init named isInit
    obtain ⟨placed, wrote⟩ := Recognized.placedIn_ofVariable options isInit written
    refine .bind placed ?_
    split
    · rename_i r eq
      exact .bind (placedIn_componentOf (wrote r eq)) (.pure _)
    · exact .pure _
  · exact .pure _

/-- A variable is written where the item is that declares it. -/
theorem spans_subset_of_mem_variables {item : Item} {v : Variable} (inside : v ∈ item.variables) :
    v.spans ⊆ item.spans := by
  intro span mem
  have declared := inside
  unfold Item.variables at inside
  unfold Item.spans
  split at inside
  · rename_i form
    rw [form]
    exact List.mem_append_right _ (List.mem_flatMap.mpr ⟨v, declared, mem⟩)
  · cases inside

/-- Everything that is noted on the way to the components of several variables is placed. -/
theorem placedIn_componentsAmong {options : Options} {list : List Variable}
    (written : ∀ v ∈ list, v.spans ⊆ p.spansOf script) :
    (p.componentsAmong options origin script list).PlacedIn p := by
  induction list with
  | nil => exact .pure _
  | cons v rest ih =>
    rw [componentsAmong]
    exact .bind (placedIn_componentOfVariable (written v List.mem_cons_self))
      (.bind (ih fun v mem => written v (List.mem_cons_of_mem _ mem)) (.pure _))

/-- Everything that is noted on the way to the components that some items of a module declare is
placed. -/
theorem placedIn_componentsOf {options : Options} {items : List Item}
    (written : items.flatMap Item.spans ⊆ p.spansOf script) :
    (p.componentsOf options origin script items).PlacedIn p := by
  refine (placedIn_componentsAmong fun v mem => ?_).map _
  obtain ⟨item, isItem, inside⟩ := List.mem_flatMap.mp mem
  exact fun span isSpan =>
    written (List.mem_flatMap.mpr ⟨item, isItem, spans_subset_of_mem_variables inside isSpan⟩)

/-- Every diagnostic of a transformed module points to a stretch that is taken in the module that it
names. -/
theorem placed_of_mem_transformModule {options : Options} {id : ModuleId} {m : LoadedModule}
    (isModule : p.module? id = some m) {d : Diagnostic}
    (mem : d ∈ (p.transformModule options id m).diagnostics) : p.Placed d := by
  have written : m.items.flatMap Item.spans ⊆ p.spansOf id := by
    unfold spansOf
    rw [isModule]
    exact List.Subset.refl _
  have noted : d ∈ (p.componentsOf options id id m.items).notes := by
    unfold transformModule Options.shown at mem
    dsimp only at mem
    split at mem
    · exact (List.mem_filter.mp mem).1
    · exact mem
  exact placedIn_componentsOf written d noted

end Program

end TypedProps
