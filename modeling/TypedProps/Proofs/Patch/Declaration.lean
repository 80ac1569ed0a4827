import TypedProps.Proofs.Patch.Events
import TypedProps.Proofs.Runtime.Literals

/-!
# `TypedProps.Proofs.Patch.Declaration`: what a patch does when it runs

`text_declares` puts the statements of a patch together: after its patch, a component has an object
of props, with what was there before and a record for each prop, and a list or an object of events,
with what was there before and the events of the patch. Nothing else has changed.

`Ready` is what this takes. The component, its props and its events are different objects, none of
them belongs to the library, and none is above another one. Constructors are in scope, and the
expressions of default values change nothing.
-/

set_option autoImplicit false

namespace TypedProps.Patch

open TypedProps.Runtime

variable {realm : Realm} {reads : String → Run Value} {scope : Scope} {options : Options}
  {name : String} {component : Component} {heap : Heap} {c : Ref} {o p e : Obj} {v w : Value}
  {refs refs' : List Ref}

/-- What the patch of a component relies on. The component is the object `o` at `c`, its props are
`v` and its events are `w`; the patch starts with the objects `p` and `e` for these. Only the
component and the objects in `refs` and `refs'` may change, and each of them is one object. -/
structure Ready (realm : Realm) (reads : String → Run Value) (scope : Scope) (options : Options)
    (name : String) (component : Component) (heap : Heap) (c : Ref) (o p e : Obj) (v w : Value)
    (refs refs' : List Ref) : Prop where
  known : scope name = some (.reference c)
  here : heap[c]? = some o
  apart : ∀ q, o.prototype = some q → Apart heap q (c :: (refs ++ refs'))
  props : Slot heap o (.name "props") v
  propsBefore : PropsBefore realm heap v refs p
  emits : Slot heap o (.name "emits") w
  eventsBefore : EventsBefore realm heap (c :: (refs ++ refs')) (component.events.map (·.name)) w
    refs' e
  distinct : (c :: (refs ++ refs')).Nodup
  library : Library realm scope heap
  libraryApart : ∀ r ∈ realm.refs, r ∉ c :: (refs ++ refs')
  constructors : ∀ prop ∈ component.props, ∀ text ∈ (recordOf options prop).constructors,
    (scope text).isSome
  defaults : ∀ prop ∈ component.props, ∀ text ∈ prop.default, Quiet reads text

/-- What a component is after its patch: nothing but its props and its events has changed. Its props
have a record for each prop, and are otherwise those that the patch started with; its events are
added to those that it started with. -/
structure Declared (realm : Realm) (reads : String → Run Value) (scope : Scope) (options : Options)
    (component : Component) (heap heap' : Heap) (o p e o' : Obj) (P E : Ref) (p' e' : Obj) :
    Prop where
  same : o.SameBut o' [.name "props", .name "emits"]
  props : Slot heap' o' (.name "props") (.reference P)
  here : heap'[P]? = some p'
  others : p.SameBut p' (component.props.map fun prop => .name prop.name)
  records : ∀ prop ∈ component.props, ∃ r,
    p'.own.lookup (.name prop.name) = some (.plain (.reference r)) ∧
    Describes realm reads scope heap' heap.length r (recordOf options prop)
  emits : Slot heap' o' (.name "emits") (.reference E)
  receiver : heap'[E]? = some e'
  added : EventsAdded realm heap (component.events.map (·.name)) e e'

namespace Ready

/-- The library stays while only those objects change. -/
theorem library_of_untouched {heap' : Heap}
    (ready : Ready realm reads scope options name component heap c o p e v w refs refs')
    (untouched : Untouched heap heap' (c :: (refs ++ refs'))) : Library realm scope heap' :=
  ready.library.of_untouched untouched ready.libraryApart

theorem midway
    (ready : Ready realm reads scope options name component heap c o p e v w refs refs') :
    Midway scope name (c :: (refs ++ refs')) heap heap c o o where
  known := ready.known
  mem := List.mem_cons_self
  apart := ready.apart
  untouched := .refl _ _
  here := ready.here
  same := .refl _ _

end Ready

/-- `Prepared scope name changed heap heap' c o o' P E p e`: the component has an object of props,
`p` at `P`, and something to put events into, `e` at `E`. -/
structure Prepared (scope : Scope) (name : String) (changed : List Ref) (heap heap' : Heap)
    (c : Ref) (o o' : Obj) (P E : Ref) (p e : Obj) : Prop where
  midway : Midway scope name changed heap heap' c o o'
  longer : heap.length ≤ heap'.length
  props : Slot heap o' (.name "props") (.reference P)
  emits : Slot heap o' (.name "emits") (.reference E)
  isProps : heap'[P]? = some p
  isEvents : heap'[E]? = some e
  propsWithin : P ∈ changed ∨ heap.length ≤ P
  eventsWithin : E ∈ changed ∨ heap.length ≤ E
  component_ne_props : c ≠ P
  component_ne_events : c ≠ E
  props_ne_events : P ≠ E

/-- The first two steps prepare the component. -/
theorem exists_prepared
    (ready : Ready realm reads scope options name component heap c o p e v w refs refs') :
    ∃ heap' o' P E, realm.execAll reads scope ([Step.ensureProps, .ensureEvents].flatMap
        (statementsOf options.frameworkModule name)) heap = some ((), heap') ∧
      Prepared scope name (c :: (refs ++ refs')) heap heap' c o o' P E p e := by
  obtain ⟨notMem, distinct⟩ := List.nodup_cons.mp ready.distinct
  obtain ⟨between, o₁, P, done₁, midway₁, early, props₁, emits₁, isProps, fromProps⟩ :=
    exec_ensureProps reads options.frameworkModule ready.midway ready.library ready.props
      ready.emits ready.propsBefore
  obtain ⟨heap', o', E, done₂, midway₂, late, props₂, emits₂, isEvents, fromEvents⟩ :=
    exec_ensureEvents reads options.frameworkModule midway₁ early
      (ready.library_of_untouched midway₁.untouched) props₁ emits₁ ready.eventsBefore
      fun mem => notMem (List.mem_append_right _ mem)
  have old : c < heap.length := (List.getElem?_eq_some_iff.mp ready.here).1
  have longer₁ : heap.length ≤ between.length := early.length_le midway₁.here
  have longer₂ : between.length ≤ heap'.length := late.length_le midway₂.here
  -- Of two objects that are there both are named, or one is new.
  have component_ne_props : c ≠ P := by
    rintro rfl
    exact fromProps.elim (fun mem => notMem (List.mem_append_left _ mem)) (Nat.not_le.mpr old)
  have component_ne_events : c ≠ E := by
    rintro rfl
    exact fromEvents.elim (fun mem => notMem (List.mem_append_right _ mem))
      (Nat.not_le.mpr (Nat.lt_of_lt_of_le old longer₁))
  have props_ne_events : P ≠ E := by
    rintro rfl
    obtain mem' | new' := fromEvents
    · obtain mem | new := fromProps
      · exact (List.nodup_append.mp distinct).2.2 P mem P mem' rfl
      · exact Nat.not_le.mpr (ready.eventsBefore.lt_length mem') new
    · exact Nat.not_le.mpr (List.getElem?_eq_some_iff.mp isProps).1 new'
  refine ⟨heap', o', P, E,
    (execAll_append done₁).trans ((execAll_append done₂).trans execAll_nil), ?_⟩
  exact {
    midway := midway₂
    longer := Nat.le_trans longer₁ longer₂
    props := props₂
    emits := emits₂
    isProps := late P p (mt List.mem_singleton.mp component_ne_props.symm) isProps
    isEvents := isEvents
    propsWithin :=
      fromProps.imp_left fun mem => List.mem_cons_of_mem _ (List.mem_append_left _ mem)
    eventsWithin := fromEvents.imp
      (fun mem => List.mem_cons_of_mem _ (List.mem_append_right _ mem)) (Nat.le_trans longer₁)
    component_ne_props := component_ne_props
    component_ne_events := component_ne_events
    props_ne_events := props_ne_events }

/-- The statements of a patch declare the component. -/
theorem execAll_statements
    (ready : Ready realm reads scope options name component heap c o p e v w refs refs')
    (props : (component.props.map (·.name)).Nodup)
    (events : (component.events.map (·.name)).Nodup) :
    ∃ heap' o' P E p' e', realm.execAll reads scope (statements options name component) heap
        = some ((), heap') ∧
      Untouched heap heap' (c :: (refs ++ refs')) ∧ heap'[c]? = some o' ∧
      Declared realm reads scope options component heap heap' o p e o' P E p' e' := by
  obtain ⟨first, o', P, E, done, prepared⟩ := exists_prepared ready
  have later {heap' : Heap} (rest : Untouched first heap' [P]) :=
    prepared.midway.later rest prepared.component_ne_props prepared.propsWithin
  -- The props are defined on their object, which is older than all records.
  obtain ⟨second, p', done', kept, isProps, others, records⟩ := execAll_defineProps
    (List.getElem?_eq_some_iff.mp prepared.isProps).1
    (fun heap' rest => ready.library_of_untouched (later rest).untouched)
    (fun heap' rest => (later rest).eval_slot prepared.props) ready.constructors ready.defaults
    props (Nat.le_refl _) prepared.isProps ready.propsBefore.definable
  have isEvents : second[E]? = some e :=
    kept E e (mt List.mem_singleton.mp prepared.props_ne_events.symm) prepared.isEvents
  -- The events are added to theirs.
  obtain ⟨e', done'', added⟩ := execAll_addEvents reads options.frameworkModule (later kept)
    (fun heap' untouched => ready.library_of_untouched untouched) prepared.emits
    ready.eventsBefore isEvents prepared.component_ne_events prepared.eventsWithin events
  have set : Untouched second (second.set E e') [E] := .set _ _ List.mem_cons_self
  have midway := (later kept).later set prepared.component_ne_events prepared.eventsWithin
  have old : ∀ r ∈ [E], r < first.length := by
    intro r mem
    rw [List.mem_singleton.mp mem]
    exact (List.getElem?_eq_some_iff.mp prepared.isEvents).1
  refine ⟨second.set E e', o', P, E, p', e', ?_, midway.untouched, midway.here, ?_⟩
  · rw [List.isEmpty_map] at done''
    unfold statements steps
    rw [List.flatMap_append, List.flatMap_append, List.append_assoc, execAll_append done,
      execAll_append done']
    exact done''
  · exact {
      same := midway.same
      props := midway.slot_of_slot midway.untouched prepared.props
      here := set P p' (mt List.mem_singleton.mp prepared.props_ne_events) isProps
      others := others
      records := by
        intro prop mem
        obtain ⟨r, own, describes⟩ := records prop mem
        exact ⟨r, own, (describes.of_untouched set old).of_le prepared.longer⟩
      emits := midway.slot_of_slot midway.untouched prepared.emits
      receiver := List.getElem?_set_self (List.getElem?_eq_some_iff.mp isEvents).1
      added := added }

/-- The text of a patch is that of its statements, in which each string is written so that it is
read as it is; and the statements declare the component. -/
theorem text_declares
    (ready : Ready realm reads scope options name component heap c o p e v w refs refs')
    (props : (component.props.map (·.name)).Nodup)
    (events : (component.events.map (·.name)).Nodup) :
    text options name component = scriptText "" (statements options name component) ∧
    (∀ s rest, Lexer.scan ((Text.quote s).toList ++ rest) = (.string s, rest)) ∧
    ∃ heap' o' P E p' e', realm.execAll reads scope (statements options name component) heap
        = some ((), heap') ∧
      Untouched heap heap' (c :: (refs ++ refs')) ∧ heap'[c]? = some o' ∧
      Declared realm reads scope options component heap heap' o p e o' P E p' e' :=
  ⟨text_eq_scriptText options name component, Lexer.scan_quote,
    execAll_statements ready props events⟩

/-! ### An object that has a prototype -/

/-- A realm with nothing but the library. -/
def smallRealm : Realm where
  objectPrototype := 0
  arrayPrototype := 1
  functionPrototype := 2
  object := 3
  array := 4
  isArray := 5
  fromEntries := 6
  defineProperty := 7
  map := 8
  push := 9
  getPrototype := 10
  setPrototype := 11

/-- A function as a property of an object of the library. -/
def method (name : String) (function : Ref) : Key × Runtime.Property :=
  (.name name, .data (.reference function) true false true)

/-- A function of the library. -/
def native (function : Native) : Obj := ⟨some 2, true, [], .native function⟩

/-- A component that accepts one event, `close`. -/
def closable : Obj := smallRealm.ordinary [(.name "emits", .plain (.reference 13))]

/-- The events of the component. -/
def closing : Obj := smallRealm.ordinary [(.name "close", .plain .null)]

/-- The prototype of all objects. -/
def topmost : Obj :=
  ⟨none, true, [(.name "__proto__", .accessor (some 10) (some 11) false true)], .ordinary⟩

/-- The objects of the realm, the constructor `String`, and the component. -/
def smallHeap : Heap :=
  [topmost,
    smallRealm.ordinary [method "map" 8, method "push" 9],
    smallRealm.ordinary [],
    smallRealm.ordinary [method "fromEntries" 6, method "defineProperty" 7],
    smallRealm.ordinary [method "isArray" 5],
    native .isArray, native .fromEntries, native .defineProperty, native .map, native .push,
    native .getPrototype, native .setPrototype,
    closable, closing, smallRealm.ordinary []]

/-- The names in scope. -/
def smallScope : Scope
  | "undefined" => some .undefined
  | "Object" => some (.reference 3)
  | "Array" => some (.reference 4)
  | "C" => some (.reference 12)
  | "String" => some (.reference 14)
  | _ => none

/-- A component with a prop `label` and the events `save` and `__proto__`. -/
def labelled : Component where
  props := [⟨"label", some ⟨[.string], none⟩, true, none, []⟩]
  events := [⟨"save", none, true, none, []⟩, ⟨"__proto__", none, true, none, []⟩]
  slots := []

/-- Nothing is above the prototype of all objects. -/
theorem apart_smallHeap : Apart smallHeap 0 [12, 13] := by
  intro x path
  obtain rfl | ⟨y, ⟨o, here, above⟩, -⟩ := path.cases_head
  · decide
  · cases here
    cases above

/-- What it has is found in it. -/
theorem find_smallHeap (key : Key) : smallHeap.find 0 key = some (topmost.own.lookup key) := by
  rw [find_eq (rfl : smallHeap[0]? = some topmost),
    topmost.getOwn_of_elements?_eq_none rfl]
  cases topmost.own.lookup key <;> rfl

/-- The events can receive both, each in its way. -/
theorem receives_closing (name : String) (mem : name ∈ labelled.events.map (·.name)) :
    Receives smallRealm smallHeap closing name := by
  obtain rfl | mem := List.mem_cons.mp mem
  · exact .slot (.inherited rfl rfl rfl (find_smallHeap _) .missing)
  · cases List.mem_singleton.mp mem
    exact .prototype rfl ⟨rfl, rfl, rfl, some 10, false, true, find_smallHeap _⟩

/-- Its patch can run. -/
theorem ready_labelled : Ready smallRealm (fun _ => failure) smallScope .standard "C" labelled
    smallHeap 12 closable (smallRealm.ordinary []) closing .undefined (.reference 13) [] [13] where
  known := rfl
  here := rfl
  apart := by
    rintro q isPrototype
    cases isPrototype
    exact apart_smallHeap
  props := .inherited rfl rfl rfl (find_smallHeap _) .missing
  propsBefore := .missing
  emits := .own rfl rfl
  eventsBefore := by
    refine .object rfl rfl ?_ receives_closing
    rintro q isPrototype
    cases isPrototype
    exact apart_smallHeap
  distinct := by decide
  library := {
    undefined := rfl
    object := rfl
    array := rfl
    isArray := ⟨⟨_, _, _, _, rfl, rfl⟩, _, rfl, rfl⟩
    fromEntries := ⟨⟨_, _, _, _, rfl, rfl⟩, _, rfl, rfl⟩
    defineProperty := ⟨⟨_, _, _, _, rfl, rfl⟩, _, rfl, rfl⟩
    map := ⟨⟨_, _, _, _, rfl, rfl⟩, _, rfl, rfl⟩
    push := ⟨⟨_, _, _, _, rfl, rfl⟩, _, rfl, rfl⟩
    objectPrototype := ⟨_, _, _, rfl, rfl, rfl, rfl, rfl⟩
    setPrototype := ⟨_, rfl, rfl⟩ }
  libraryApart := by decide
  constructors := by decide
  defaults := by
    intro prop mem text isDefault
    cases List.mem_singleton.mp mem
    cases isDefault

/-- The patch declares the component. -/
theorem text_declares_labelled :
    (labelled.props.map (·.name)).Nodup ∧ (labelled.events.map (·.name)).Nodup ∧
    ∃ heap' o' P E p' e', smallRealm.execAll (fun _ => failure) smallScope
        (statements .standard "C" labelled) smallHeap = some ((), heap') ∧
      Untouched smallHeap heap' [12, 13] ∧ heap'[12]? = some o' ∧
      Declared smallRealm (fun _ => failure) smallScope .standard labelled smallHeap heap' closable
        (smallRealm.ordinary []) closing o' P E p' e' := by
  have props : (labelled.props.map (·.name)).Nodup := by decide
  have events : (labelled.events.map (·.name)).Nodup := by decide
  exact ⟨props, events, (text_declares ready_labelled props events).2.2⟩

/-- But one of its events is no key of the object of events, and the object has lost its
prototype. -/
theorem event_takes_prototype :
    "__proto__" ∈ labelled.events.map (·.name) ∧ closing.prototype = some 0 ∧
    ∃ heap' o' E e', smallRealm.execAll (fun _ => failure) smallScope
        (statements .standard "C" labelled) smallHeap = some ((), heap') ∧
      heap'[12]? = some o' ∧ Slot heap' o' (.name "emits") (.reference E) ∧
      heap'[E]? = some e' ∧ e'.getOwn (.name "__proto__") = none ∧ e'.prototype = none := by
  have isEvent : "__proto__" ∈ labelled.events.map (·.name) := by decide
  obtain ⟨heap', o', P, E, p', e', done, -, here, declared⟩ :=
    execAll_statements ready_labelled (by decide) (by decide)
  have added := declared.added.of_notArray rfl
  have notArray : e'.elements? = none := by
    rw [Obj.elements?, added.body]
    rfl
  obtain ⟨noKey, noPrototype⟩ := added.lost "__proto__" isEvent
    ⟨rfl, rfl, rfl, some 10, false, true, find_smallHeap _⟩
  refine ⟨isEvent, rfl, heap', o', E, e', done, here, declared.emits, declared.receiver, ?_,
    noPrototype⟩
  rw [e'.getOwn_of_elements?_eq_none notArray]
  exact noKey

end TypedProps.Patch
