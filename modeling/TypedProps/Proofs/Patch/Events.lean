import TypedProps.Proofs.Patch.Props

/-!
# `TypedProps.Proofs.Patch.Events`: what a patch makes of the events of a component

A component can have no events, a list, or an object with a key for each event (`EventsBefore`). A
list gets the new events at its end, and an object gets them as keys (`EventsAdded`).

An object gets its keys by assignment. This fails for an event with the name `__proto__` if the
object inherits the accessor of this name: instead of getting a key, it loses its prototype. From
then on nothing is inherited any more, so that the events behind it find slots again.
-/

set_option autoImplicit false

namespace TypedProps.Patch

open TypedProps.Runtime

variable {realm : Realm} {reads : String → Run Value} {scope : Scope}
  {heap heap' : Heap} {changed : List Ref}

/-! ### Events as keys -/

/-- What can happen to an object under the name of an event: either it can be assigned there, or the
name is the one of the prototype. -/
inductive Receives (realm : Realm) (heap : Heap) (o : Obj) (name : String) : Prop
  | slot {v : Value} (slot : Slot heap o (.name name) v)
  | prototype (isPrototype : name = "__proto__") (diverted : Diverted realm heap o (.name name))

/-- `WithEvents realm heap names o o'`: the object `o` becomes `o'` with some events. Each of them
is an own key with the value `null`, unless its name diverts what is assigned: then there is no such
key, and the prototype is lost. -/
structure WithEvents (realm : Realm) (heap : Heap) (names : List String) (o o' : Obj) : Prop where
  extensible : o'.extensible = o.extensible
  body : o'.body = o.body
  others : ∀ key ∉ names.map Key.name, o'.own.lookup key = o.own.lookup key
  assigned : ∀ name ∈ names, ¬ Diverted realm heap o (.name name) →
    ∃ enumerable configurable,
      o'.own.lookup (.name name) = some (.data .null true enumerable configurable)
  kept : (∀ name ∈ names, ¬ Diverted realm heap o (.name name)) → o'.prototype = o.prototype
  lost : ∀ name ∈ names, Diverted realm heap o (.name name) →
    o'.own.lookup (.name name) = none ∧ o'.prototype = none

namespace WithEvents

variable {name : String} {names : List String} {o o' : Obj}

theorem nil (o : Obj) : WithEvents realm heap [] o o :=
  ⟨rfl, rfl, fun _ _ => rfl, fun _ mem => (List.not_mem_nil mem).elim, fun _ => rfl,
    fun _ mem => (List.not_mem_nil mem).elim⟩

/-- An event is put into the object before the others. -/
theorem cons_of_slot {v : Value} {enumerable configurable : Bool}
    (slot : Slot heap o (.name name) v) (new : name ∉ names)
    (rest : WithEvents realm heap names
      (o.put (.name name) (.data .null true enumerable configurable)) o') :
    WithEvents realm heap (name :: names) o o' := by
  have notDiverted : ¬ Diverted realm heap o (.name name) := fun diverted => diverted.not_slot slot
  have ne {other : String} (mem : other ∈ names) : Key.name other ≠ .name name := fun same =>
    new (Key.name.inj same ▸ mem)
  have newKey : Key.name name ∉ names.map Key.name := by
    intro mem
    obtain ⟨other, isOther, same⟩ := List.mem_map.mp mem
    exact ne isOther same
  have diverted_iff {other : String} (mem : other ∈ names) :
      Diverted realm heap (o.put (.name name) (.data .null true enumerable configurable))
        (.name other) ↔ Diverted realm heap o (.name other) :=
    Diverted.put_iff (ne mem) _
  -- A property of one name changes nothing about which of the other names are diverted.
  refine ⟨rest.extensible, rest.body, ?_, ?_, ?_, ?_⟩
  · intro key notMem
    rw [rest.others key (List.not_mem_of_not_mem_cons notMem),
      o.lookup_put_of_ne (List.ne_of_not_mem_cons notMem)]
  · intro other mem not
    obtain rfl | mem := List.mem_cons.mp mem
    · exact ⟨enumerable, configurable, (rest.others _ newKey).trans (o.lookup_put_self _ _)⟩
    · exact rest.assigned other mem fun diverted => not ((diverted_iff mem).mp diverted)
  · intro none
    refine rest.kept fun other mem diverted => ?_
    exact none other (List.mem_cons_of_mem _ mem) ((diverted_iff mem).mp diverted)
  · intro other mem diverted
    obtain rfl | mem := List.mem_cons.mp mem
    · exact absurd diverted notDiverted
    · exact rest.lost other mem ((diverted_iff mem).mpr diverted)

/-- An event takes the prototype away before the others are put into the object. -/
theorem cons_of_diverted (diverted : Diverted realm heap o (.name name)) (new : name ∉ names)
    (slots : ∀ other ∈ names, ∃ v, Slot heap o (.name other) v)
    (rest : WithEvents realm heap names { o with prototype := none } o') :
    WithEvents realm heap (name :: names) o o' := by
  have newKey : Key.name name ∉ names.map Key.name := by
    intro mem
    obtain ⟨other, isOther, same⟩ := List.mem_map.mp mem
    exact new (Key.name.inj same ▸ isOther)
  -- Only the setter of the prototype diverts, and it goes away with the prototype: the names behind
  -- this one are all assigned.
  have notDiverted (other : String) :
      ¬ Diverted realm heap { o with prototype := none } (.name other) := fun diverted =>
    diverted.prototype_ne rfl
  refine ⟨rest.extensible, rest.body, ?_, ?_, ?_, ?_⟩
  · intro key notMem
    exact rest.others key (List.not_mem_of_not_mem_cons notMem)
  · intro other mem not
    obtain rfl | mem := List.mem_cons.mp mem
    · exact absurd diverted not
    · exact rest.assigned other mem (notDiverted other)
  · exact fun none => absurd diverted (none name List.mem_cons_self)
  · intro other mem diverted'
    obtain rfl | mem := List.mem_cons.mp mem
    · exact ⟨(rest.others _ newKey).trans diverted.missing,
        rest.kept fun other _ => notDiverted other⟩
    · obtain ⟨v, slot⟩ := slots other mem
      exact absurd slot diverted'.not_slot

end WithEvents

/-- What happens at one name does not keep an object from receiving others. -/
theorem Receives.put {name other : String} {o : Obj} (receives : Receives realm heap o other)
    (ne : other ≠ name) (property : Runtime.Property) :
    Receives realm heap (o.put (.name name) property) other := by
  have ne' : Key.name other ≠ .name name := fun same => ne (Key.name.inj same)
  cases receives with
  | slot slot => exact .slot (slot.put_of_ne ne' property)
  | prototype isPrototype diverted =>
    exact .prototype isPrototype ((Diverted.put_iff ne' property).mpr diverted)

/-- Events are assigned one after the other. Only the object that receives them changes. -/
theorem execAll_assignEvents {name : String} {names : List String} {E : Ref} {o : Obj}
    (inside : E < heap'.length)
    (target : ∀ o, realm.eval reads scope (slot name "emits") (heap'.set E o)
      = some (.reference E, heap'.set E o))
    (library : ∀ o, Library realm scope (heap'.set E o))
    (untouched : ∀ o, Untouched heap (heap'.set E o) changed)
    (apart : ∀ q, o.prototype = some q → Apart heap q changed)
    (each : ∀ event ∈ names, Receives realm heap o event) (nodup : names.Nodup) :
    ∃ o', realm.execAll reads scope
        (names.map fun event => .assign (.index (slot name "emits") (.string event)) .null)
        (heap'.set E o) = some ((), heap'.set E o') ∧
      WithEvents realm heap names o o' := by
  induction names generalizing o with
  | nil => exact ⟨o, execAll_nil, .nil o⟩
  | cons event rest ih =>
    obtain ⟨new, nodup⟩ := List.nodup_cons.mp nodup
    have here : (heap'.set E o)[E]? = some o := List.getElem?_set_self inside
    have others (other : String) (mem : other ∈ rest) : other ≠ event :=
      ne_of_mem_of_not_mem mem new
    cases each event List.mem_cons_self with
    | slot slot =>
      obtain ⟨enumerable, configurable, written⟩ : ∃ enumerable configurable,
          realm.write reads (.reference E) (.name event) .null (heap'.set E o)
            = some ((), (heap'.set E o).set E
                (o.put (.name event) (.data .null true enumerable configurable))) :=
        (slot.of_untouched (untouched o) apart).write here .null
      rw [List.set_set] at written
      let withEvent := o.put (.name event) (.data .null true enumerable configurable)
      obtain ⟨o', done, added⟩ := ih (o := withEvent) apart
        (fun other mem => (each other (List.mem_cons_of_mem _ mem)).put (others other mem) _) nodup
      refine ⟨o', ?_, .cons_of_slot slot new added⟩
      exact (execAll_cons ((exec_assign_index event (target o)).trans written)).trans done
    | prototype isPrototype diverted =>
      have written : realm.write reads (.reference E) (.name event) .null (heap'.set E o)
          = some ((), heap'.set E { o with prototype := none }) := by
        rw [(diverted.of_untouched (untouched o) apart).write (library o) here, List.set_set]
      -- No other event has this name, so that the others find slots.
      have slots (other : String) (mem : other ∈ rest) : ∃ v, Slot heap o (.name other) v := by
        cases each other (List.mem_cons_of_mem _ mem) with
        | slot slot => exact ⟨_, slot⟩
        | prototype isPrototype' =>
          exact absurd (isPrototype'.trans isPrototype.symm) (others other mem)
      obtain ⟨o', done, added⟩ := ih (o := { o with prototype := none })
        (fun q isSome => by cases isSome)
        (fun other mem => by
          obtain ⟨v, slot⟩ := slots other mem
          obtain ⟨v', slot'⟩ := slot.without_prototype
          exact .slot slot') nodup
      refine ⟨o', ?_, .cons_of_diverted diverted new slots added⟩
      exact (execAll_cons ((exec_assign_index event (target o)).trans written)).trans done

/-! ### A list or an object of events -/

/-- `EventsBefore realm heap changed names v refs e`: the events that a component can have before
its patch. The patch starts with `e`: an array of its own that is not in `refs`, or an array or an
object that is there. Whatever an object inherits stays as it is. -/
inductive EventsBefore (realm : Realm) (heap : Heap) (changed : List Ref) (names : List String) :
    Value → List Ref → Obj → Prop
  | missing : EventsBefore realm heap changed names .undefined [] (realm.arrayOf [])
  | list {r : Ref} {elements : List Value} (here : heap[r]? = some (realm.arrayOf elements)) :
      EventsBefore realm heap changed names (.reference r) [r] (realm.arrayOf elements)
  | object {r : Ref} {e : Obj} (here : heap[r]? = some e) (notArray : e.elements? = none)
      (apart : ∀ q, e.prototype = some q → Apart heap q changed)
      (each : ∀ name ∈ names, Receives realm heap e name) :
      EventsBefore realm heap changed names (.reference r) [r] e

/-- `EventsAdded realm heap names e e'`: events are at the end of a list, or keys of an object. -/
inductive EventsAdded (realm : Realm) (heap : Heap) (names : List String) : Obj → Obj → Prop
  | list (elements : List Value) :
      EventsAdded realm heap names (realm.arrayOf elements)
        (realm.arrayOf (elements ++ names.map .string))
  | object {e e' : Obj} (notArray : e.elements? = none) (added : WithEvents realm heap names e e') :
      EventsAdded realm heap names e e'

theorem EventsAdded.of_notArray {names : List String} {e e' : Obj}
    (added : EventsAdded realm heap names e e') (notArray : e.elements? = none) :
    WithEvents realm heap names e e' := by
  cases added with
  | list elements => cases notArray
  | object _ added => exact added

/-- The events that may change are there. -/
theorem EventsBefore.lt_length {names : List String} {w : Value} {refs : List Ref} {e : Obj}
    {r : Ref} (before : EventsBefore realm heap changed names w refs e) (mem : r ∈ refs) :
    r < heap.length := by
  cases before with
  | missing => cases mem
  | list here =>
    rw [List.mem_singleton.mp mem]
    exact (List.getElem?_eq_some_iff.mp here).1
  | object here =>
    rw [List.mem_singleton.mp mem]
    exact (List.getElem?_eq_some_iff.mp here).1

/-- Without new events, everything stays. -/
theorem EventsBefore.added_nil {w : Value} {refs : List Ref} {e : Obj}
    (before : EventsBefore realm heap changed [] w refs e) : EventsAdded realm heap [] e e := by
  have list (elements : List Value) :
      EventsAdded realm heap [] (realm.arrayOf elements) (realm.arrayOf elements) := by
    have added : EventsAdded realm heap [] (realm.arrayOf elements)
      (realm.arrayOf (elements ++ [])) := .list elements
    rwa [List.append_nil] at added
  cases before with
  | missing => exact list []
  | list => exact list _
  | object _ notArray => exact .object notArray (.nil e)

/-- There is something to add events to. -/
theorem exec_ensureEvents (reads : String → Run Value) (frameworkModule : String) {name : String}
    {names : List String} {c P : Ref} {o o' e : Obj} {w : Value} {refs : List Ref}
    (midway : Midway scope name changed heap heap' c o o') (early : Untouched heap heap' [c])
    (library : Library realm scope heap') (props : Slot heap o' (.name "props") (.reference P))
    (emits : Slot heap o' (.name "emits") w)
    (before : EventsBefore realm heap changed names w refs e) (other : c ∉ refs) :
    ∃ heap'' o'' E, realm.execAll reads scope (statementsOf frameworkModule name .ensureEvents)
        heap' = some ((), heap'') ∧
      Midway scope name changed heap heap'' c o o'' ∧ Untouched heap' heap'' [c] ∧
      Slot heap o'' (.name "props") (.reference P) ∧ Slot heap o'' (.name "emits") (.reference E) ∧
      heap''[E]? = some e ∧ (E ∈ refs ∨ heap'.length ≤ E) := by
  have undefined : realm.eval reads scope (.name "undefined") heap' = some (.undefined, heap') :=
    eval_name library.undefined
  have read : realm.eval reads scope (slot name "emits") heap' = some (w, heap') :=
    midway.eval_slot emits
  have compared := eval_equals read undefined
  have there {r : Ref} {o : Obj} (here : heap[r]? = some o) (mem : r ∈ refs) :
      heap'[r]? = some o := by
    refine early r o ?_ here
    rw [List.mem_singleton]
    exact ne_of_mem_of_not_mem mem other
  have unchanged {r : Ref} (isRef : w = .reference r) : realm.execAll reads scope
      (statementsOf frameworkModule name .ensureEvents) heap' = some ((), heap') := by
    subst isRef
    refine (execAll_cons ?_).trans execAll_nil
    exact (exec_branch_of_not_truthy compared rfl).trans execAll_nil
  -- An array is made only where there are no events; the list or the object that there is stays.
  cases before with
  | missing =>
    have array : realm.eval reads scope (.array []) heap'
        = some (.reference heap'.length, heap' ++ [realm.arrayOf []]) :=
      eval_array evalAll_nil
    obtain ⟨property, done, midway', emits'⟩ := midway.assign emits
      (List.mem_cons_of_mem _ List.mem_cons_self) array (.append _ _ _)
    have inside : c < heap'.length := (List.getElem?_eq_some_iff.mp midway.here).1
    refine ⟨_, _, _, ?_, midway', ?_, props.put_of_ne (by decide) property, emits', ?_,
      .inr (Nat.le_refl _)⟩
    · exact (execAll_cons ((exec_branch_of_truthy compared rfl).trans done)).trans execAll_nil
    · exact (Untouched.append _ _ _).trans (.set _ _ List.mem_cons_self)
    · rw [List.getElem?_set_ne (Nat.ne_of_lt inside)]
      exact List.getElem?_concat_length
  | list here =>
    exact ⟨heap', o', _, unchanged rfl, midway, .refl _ _, props, emits,
      there here List.mem_cons_self, .inl List.mem_cons_self⟩
  | object here =>
    exact ⟨heap', o', _, unchanged rfl, midway, .refl _ _, props, emits,
      there here List.mem_cons_self, .inl List.mem_cons_self⟩

/-- The events are added to what there is. -/
theorem exec_addEvents (reads : String → Run Value) (frameworkModule : String) {name : String}
    {names : List String} {c E : Ref} {o o' e : Obj} {w : Value} {refs : List Ref}
    (midway : Midway scope name changed heap heap' c o o')
    (library : ∀ heap', Untouched heap heap' changed → Library realm scope heap')
    (emits : Slot heap o' (.name "emits") (.reference E))
    (before : EventsBefore realm heap changed names w refs e) (here : heap'[E]? = some e)
    (other : c ≠ E) (within : E ∈ changed ∨ heap.length ≤ E) (nodup : names.Nodup) :
    ∃ e', realm.execAll reads scope (statementsOf frameworkModule name (.addEvents names)) heap'
        = some ((), heap'.set E e') ∧
      EventsAdded realm heap names e e' := by
  have read : realm.eval reads scope (slot name "emits") heap' = some (.reference E, heap') :=
    midway.eval_slot emits
  have later (e' : Obj) : Midway scope name changed heap (heap'.set E e') c o o' := by
    have set : Untouched heap' (heap'.set E e') [E] := .set _ _ List.mem_cons_self
    exact midway.later set other within
  have isArray := eval_isArray (library heap' midway.untouched) read here
  have pushed {elements : List Value} (isList : e = realm.arrayOf elements) :
      ∃ e', realm.execAll reads scope (statementsOf frameworkModule name (.addEvents names)) heap'
          = some ((), heap'.set E e') ∧
        EventsAdded realm heap names e e' := by
    subst isList
    refine ⟨_, ?_, .list elements⟩
    have done := eval_push (library heap' midway.untouched) read here (evalAll_strings names)
    refine (execAll_cons ((exec_branch_of_truthy isArray rfl).trans ?_)).trans execAll_nil
    exact (execAll_cons (exec_evaluate done)).trans execAll_nil
  -- A list gets all the names in one call of `push`; to an object they are assigned one by one.
  cases before with
  | missing => exact pushed rfl
  | list => exact pushed rfl
  | object _ notArray apart each =>
    obtain ⟨inside, isSelf⟩ := List.getElem?_eq_some_iff.mp here
    have same : heap'.set E e = heap' := by rw [← isSelf, List.set_getElem_self]
    obtain ⟨e', done, added⟩ := execAll_assignEvents inside
      (fun e' => (later e').eval_slot emits) (fun e' => library _ (later e').untouched)
      (fun e' => (later e').untouched) apart each nodup
    rw [same] at done
    rw [notArray] at isArray
    refine ⟨e', ?_, .object notArray added⟩
    refine (execAll_cons ?_).trans execAll_nil
    exact (exec_branch_of_not_truthy isArray rfl).trans done

/-- So they are if there are any. -/
theorem execAll_addEvents (reads : String → Run Value) (frameworkModule : String) {name : String}
    {names : List String} {c E : Ref} {o o' e : Obj} {w : Value} {refs : List Ref}
    (midway : Midway scope name changed heap heap' c o o')
    (library : ∀ heap', Untouched heap heap' changed → Library realm scope heap')
    (emits : Slot heap o' (.name "emits") (.reference E))
    (before : EventsBefore realm heap changed names w refs e) (here : heap'[E]? = some e)
    (other : c ≠ E) (within : E ∈ changed ∨ heap.length ≤ E) (nodup : names.Nodup) :
    ∃ e', realm.execAll reads scope ((if names.isEmpty then [] else [Step.addEvents names]).flatMap
        (statementsOf frameworkModule name)) heap' = some ((), heap'.set E e') ∧
      EventsAdded realm heap names e e' := by
  cases names with
  | nil =>
    obtain ⟨_, isSelf⟩ := List.getElem?_eq_some_iff.mp here
    refine ⟨e, ?_, before.added_nil⟩
    rw [← isSelf, List.set_getElem_self]
    exact execAll_nil
  | cons event rest =>
    obtain ⟨e', done, added⟩ :=
      exec_addEvents reads frameworkModule midway library emits before here other within nodup
    exact ⟨e', (execAll_append done).trans execAll_nil, added⟩

end TypedProps.Patch
