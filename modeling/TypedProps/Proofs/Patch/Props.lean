import TypedProps.Proofs.Patch.Records

/-!
# `TypedProps.Proofs.Patch.Props`: what a patch makes of the props of a component

A component can have no props, a list of names, or an object (`PropsBefore`). The first statement
makes an object of each (`exec_ensureProps`), on which the props are then defined one after the
other (`execAll_defineProps`).

A patch reads the component anew in each statement. `Midway` is what it finds there: the component
may have other props and other events than in the beginning, and nothing else. What the component
inherits is compared with the heap that the patch has begun with, because lookups along the
prototypes never come by an object that the patch changes.
-/

set_option autoImplicit false

namespace TypedProps.Patch

open TypedProps.Runtime

variable {realm : Realm} {reads : String → Run Value} {scope : Scope}
  {heap heap' heap'' : Heap} {changed : List Ref}

/-! ### The component -/

/-- `Midway scope name changed heap heap' c o o'`: a patch has begun with one heap and come to
another. Some objects may have changed, among them the one that the name is bound to, but only in
its props and its emits. -/
structure Midway (scope : Scope) (name : String) (changed : List Ref) (heap heap' : Heap) (c : Ref)
    (o o' : Obj) : Prop where
  known : scope name = some (.reference c)
  mem : c ∈ changed
  apart : ∀ q, o.prototype = some q → Apart heap q changed
  untouched : Untouched heap heap' changed
  here : heap'[c]? = some o'
  same : o.SameBut o' [.name "props", .name "emits"]

namespace Midway

variable {name key : String} {c : Ref} {o o' : Obj} {v w : Value}

/-- What has been a slot in the beginning still is one. -/
theorem slot_of_slot (midway : Midway scope name changed heap heap' c o o')
    (untouched : Untouched heap heap'' changed) (slot : Slot heap o' (.name key) v) :
    Slot heap'' o' (.name key) v := by
  refine slot.of_untouched untouched ?_
  rw [midway.same.prototype]
  exact midway.apart

theorem eval_slot (midway : Midway scope name changed heap heap' c o o')
    (slot : Slot heap o' (.name key) v) :
    realm.eval reads scope (Patch.slot name key) heap' = some (v, heap') :=
  Runtime.eval_slot midway.known midway.here (midway.slot_of_slot midway.untouched slot)

/-- Another object may change, if it is one of those that may, or new. -/
theorem later {r : Ref} (midway : Midway scope name changed heap heap' c o o')
    (rest : Untouched heap' heap'' [r]) (other : c ≠ r) (within : r ∈ changed ∨ heap.length ≤ r) :
    Midway scope name changed heap heap'' c o o' where
  known := midway.known
  mem := midway.mem
  apart := midway.apart
  untouched := by
    refine midway.untouched.trans_of_within rest fun x mem => ?_
    rwa [List.mem_singleton.mp mem]
  here := rest c o' (mt List.mem_singleton.mp other) midway.here
  same := midway.same

/-- Props or emits may be assigned. -/
theorem assign (midway : Midway scope name changed heap heap' c o o')
    (slot : Slot heap o' (.name key) v) (mem : Key.name key ∈ [Key.name "props", .name "emits"])
    {e : Expression} (evaluated : realm.eval reads scope e heap' = some (w, heap''))
    (kept : Untouched heap' heap'' []) :
    ∃ property, realm.execAll reads scope [.assign (Patch.slot name key) e] heap'
        = some ((), heap''.set c (o'.put (.name key) property)) ∧
      Midway scope name changed heap (heap''.set c (o'.put (.name key) property)) c o
        (o'.put (.name key) property) ∧
      Slot heap (o'.put (.name key) property) (.name key) w := by
  have untouched : Untouched heap heap'' changed :=
    midway.untouched.trans_of_within kept fun _ mem => (List.not_mem_nil mem).elim
  have here : heap''[c]? = some o' := kept c o' List.not_mem_nil midway.here
  obtain ⟨enumerable, configurable, written⟩ : ∃ enumerable configurable,
      realm.write reads (.reference c) (.name key) w heap''
        = some ((), heap''.set c (o'.put (.name key) (.data w true enumerable configurable))) :=
    (midway.slot_of_slot untouched slot).write here w
  refine ⟨.data w true enumerable configurable, ?_, ?_, ?_⟩
  · refine (execAll_cons ?_).trans execAll_nil
    rw [Realm.exec, Patch.slot, Realm.assign, bind_of_eq (eval_name midway.known),
      bind_of_eq evaluated]
    exact written
  · obtain ⟨inside, _⟩ := List.getElem?_eq_some_iff.mp here
    exact {
      known := midway.known
      mem := midway.mem
      apart := midway.apart
      untouched := untouched.trans (.set _ _ midway.mem)
      here := by rw [List.getElem?_set_self inside]
      same := midway.same.trans (.put _ _ mem) }
  · exact .own slot.notArray (o'.lookup_put_self _ _)

end Midway

/-! ### An object of props -/

/-- `PropsBefore realm heap v refs p`: the props that a component can have before its patch. The
patch starts with the object `p`: one of its own that is not in `refs`, or one that is there. -/
inductive PropsBefore (realm : Realm) (heap : Heap) : Value → List Ref → Obj → Prop
  | missing : PropsBefore realm heap .undefined [] (realm.ordinary [])
  | names {r : Ref} {names : List String}
      (here : heap[r]? = some (realm.arrayOf (names.map .string))) :
      PropsBefore realm heap (.reference r) [] (realm.ordinary (named names []))
  | object {r : Ref} {p : Obj} (here : heap[r]? = some p) (definable : Definable p) :
      PropsBefore realm heap (.reference r) [r] p

/-- Props can be defined on the object. -/
theorem PropsBefore.definable {v : Value} {refs : List Ref} {p : Obj}
    (before : PropsBefore realm heap v refs p) : Definable p := by
  cases before with
  | missing => exact ⟨rfl, rfl, fun _ _ own => by cases own⟩
  | names here =>
    refine ⟨rfl, rfl, fun key property own => ?_⟩
    rw [Realm.ordinary, lookup_named] at own
    split at own
    · cases own
      rfl
    · cases own
  | object here definable => exact definable

/-- The props become an object. -/
theorem exec_ensureProps (reads : String → Run Value) (frameworkModule : String) {name : String}
    {c : Ref} {o p : Obj} {v w : Value} {refs : List Ref}
    (midway : Midway scope name changed heap heap c o o)
    (library : Library realm scope heap) (props : Slot heap o (.name "props") v)
    (emits : Slot heap o (.name "emits") w) (before : PropsBefore realm heap v refs p) :
    ∃ heap' o' P, realm.execAll reads scope (statementsOf frameworkModule name .ensureProps) heap
        = some ((), heap') ∧
      Midway scope name changed heap heap' c o o' ∧ Untouched heap heap' [c] ∧
      Slot heap o' (.name "props") (.reference P) ∧ Slot heap o' (.name "emits") w ∧
      heap'[P]? = some p ∧ (P ∈ refs ∨ heap.length ≤ P) := by
  have undefined : realm.eval reads scope (.name "undefined") heap = some (.undefined, heap) :=
    eval_name library.undefined
  have read : realm.eval reads scope (slot name "props") heap = some (v, heap) :=
    midway.eval_slot props
  have compared := eval_equals read undefined
  have inside : c < heap.length := (List.getElem?_eq_some_iff.mp midway.here).1
  -- A new object becomes the value of the props.
  have replaced {e : Expression} {new : List Obj} (evaluated : realm.eval reads scope e heap
      = some (.reference (heap ++ new).length, heap ++ new ++ [p])) :
      ∃ heap' o' P, realm.execAll reads scope [.assign (slot name "props") e] heap
          = some ((), heap') ∧
        Midway scope name changed heap heap' c o o' ∧ Untouched heap heap' [c] ∧
        Slot heap o' (.name "props") (.reference P) ∧ Slot heap o' (.name "emits") w ∧
        heap'[P]? = some p ∧ (P ∈ refs ∨ heap.length ≤ P) := by
    have longer : heap.length ≤ (heap ++ new).length := (List.prefix_append heap new).length_le
    have grown (changed : List Ref) : Untouched heap (heap ++ new ++ [p]) changed :=
      (Untouched.append _ _ _).trans (.append _ _ _)
    obtain ⟨property, done, midway', props'⟩ :=
      midway.assign props List.mem_cons_self evaluated (grown [])
    refine ⟨_, _, _, done, midway', (grown _).trans (.set _ _ List.mem_cons_self), props',
      emits.put_of_ne (by decide) property, ?_, .inr longer⟩
    rw [List.getElem?_set_ne (Nat.ne_of_lt (Nat.lt_of_lt_of_le inside longer))]
    exact List.getElem?_concat_length
  cases before with
  | missing =>
    have object : realm.eval reads scope (.object []) heap
        = some (.reference (heap ++ []).length, heap ++ [] ++ [realm.ordinary []]) := by
      rw [List.append_nil]
      exact eval_object evalFields_nil
    obtain ⟨heap', o', P, done, rest⟩ := replaced object
    refine ⟨heap', o', P, ?_, rest⟩
    exact (execAll_cons ((exec_branch_of_truthy compared rfl).trans done)).trans execAll_nil
  | names here =>
    obtain ⟨new, evaluated⟩ := eval_fromEntries library read here
    obtain ⟨heap', o', P, done, rest⟩ := replaced evaluated
    have isArray := eval_isArray library read here
    refine ⟨heap', o', P, ?_, rest⟩
    refine (execAll_cons ((exec_branch_of_not_truthy compared rfl).trans ?_)).trans execAll_nil
    exact (execAll_cons ((exec_branch_of_truthy isArray rfl).trans done)).trans execAll_nil
  | object here definable =>
    have isArray := eval_isArray library read here
    rw [definable.notArray] at isArray
    refine ⟨heap, o, _, ?_, midway, .refl _ _, props, emits, here, .inl List.mem_cons_self⟩
    refine (execAll_cons ((exec_branch_of_not_truthy compared rfl).trans ?_)).trans execAll_nil
    exact (execAll_cons ((exec_branch_of_not_truthy isArray rfl).trans execAll_nil)).trans
      execAll_nil

/-! ### The definitions -/

section Definitions

variable {options : Options} {name : String} {bound P : Ref} {p : Obj}

/-- A prop is defined with its record. -/
theorem execAll_defineProp {prop : TypedProps.Property} (old : P < bound)
    (library : Library realm scope heap)
    (target : realm.eval reads scope (slot name "props") heap = some (.reference P, heap))
    (known : ∀ text ∈ (recordOf options prop).constructors, (scope text).isSome)
    (quiet : ∀ text ∈ prop.default, Quiet reads text) (low : bound ≤ heap.length)
    (here : heap[P]? = some p) (definable : Definable p) :
    ∃ r heap', realm.execAll reads scope
        (statementsOf options.frameworkModule name (stepOf options prop)) heap = some ((), heap') ∧
      Untouched heap heap' [P] ∧ heap.length ≤ heap'.length ∧
      heap'[P]? = some (p.put (.name prop.name) (.plain (.reference r))) ∧
      Describes realm reads scope heap' bound r (recordOf options prop) := by
  obtain ⟨r, new, evaluated, describes⟩ := eval_record realm reads scope low
    options.frameworkModule known quiet
  obtain ⟨new', defined⟩ : ∃ new', realm.eval reads scope
        (defineCall options.frameworkModule name prop.name (recordOf options prop)) heap
      = some (.reference P,
          heap.set P (p.put (.name prop.name) (.plain (.reference r))) ++ new ++ new') :=
    eval_defineProperty library target evaluated here definable
  let p' := p.put (.name prop.name) (.plain (.reference r))
  obtain ⟨inside, _⟩ := List.getElem?_eq_some_iff.mp here
  have set : Untouched (heap ++ new) (heap.set P p' ++ new) [P] := by
    rw [← List.set_append_left _ _ inside]
    exact .set _ _ List.mem_cons_self
  have grown (changed : List Ref) :
      Untouched (heap.set P p') (heap.set P p' ++ new ++ new') changed :=
    (Untouched.append _ _ _).trans (.append _ _ _)
  refine ⟨r, heap.set P p' ++ new ++ new', ?_, ?_, ?_, ?_, ?_⟩
  · have evaluated := (execAll_cons (exec_evaluate defined)).trans execAll_nil
    rw [stepOf]
    -- With documentation as comments there is one more statement in front, which does nothing.
    cases (if options.docMode == .asComment then prop.doc else []) with
    | nil => exact evaluated
    | cons line lines => exact (execAll_cons rfl).trans evaluated
  · exact (Untouched.set heap p' List.mem_cons_self).trans (grown _)
  · simp only [List.length_append, List.length_set]
    omega
  · exact grown [] P p' List.not_mem_nil (List.getElem?_set_self inside)
  · refine describes.of_untouched (set.trans (.append _ _ _)) fun r mem => ?_
    rw [List.mem_singleton.mp mem]
    exact old

/-- The props are defined one after the other. -/
theorem execAll_defineProps {props : List TypedProps.Property} (old : P < bound)
    (library : ∀ heap', Untouched heap heap' [P] → Library realm scope heap')
    (target : ∀ heap', Untouched heap heap' [P] →
      realm.eval reads scope (slot name "props") heap' = some (.reference P, heap'))
    (known : ∀ prop ∈ props, ∀ text ∈ (recordOf options prop).constructors, (scope text).isSome)
    (quiet : ∀ prop ∈ props, ∀ text ∈ prop.default, Quiet reads text)
    (nodup : (props.map (·.name)).Nodup) (low : bound ≤ heap.length) (here : heap[P]? = some p)
    (definable : Definable p) :
    ∃ heap' p', realm.execAll reads scope ((props.map (stepOf options)).flatMap
        (statementsOf options.frameworkModule name)) heap = some ((), heap') ∧
      Untouched heap heap' [P] ∧ heap'[P]? = some p' ∧
      p.SameBut p' (props.map fun prop => .name prop.name) ∧
      ∀ prop ∈ props, ∃ r, p'.own.lookup (.name prop.name) = some (.plain (.reference r)) ∧
        Describes realm reads scope heap' bound r (recordOf options prop) := by
  induction props generalizing heap p with
  | nil =>
    exact ⟨heap, p, execAll_nil, .refl _ _, here, .refl _ _,
      fun _ mem => (List.not_mem_nil mem).elim⟩
  | cons prop rest ih =>
    obtain ⟨new, nodup⟩ := List.nodup_cons.mp nodup
    obtain ⟨r, between, done, kept, longer, here', describes⟩ := execAll_defineProp old
      (library heap (.refl _ _)) (target heap (.refl _ _)) (known prop List.mem_cons_self)
      (quiet prop List.mem_cons_self) low here definable
    obtain ⟨heap', p', others, kept', here'', same, described⟩ := ih
      (fun heap' rest => library heap' (kept.trans rest))
      (fun heap' rest => target heap' (kept.trans rest))
      (fun other mem => known other (List.mem_cons_of_mem _ mem))
      (fun other mem => quiet other (List.mem_cons_of_mem _ mem)) nodup
      (Nat.le_trans low longer) here' (definable.put _ _)
    refine ⟨heap', p', ?_, kept.trans kept', here'', ?_, ?_⟩
    · rw [List.map_cons, List.flatMap_cons, execAll_append done]
      exact others
    · exact (Obj.SameBut.put p _ List.mem_cons_self).trans
        (same.mono (List.subset_cons_self _ _))
    · intro other mem
      obtain rfl | mem := List.mem_cons.mp mem
      · -- The later props have other names.
        refine ⟨r, ?_, describes.of_untouched kept' fun x mem => ?_⟩
        · rw [same.own, p.lookup_put_self]
          intro mem
          obtain ⟨later, isLater, sameName⟩ := List.mem_map.mp mem
          exact new (List.mem_map.mpr ⟨later, isLater, Key.name.inj sameName⟩)
        · rw [List.mem_singleton.mp mem]
          exact old
      · exact described other mem

end Definitions

end TypedProps.Patch
