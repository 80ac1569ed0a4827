import TypedProps.Proofs.Runtime.Evaluation

/-!
# `TypedProps.Proofs.Runtime.Laws`: what expressions and statements come to

Equations for running scripts: properties that are read and written, expressions, functions of the
library, assignments that change a prototype, statements. Each function of the evaluation is opened
here and nowhere else.

A `Slot` is a property that can be read and assigned: the object has it as a value, or may get it.
Under the name `__proto__`, ordinary objects have no slot but are `Diverted`: they inherit an
accessor from the prototype of all objects, and what is assigned becomes their prototype.

The laws of library functions need the `Library`: its functions are where scripts look for them.
Nothing that a script does to other objects changes that (`Library.of_untouched`).
-/

set_option autoImplicit false

namespace TypedProps.Runtime

variable {realm : Realm} {reads : String → Run Value} {scope : Scope} {heap heap' : Heap}

/-! ### The steps that need no others -/

theorem propertyAt_of_find {r : Ref} {key : Key} {found : Option Property}
    (isFound : heap.find r key = some found) : propertyAt r key heap = some (found, heap) := by
  rw [propertyAt, isFound]
  rfl

theorem objectAt_of_getElem? {r : Ref} {o : Obj} (here : heap[r]? = some o) :
    objectAt r heap = some (o, heap) := by
  rw [objectAt, here]
  rfl

theorem read_of_find {r : Ref} {key : Key} {v : Value} {w e c : Bool}
    (found : heap.find r key = some (some (.data v w e c))) :
    realm.read reads (.reference r) key heap = some (v, heap) := by
  rw [Realm.read.eq_def]
  exact bind_of_eq (propertyAt_of_find found)

/-- Calling a function of the library runs what the library says. -/
theorem call_of_native {f : Ref} {o : Obj} {function : Native} (here : heap[f]? = some o)
    (native : o.body = .native function) (this : Value) (arguments : List Value) :
    realm.call reads (.reference f) this arguments heap
      = realm.callNative reads function this arguments heap := by
  rw [Realm.call.eq_def]
  dsimp only
  rw [bind_of_eq (objectAt_of_getElem? here), native]

@[simp]
theorem eval_null : realm.eval reads scope .null heap = some (.null, heap) := by
  rw [Realm.eval.eq_def]
  rfl

@[simp]
theorem evalAll_nil : realm.evalAll reads scope [] heap = some ([], heap) := by
  rw [Realm.evalAll.eq_def]
  rfl

@[simp]
theorem evalFields_nil {own : List (Key × Property)} :
    realm.evalFields reads scope [] own heap = some (own, heap) := by
  rw [Realm.evalFields.eq_def]
  rfl

@[simp]
theorem mapAll_nil {f array : Value} {index : Nat} :
    realm.mapAll reads f array index [] heap = some ([], heap) := by
  rw [Realm.mapAll.eq_def]
  rfl

@[simp]
theorem readEntries_nil {own : List (Key × Property)} :
    realm.readEntries reads [] own heap = some (own, heap) := by
  rw [Realm.readEntries.eq_def]
  rfl

@[simp]
theorem execAll_nil : realm.execAll reads scope [] heap = some ((), heap) := by
  rw [Realm.execAll]
  rfl

theorem exec_evaluate {e : Expression} {v : Value}
    (evaluated : realm.eval reads scope e heap = some (v, heap')) :
    realm.exec reads scope (.evaluate e) heap = some ((), heap') := by
  rw [Realm.exec, bind_of_eq evaluated]
  rfl

/-! ### Properties that are read and written -/

/-- `Assignable found v`: what is found under a key has a value, and does not keep an object from
having a value of its own. -/
inductive Assignable : Option Property → Value → Prop
  | missing : Assignable none .undefined
  | data {v : Value} {e c : Bool} : Assignable (some (.data v true e c)) v

/-- `Slot heap o key v`: a property of an object can be read, as `v`, and assigned. -/
inductive Slot (heap : Heap) (o : Obj) (key : Key) : Value → Prop
  | own {v : Value} {e c : Bool} (notArray : o.elements? = none)
      (own : o.own.lookup key = some (.data v true e c)) : Slot heap o key v
  | inherited {v : Value} {found : Option Property} (notArray : o.elements? = none)
      (missing : o.own.lookup key = none) (extensible : o.extensible = true)
      (above : inherited heap o key = some found) (assignable : Assignable found v) :
      Slot heap o key v

namespace Slot

variable {r : Ref} {o : Obj} {key other : Key} {v : Value}

theorem notArray (slot : Slot heap o key v) : o.elements? = none := by
  cases slot <;> assumption

/-- What is found under the key is a value. -/
theorem find (slot : Slot heap o key v) (here : heap[r]? = some o) :
    ∃ found, heap.find r key = some found ∧ Assignable found v := by
  have same := Obj.getOwn_of_elements?_eq_none slot.notArray key
  cases slot with
  | own notArray own => exact ⟨_, find_of_getOwn here (same.trans own), .data⟩
  | inherited notArray missing extensible above assignable =>
    exact ⟨_, (find_of_getOwn_eq_none here (same.trans missing)).trans above, assignable⟩

/-- Reading gives the value. -/
theorem read (slot : Slot heap o key v) (here : heap[r]? = some o) :
    realm.read reads (.reference r) key heap = some (v, heap) := by
  obtain ⟨found, isFound, assignable⟩ := slot.find here
  rw [Realm.read.eq_def]
  dsimp only
  rw [bind_of_eq (propertyAt_of_find isFound)]
  cases assignable <;> rfl

/-- Writing puts a value into the object itself. -/
theorem write (slot : Slot heap o key v) (here : heap[r]? = some o) (w : Value) :
    ∃ e c, realm.write reads (.reference r) key w heap
      = some ((), heap.set r (o.put key (.data w true e c))) := by
  obtain ⟨found, isFound, assignable⟩ := slot.find here
  have goes : realm.write reads (.reference r) key w heap = writeOwn r key w heap := by
    unfold Realm.write
    dsimp only
    rw [bind_of_eq (propertyAt_of_find isFound)]
    cases assignable <;> rfl
  rw [goes, writeOwn, bind_of_eq (objectAt_of_getElem? here)]
  -- An own property keeps its attributes; for an inherited one a new property is made.
  cases slot with
  | own notArray own =>
    rw [notArray, own]
    exact ⟨_, _, rfl⟩
  | inherited notArray missing extensible above assignable =>
    rw [notArray, missing, extensible]
    exact ⟨_, _, rfl⟩

/-- A slot does not depend on objects beside the prototypes. -/
theorem of_untouched {changed : List Ref} (slot : Slot heap o key v)
    (untouched : Untouched heap heap' changed)
    (apart : ∀ q, o.prototype = some q → Apart heap q changed) : Slot heap' o key v := by
  cases slot with
  | own notArray own => exact .own notArray own
  | inherited notArray missing extensible above assignable =>
    exact .inherited notArray missing extensible
      (inherited_of_untouched untouched apart above) assignable

/-- A slot does not depend on properties under other keys. -/
theorem put_of_ne (slot : Slot heap o key v) (ne : key ≠ other) (property : Property) :
    Slot heap (o.put other property) key v := by
  cases slot with
  | own notArray own => exact .own notArray ((o.lookup_put_of_ne ne property).trans own)
  | inherited notArray missing extensible above assignable =>
    exact .inherited notArray ((o.lookup_put_of_ne ne property).trans missing) extensible above
      assignable

/-- Nor does it need a prototype. -/
theorem without_prototype (slot : Slot heap o key v) :
    ∃ v, Slot heap { o with prototype := none } key v := by
  cases slot with
  | own notArray own => exact ⟨v, .own notArray own⟩
  | inherited notArray missing extensible above assignable =>
    exact ⟨.undefined, .inherited notArray missing extensible rfl .missing⟩

end Slot

/-! ### Expressions -/

@[simp]
theorem eval_boolean (b : Bool) :
    realm.eval reads scope (.boolean b) heap = some (.boolean b, heap) := by
  rw [Realm.eval.eq_def]
  rfl

@[simp]
theorem eval_string (text : String) :
    realm.eval reads scope (.string text) heap = some (.string text, heap) := by
  rw [Realm.eval.eq_def]
  rfl

/-- A text of the source evaluates to what it reads as. -/
@[simp]
theorem eval_source (text : String) :
    realm.eval reads scope (.source text) heap = reads text heap := by
  rw [Realm.eval.eq_def]

/-- What an expression asserts about its type does not matter. -/
@[simp]
theorem eval_asserted (inner : Expression) (type : String) :
    realm.eval reads scope (.asserted inner type) heap = realm.eval reads scope inner heap := by
  rw [Realm.eval.eq_def]

theorem eval_name {text : String} {v : Value} (known : scope text = some v) :
    realm.eval reads scope (.name text) heap = some (v, heap) := by
  rw [Realm.eval.eq_def]
  dsimp only
  rw [known]
  rfl

/-- A property of the value of a name. -/
theorem eval_slot {name key : String} {c : Ref} {o : Obj} {v : Value}
    (known : scope name = some (.reference c)) (here : heap[c]? = some o)
    (slot : Slot heap o (.name key) v) :
    realm.eval reads scope (.member (.name name) key) heap = some (v, heap) := by
  rw [Realm.eval.eq_def]
  dsimp only
  rw [bind_of_eq (eval_name known)]
  exact slot.read here

theorem eval_array {elements : List Expression} {vs : List Value}
    (all : realm.evalAll reads scope elements heap = some (vs, heap')) :
    realm.eval reads scope (.array elements) heap
      = some (.reference heap'.length, heap' ++ [realm.arrayOf vs]) := by
  rw [Realm.eval.eq_def]
  exact bind_of_eq all

theorem eval_object {fields : List Field} {own : List (Key × Property)}
    (all : realm.evalFields reads scope fields [] heap = some (own, heap')) :
    realm.eval reads scope (.object fields) heap
      = some (.reference heap'.length, heap' ++ [realm.ordinary own]) := by
  rw [Realm.eval.eq_def]
  exact bind_of_eq all

theorem eval_equals {left right : Expression} {v w : Value} {heap'' : Heap}
    (isLeft : realm.eval reads scope left heap = some (v, heap'))
    (isRight : realm.eval reads scope right heap' = some (w, heap'')) :
    realm.eval reads scope (.equals left right) heap = some (.boolean (v == w), heap'') := by
  rw [Realm.eval.eq_def]
  dsimp only
  rw [bind_of_eq isLeft, bind_of_eq isRight]
  rfl

theorem evalAll_cons {e : Expression} {rest : List Expression} {v : Value} {vs : List Value}
    {heap'' : Heap} (first : realm.eval reads scope e heap = some (v, heap'))
    (others : realm.evalAll reads scope rest heap' = some (vs, heap'')) :
    realm.evalAll reads scope (e :: rest) heap = some (v :: vs, heap'') := by
  rw [Realm.evalAll.eq_def]
  dsimp only
  rw [bind_of_eq first, bind_of_eq others]
  rfl

/-- Strings evaluate to themselves. -/
theorem evalAll_strings (names : List String) :
    realm.evalAll reads scope (names.map .string) heap = some (names.map .string, heap) := by
  induction names with
  | nil => exact evalAll_nil
  | cons name rest ih =>
    exact evalAll_cons (eval_string name) ih

theorem evalFields_cons {key : String} {value : Expression} {rest : List Field}
    {own : List (Key × Property)} {v : Value}
    (first : realm.eval reads scope value heap = some (v, heap')) :
    realm.evalFields reads scope (.mk key value :: rest) own heap
      = realm.evalFields reads scope rest (Keyed.put (.name key) (.plain v) own) heap' := by
  rw [Realm.evalFields.eq_def]
  exact bind_of_eq first

/-! ### The library -/

/-- `IsMethod heap r key f function`: an object has a function of the library under a key. -/
structure IsMethod (heap : Heap) (r : Ref) (key : String) (f : Ref) (function : Native) : Prop where
  own : ∃ o w e c, heap[r]? = some o ∧ o.getOwn (.name key) = some (.data (.reference f) w e c)
  native : ∃ o, heap[f]? = some o ∧ o.body = .native function

/-- The objects of the library that matter for patches. -/
def Realm.refs (realm : Realm) : List Ref :=
  [realm.objectPrototype, realm.arrayPrototype, realm.object, realm.array, realm.isArray,
    realm.fromEntries, realm.defineProperty, realm.map, realm.push, realm.setPrototype]

/-- The library is in scope, and nobody has changed it. -/
structure Library (realm : Realm) (scope : Scope) (heap : Heap) : Prop where
  undefined : scope "undefined" = some .undefined
  object : scope "Object" = some (.reference realm.object)
  array : scope "Array" = some (.reference realm.array)
  isArray : IsMethod heap realm.array "isArray" realm.isArray .isArray
  fromEntries : IsMethod heap realm.object "fromEntries" realm.fromEntries .fromEntries
  defineProperty : IsMethod heap realm.object "defineProperty" realm.defineProperty .defineProperty
  map : IsMethod heap realm.arrayPrototype "map" realm.map .map
  push : IsMethod heap realm.arrayPrototype "push" realm.push .push
  objectPrototype : ∃ o e c, heap[realm.objectPrototype]? = some o ∧ o.prototype = none ∧
    o.getOwn (.name "get") = none ∧ o.getOwn (.name "set") = none ∧
    o.getOwn (.name "__proto__")
      = some (.accessor (some realm.getPrototype) (some realm.setPrototype) e c)
  setPrototype : ∃ o, heap[realm.setPrototype]? = some o ∧ o.body = .native .setPrototype

theorem IsMethod.of_untouched {changed : List Ref} {r f : Ref} {key : String} {function : Native}
    (method : IsMethod heap r key f function) (untouched : Untouched heap heap' changed)
    (apart : r ∉ changed) (apart' : f ∉ changed) : IsMethod heap' r key f function := by
  obtain ⟨⟨o, w, e, c, here, own⟩, ⟨o', here', native⟩⟩ := method
  exact ⟨⟨o, w, e, c, untouched r o apart here, own⟩, ⟨o', untouched f o' apart' here', native⟩⟩

/-- The library stays while its objects do. -/
theorem Library.of_untouched {changed : List Ref} (library : Library realm scope heap)
    (untouched : Untouched heap heap' changed) (apart : ∀ r ∈ realm.refs, r ∉ changed) :
    Library realm scope heap' where
  undefined := library.undefined
  object := library.object
  array := library.array
  isArray := library.isArray.of_untouched untouched (apart _ (by simp [Realm.refs]))
    (apart _ (by simp [Realm.refs]))
  fromEntries := library.fromEntries.of_untouched untouched (apart _ (by simp [Realm.refs]))
    (apart _ (by simp [Realm.refs]))
  defineProperty := library.defineProperty.of_untouched untouched (apart _ (by simp [Realm.refs]))
    (apart _ (by simp [Realm.refs]))
  map := library.map.of_untouched untouched (apart _ (by simp [Realm.refs]))
    (apart _ (by simp [Realm.refs]))
  push := library.push.of_untouched untouched (apart _ (by simp [Realm.refs]))
    (apart _ (by simp [Realm.refs]))
  objectPrototype := by
    obtain ⟨o, e, c, here, rest⟩ := library.objectPrototype
    exact ⟨o, e, c, untouched _ o (apart _ (by simp [Realm.refs])) here, rest⟩
  setPrototype := by
    obtain ⟨o, here, native⟩ := library.setPrototype
    exact ⟨o, untouched _ o (apart _ (by simp [Realm.refs])) here, native⟩

namespace IsMethod

variable {r f : Ref} {key : String} {function : Native}

theorem find (method : IsMethod heap r key f function) :
    ∃ w e c, heap.find r (.name key) = some (some (.data (.reference f) w e c)) := by
  obtain ⟨o, w, e, c, here, own⟩ := method.own
  exact ⟨w, e, c, find_of_getOwn here own⟩

theorem call (method : IsMethod heap r key f function) (this : Value) (arguments : List Value) :
    realm.call reads (.reference f) this arguments heap
      = realm.callNative reads function this arguments heap := by
  obtain ⟨o, here, native⟩ := method.native
  exact call_of_native here native this arguments

end IsMethod

/-- Calling what is found under a key of an object. The function is looked up before the arguments
are evaluated, and called in the heap that they leave. -/
theorem eval_call {object : Expression} {arguments : List Expression} {target f : Value}
    {key : String} {vs : List Value} {heap'' : Heap}
    (this : realm.eval reads scope object heap = some (target, heap'))
    (function : realm.read reads target (.name key) heap' = some (f, heap'))
    (all : realm.evalAll reads scope arguments heap' = some (vs, heap'')) :
    realm.eval reads scope (.call (.member object key) arguments) heap
      = realm.call reads f target vs heap'' := by
  have callee : realm.evalCallee reads scope (.member object key) heap
      = some ((target, f), heap') := by
    rw [Realm.evalCallee.eq_def]
    dsimp only
    rw [bind_of_eq this, bind_of_eq function]
    rfl
  rw [Realm.eval.eq_def]
  dsimp only
  rw [bind_of_eq callee]
  exact bind_of_eq all

/-- Calling a function of the library under its name, such as `Array.isArray`. -/
theorem eval_libraryCall {name key : String} {r f : Ref} {function : Native}
    {arguments : List Expression} {vs : List Value} (known : scope name = some (.reference r))
    (method : IsMethod heap r key f function) (method' : IsMethod heap' r key f function)
    (all : realm.evalAll reads scope arguments heap = some (vs, heap')) :
    realm.eval reads scope (.call (.member (.name name) key) arguments) heap
      = realm.callNative reads function (.reference r) vs heap' := by
  obtain ⟨w, e, c, found⟩ := method.find
  rw [eval_call (eval_name known) (read_of_find found) all]
  exact method'.call _ _

/-! ### Arrays -/

/-- Indices are written in digits. -/
theorem toString_ne {s : String} {c : Char} (mem : c ∈ s.toList) (notDigit : c.isDigit = false)
    (i : Nat) : toString i ≠ s := by
  rintro rfl
  have written : c ∈ Nat.toDigits 10 i := by
    have same : (toString i).toList = Nat.toDigits 10 i := by
      show (Nat.repr i).toList = _
      rw [Nat.repr, String.toList_ofList]
    rwa [same] at mem
  rw [Nat.isDigit_of_mem_toDigits (by decide) (by decide) written] at notDigit
  cases notDigit

/-- A plain array has no methods of its own. -/
theorem getOwn_arrayOf (elements : List Value) {key : String} {c : Char} (mem : c ∈ key.toList)
    (notDigit : c.isDigit = false) (notLength : key ≠ "length") :
    (realm.arrayOf elements).getOwn (.name key) = none := by
  have none : (elements.mapIdx fun i value => (Key.name (toString i), Property.plain value)).lookup
      (.name key) = none := by
    rw [List.lookup_eq_none_iff]
    intro entry isEntry
    obtain ⟨i, _, rfl⟩ := List.mem_mapIdx.mp isEntry
    have differs : toString i ≠ key := toString_ne mem notDigit i
    exact bne_iff_ne.mpr fun same => differs (Key.name.inj same).symm
  show (if Key.name key = .name "length" then _ else _) = _
  rw [if_neg (by simpa using notLength), none]
  rfl

/-- A plain array has the methods of its prototype. -/
theorem read_arrayOf {a f : Ref} {elements : List Value} {key : String} {function : Native}
    {c : Char} (here : heap[a]? = some (realm.arrayOf elements))
    (method : IsMethod heap realm.arrayPrototype key f function) (mem : c ∈ key.toList)
    (notDigit : c.isDigit = false) (notLength : key ≠ "length") :
    realm.read reads (.reference a) (.name key) heap = some (.reference f, heap) := by
  obtain ⟨w, e, c, found⟩ := method.find
  have missing : (realm.arrayOf elements).getOwn (.name key) = none :=
    getOwn_arrayOf elements mem notDigit notLength
  exact read_of_find ((find_of_getOwn_eq_none here missing).trans found)

/-- The pair that a name is turned into. -/
def Realm.entry (realm : Realm) (name : String) : Obj := realm.arrayOf [.string name, .null]

/-- The function `(key) => [key, null]`. -/
def entryExpression : Expression := .array [.name "key", .null]

/-- Names are turned into pairs. -/
theorem mapAll_entries {f : Ref} (array : Value) (names : List String) (index : Nat) (heap : Heap)
    (function : heap[f]? = some (realm.closure "key" entryExpression scope)) :
    realm.mapAll reads (.reference f) array index (names.map .string) heap
      = some ((List.range' heap.length names.length).map .reference,
          heap ++ names.map realm.entry) := by
  -- Each call adds one pair to the heap, so the heap is general in the induction.
  induction names generalizing index heap with
  | nil => simp
  | cons name rest ih =>
    have made : realm.call reads (.reference f) .undefined
        [.string name, .number index, array] heap
          = some (.reference heap.length, heap ++ [realm.entry name]) := by
      rw [Realm.call.eq_def]
      dsimp only
      rw [bind_of_eq (objectAt_of_getElem? function)]
      exact eval_array (evalAll_cons (eval_name rfl) (evalAll_cons eval_null evalAll_nil))
    have others := ih (index + 1) (heap ++ [realm.entry name])
      (Untouched.append heap _ [] f _ (List.not_mem_nil) function)
    rw [List.map_cons, Realm.mapAll.eq_def]
    dsimp only
    rw [bind_of_eq made, bind_of_eq others]
    simp [List.range'_succ]
    rfl

/-- The properties that some names have without records. -/
def named (names : List String) (own : List (Key × Property)) : List (Key × Property) :=
  names.foldl (fun own name => Keyed.put (.name name) (.plain .null) own) own

/-- Each of the names is there. -/
theorem lookup_named (names : List String) (own : List (Key × Property)) (key : Key) :
    (named names own).lookup key
      = if key ∈ names.map .name then some (.plain .null) else own.lookup key := by
  induction names generalizing own with
  | nil => rfl
  | cons name rest ih =>
    rw [named, List.foldl_cons]
    refine (ih _).trans ?_
    by_cases same : key = .name name
    · subst same
      rw [Keyed.lookup_put_self]
      simp
    · rw [Keyed.lookup_put_of_ne same]
      simp [same]

/-- Pairs are turned into properties. -/
theorem readEntries_entries (names : List String) (start : Nat) (own : List (Key × Property))
    (entries : ∀ (j : Nat) (name : String), names[j]? = some name →
      heap[start + j]? = some (realm.entry name)) :
    realm.readEntries reads ((List.range' start names.length).map .reference) own heap
      = some (named names own, heap) := by
  -- The pairs lie one behind the other; the next step begins one further on and with one property
  -- more.
  induction names generalizing start own with
  | nil => exact readEntries_nil
  | cons name rest ih =>
    have here : heap[start]? = some (realm.entry name) := entries 0 name rfl
    have key : heap.find start (.name "0") = some (some (.plain (.string name))) :=
      find_of_getOwn here rfl
    have value : heap.find start (.name "1") = some (some (.plain .null)) := by
      have zero : (Key.name "1" == Key.name (Nat.repr 0)) = false := by decide
      have one : (Key.name "1" == Key.name (Nat.repr 1)) = true := by decide
      refine find_of_getOwn here ?_
      simp [Realm.entry, Realm.arrayOf, Obj.getOwn, Obj.elements?, List.lookup_cons, zero, one]
    have others := ih (start + 1) (Keyed.put (.name name) (.plain .null) own) fun j name' mem => by
      rw [Nat.add_assoc, Nat.add_comm 1 j]
      exact entries (j + 1) name' mem
    rw [List.length_cons, List.range'_succ, List.map_cons, Realm.readEntries.eq_def]
    dsimp only
    rw [bind_of_eq (read_of_find key), bind_of_eq (read_of_find value)]
    exact others

/-- `Array.isArray` tells arrays from other objects. -/
theorem eval_isArray {e : Expression} {r : Ref} {o : Obj} (library : Library realm scope heap)
    (isObject : realm.eval reads scope e heap = some (.reference r, heap))
    (here : heap[r]? = some o) :
    realm.eval reads scope (.call (.member (.name "Array") "isArray") [e]) heap
      = some (.boolean o.elements?.isSome, heap) := by
  rw [eval_libraryCall library.array library.isArray library.isArray
    (evalAll_cons isObject evalAll_nil), Realm.callNative.eq_def]
  exact bind_of_eq (objectAt_of_getElem? here)

/-- `Object.fromEntries` of `a.map((key) => [key, null])` makes an object of a list of names. -/
theorem eval_fromEntries {e : Expression} {a : Ref} {names : List String}
    (library : Library realm scope heap)
    (array : realm.eval reads scope e heap = some (.reference a, heap))
    (here : heap[a]? = some (realm.arrayOf (names.map .string))) :
    ∃ new, realm.eval reads scope
        (.call (.member (.name "Object") "fromEntries")
          [.call (.member e "map") [.arrow "key" entryExpression]]) heap
      = some (.reference (heap ++ new).length,
          heap ++ new ++ [realm.ordinary (named names [])]) := by
  -- The function, the pairs, and the array of the pairs are new.
  let closure := realm.closure "key" entryExpression scope
  let start := (heap ++ [closure]).length
  let references := (List.range' start names.length).map Value.reference
  let new := [closure] ++ names.map realm.entry ++ [realm.arrayOf references]
  have arrow : realm.evalAll reads scope [.arrow "key" entryExpression] heap
      = some ([.reference heap.length], heap ++ [closure]) := by
    refine evalAll_cons ?_ evalAll_nil
    rw [Realm.eval.eq_def]
    rfl
  have kept : Untouched heap (heap ++ [closure]) [] := .append _ _ _
  have map := library.map.of_untouched kept List.not_mem_nil List.not_mem_nil
  have mapped : realm.eval reads scope (.call (.member e "map") [.arrow "key" entryExpression]) heap
      = some (.reference (heap ++ [closure] ++ names.map realm.entry).length, heap ++ new) := by
    have method : realm.read reads (.reference a) (.name "map") heap
        = some (.reference realm.map, heap) :=
      read_arrayOf (c := 'm') here library.map (by decide) rfl (by decide)
    rw [eval_call array method arrow, map.call, Realm.callNative.eq_def]
    dsimp only
    rw [bind_of_eq (objectAt_of_getElem? (kept a _ List.not_mem_nil here))]
    have all : realm.mapAll reads (.reference heap.length) (.reference a) 0 (names.map .string)
          (heap ++ [closure])
        = some (references, heap ++ [closure] ++ names.map realm.entry) :=
      mapAll_entries _ names 0 _ (List.getElem?_concat_length : _ = some closure)
    show (realm.mapAll reads (.reference heap.length) (.reference a) 0 (names.map .string) >>= _)
      (heap ++ [closure]) = _
    rw [bind_of_eq all]
    simp [allocate, new, references, start]
  have kept' : Untouched heap (heap ++ new) [] := .append _ _ _
  have made : (heap ++ new)[(heap ++ [closure] ++ names.map realm.entry).length]?
      = some (realm.arrayOf references) := by
    simp [new]
  have entries (j : Nat) (name : String) (mem : names[j]? = some name) :
      (heap ++ new)[start + j]? = some (realm.entry name) := by
    have split : heap ++ new
        = (heap ++ [closure]) ++ (names.map realm.entry ++ [realm.arrayOf references]) := by
      simp [new]
    obtain ⟨lt, _⟩ := List.getElem?_eq_some_iff.mp mem
    rw [split, List.getElem?_append_right (Nat.le_add_right start j), Nat.add_sub_cancel_left,
      List.getElem?_append_left (by simpa using lt), List.getElem?_map, mem]
    rfl
  refine ⟨new, ?_⟩
  rw [eval_libraryCall library.object library.fromEntries
    (library.fromEntries.of_untouched kept' List.not_mem_nil List.not_mem_nil)
    (evalAll_cons mapped evalAll_nil), Realm.callNative.eq_def]
  dsimp only
  rw [bind_of_eq (objectAt_of_getElem? made)]
  show (realm.readEntries reads references [] >>= _) (heap ++ new) = _
  rw [bind_of_eq (readEntries_entries names start [] entries)]
  rfl

/-- `a.push(...)` appends to an array. -/
theorem eval_push {e : Expression} {a : Ref} {elements vs : List Value}
    {arguments : List Expression} (library : Library realm scope heap)
    (array : realm.eval reads scope e heap = some (.reference a, heap))
    (here : heap[a]? = some (realm.arrayOf elements))
    (all : realm.evalAll reads scope arguments heap = some (vs, heap)) :
    realm.eval reads scope (.call (.member e "push") arguments) heap
      = some (.number (elements.length + vs.length),
          heap.set a (realm.arrayOf (elements ++ vs))) := by
  have method : realm.read reads (.reference a) (.name "push") heap
      = some (.reference realm.push, heap) :=
    read_arrayOf (c := 'p') here library.push (by decide) rfl (by decide)
  rw [eval_call array method all, library.push.call, Realm.callNative.eq_def]
  dsimp only
  rw [append, bind_of_eq (objectAt_of_getElem? here)]
  rfl

/-! ### Definitions -/

theorem attributeOf_of_find {r : Ref} {name : String} {v : Value} {w e c : Bool}
    (found : heap.find r (.name name) = some (some (.data v w e c))) :
    realm.attributeOf reads (.reference r) name heap = some (some v, heap) := by
  rw [Realm.attributeOf.eq_def]
  dsimp only
  rw [bind_of_eq (propertyAt_of_find found)]
  dsimp only
  rw [bind_of_eq (read_of_find found)]
  rfl

theorem attributeOf_missing {r : Ref} {name : String}
    (found : heap.find r (.name name) = some none) :
    realm.attributeOf reads (.reference r) name heap = some (none, heap) := by
  rw [Realm.attributeOf.eq_def]
  dsimp only
  rw [bind_of_eq (propertyAt_of_find found)]
  rfl

/-- The attributes of a property without restrictions. -/
def plainAttributes (v : Value) : List (Key × Property) :=
  [(.name "configurable", .plain (.boolean true)), (.name "enumerable", .plain (.boolean true)),
    (.name "writable", .plain (.boolean true)), (.name "value", .plain v)]

/-- They describe a property without restrictions. -/
theorem descriptorOf_plainAttributes {r : Ref} {v : Value} (library : Library realm scope heap)
    (here : heap[r]? = some (realm.ordinary (plainAttributes v))) :
    realm.descriptorOf reads (.reference r) heap
      = some (⟨some v, some true, some true, some true, none, none⟩, heap) := by
  have own {name : String} {w : Value}
      (known : (plainAttributes v).lookup (.name name) = some (.plain w)) :
      realm.attributeOf reads (.reference r) name heap = some (some w, heap) := by
    exact attributeOf_of_find
      (find_of_getOwn here ((Obj.getOwn_of_elements?_eq_none rfl _).trans known))
  -- An accessor is not described: neither the object nor its prototype says anything of the kind.
  obtain ⟨o, _, _, above, top, noGetter, noSetter, _⟩ := library.objectPrototype
  have missing {name : String} (unknown : (plainAttributes v).lookup (.name name) = none)
      (notAbove : o.getOwn (.name name) = none) :
      realm.attributeOf reads (.reference r) name heap = some (none, heap) := by
    refine attributeOf_missing ?_
    rw [find_of_getOwn_eq_none here ((Obj.getOwn_of_elements?_eq_none rfl _).trans unknown)]
    show heap.find realm.objectPrototype (.name name) = _
    rw [find_of_getOwn_eq_none above notAbove, inherited, top]
  rw [Realm.descriptorOf.eq_def, bind_of_eq (own rfl), bind_of_eq (own rfl), bind_of_eq (own rfl),
    bind_of_eq (own rfl), bind_of_eq (missing rfl noGetter), bind_of_eq (missing rfl noSetter)]
  rfl

/-- The properties of an object expression that describes a property without restrictions. -/
def plainFields (value : Expression) : List Field :=
  [.mk "configurable" (.boolean true), .mk "enumerable" (.boolean true),
    .mk "writable" (.boolean true), .mk "value" value]

/-- `Object.defineProperty` puts a value under a key of an object. -/
theorem eval_defineProperty {e value : Expression} {r : Ref} {o : Obj} {key : String} {v : Value}
    {new : List Obj} (library : Library realm scope heap)
    (target : realm.eval reads scope e heap = some (.reference r, heap))
    (evaluated : realm.eval reads scope value heap = some (v, heap ++ new))
    (here : heap[r]? = some o) (definable : Definable o) :
    ∃ new', realm.eval reads scope (.call (.member (.name "Object") "defineProperty")
        [e, .string key, .object (plainFields value)]) heap
      = some (.reference r, heap.set r (o.put (.name key) (.plain v)) ++ new ++ new') := by
  let attributes := realm.ordinary (plainAttributes v)
  have fields : realm.evalFields reads scope (plainFields value) [] heap
      = some (plainAttributes v, heap ++ new) := by
    rw [plainFields, evalFields_cons (eval_boolean true), evalFields_cons (eval_boolean true),
      evalFields_cons (eval_boolean true), evalFields_cons evaluated, evalFields_nil]
    rfl
  have all : realm.evalAll reads scope [e, .string key, .object (plainFields value)] heap
      = some ([.reference r, .string key, .reference (heap ++ new).length],
          heap ++ new ++ [attributes]) :=
    evalAll_cons target
      (evalAll_cons (eval_string key) (evalAll_cons (eval_object fields) evalAll_nil))
  have kept : Untouched heap (heap ++ new ++ [attributes]) [] :=
    (Untouched.append _ _ _).trans (.append _ _ _)
  have described : realm.descriptorOf reads (.reference (heap ++ new).length)
        (heap ++ new ++ [attributes])
      = some (⟨some v, some true, some true, some true, none, none⟩,
          heap ++ new ++ [attributes]) :=
    descriptorOf_plainAttributes (library.of_untouched kept fun _ _ => List.not_mem_nil)
      List.getElem?_concat_length
  -- The object itself is as it was: evaluating the arguments only added to the heap.
  have defined := define_plain (.name key) v (kept r o List.not_mem_nil here) definable
  obtain ⟨inside, _⟩ := List.getElem?_eq_some_iff.mp here
  refine ⟨[attributes], ?_⟩
  rw [eval_libraryCall library.object library.defineProperty
    (library.defineProperty.of_untouched kept List.not_mem_nil List.not_mem_nil) all,
    Realm.callNative.eq_def]
  have keyed : keyOf (.string key) (heap ++ new ++ [attributes])
      = some (.name key, heap ++ new ++ [attributes]) := rfl
  dsimp only
  rw [bind_of_eq keyed, bind_of_eq described]
  show (define (heap ++ new ++ [attributes]) r (.name key) _).map _ = _
  rw [defined, List.append_assoc, List.append_assoc, List.set_append_left _ _ inside]
  rfl

/-! ### Prototypes -/

/-- `Diverted realm heap o key`: what is assigned under a key becomes the prototype of the object,
because the object inherits the accessor for prototypes under the key. -/
structure Diverted (realm : Realm) (heap : Heap) (o : Obj) (key : Key) : Prop where
  notArray : o.elements? = none
  missing : o.own.lookup key = none
  extensible : o.extensible = true
  above : ∃ getter e c, inherited heap o key
    = some (some (.accessor getter (some realm.setPrototype) e c))

namespace Diverted

variable {r : Ref} {o : Obj} {key other : Key}

/-- Properties under other keys do not matter. -/
theorem put_iff (ne : key ≠ other) (property : Property) :
    Diverted realm heap (o.put other property) key ↔ Diverted realm heap o key := by
  have same := o.lookup_put_of_ne ne property
  constructor
  · intro ⟨notArray, missing, extensible, above⟩
    exact ⟨notArray, same.symm.trans missing, extensible, above⟩
  · intro ⟨notArray, missing, extensible, above⟩
    exact ⟨notArray, same.trans missing, extensible, above⟩

/-- An object without a prototype inherits nothing of the kind. -/
theorem prototype_ne (diverted : Diverted realm heap o key) : o.prototype ≠ none := by
  intro none
  obtain ⟨getter, e, c, above⟩ := diverted.above
  rw [inherited, none] at above
  cases above

/-- What is assigned in this way is no slot. -/
theorem not_slot {v : Value} (diverted : Diverted realm heap o key) : ¬ Slot heap o key v := by
  intro slot
  cases slot with
  | own notArray own =>
    rw [diverted.missing] at own
    cases own
  | inherited notArray missing extensible above assignable =>
    obtain ⟨getter, e, c, isAccessor⟩ := diverted.above
    rw [isAccessor] at above
    cases above
    cases assignable

theorem of_untouched {changed : List Ref} (diverted : Diverted realm heap o key)
    (untouched : Untouched heap heap' changed)
    (apart : ∀ q, o.prototype = some q → Apart heap q changed) : Diverted realm heap' o key where
  notArray := diverted.notArray
  missing := diverted.missing
  extensible := diverted.extensible
  above := by
    obtain ⟨getter, e, c, above⟩ := diverted.above
    exact ⟨getter, e, c, inherited_of_untouched untouched apart above⟩

/-- Assigning `null` under such a key takes the prototype away. -/
theorem write (diverted : Diverted realm heap o key) (library : Library realm scope heap)
    (here : heap[r]? = some o) :
    realm.write reads (.reference r) key .null heap
      = some ((), heap.set r { o with prototype := none }) := by
  -- The object has no such property, so the lookup goes up to the accessor and calls its setter.
  obtain ⟨getter, e, c, above⟩ := diverted.above
  have found : heap.find r key = some (some (.accessor getter (some realm.setPrototype) e c)) := by
    have same := Obj.getOwn_of_elements?_eq_none diverted.notArray key
    exact (find_of_getOwn_eq_none here (same.trans diverted.missing)).trans above
  obtain ⟨setter, isSetter, native⟩ := library.setPrototype
  have changed : writePrototype r none heap
      = some ((), heap.set r { o with prototype := none }) := by
    rw [writePrototype, bind_of_eq (objectAt_of_getElem? here), if_neg diverted.prototype_ne,
      diverted.extensible]
    rfl
  have called : realm.call reads (.reference realm.setPrototype) (.reference r) [.null] heap
      = some (.undefined, heap.set r { o with prototype := none }) := by
    rw [call_of_native isSetter native, Realm.callNative.eq_def]
    dsimp only
    rw [bind_of_eq changed]
    rfl
  unfold Realm.write
  dsimp only
  rw [bind_of_eq (propertyAt_of_find found)]
  dsimp only
  rw [bind_of_eq called]
  rfl

end Diverted

/-! ### Statements -/

/-- `null` is assigned under a string. -/
theorem exec_assign_index {e : Expression} {r : Ref} (key : String)
    (target : realm.eval reads scope e heap = some (.reference r, heap)) :
    realm.exec reads scope (.assign (.index e (.string key)) .null) heap
      = realm.write reads (.reference r) (.name key) .null heap := by
  have keyed : keyOf (.string key) heap = some (.name key, heap) := rfl
  rw [Realm.exec, Realm.assign, bind_of_eq target, bind_of_eq (eval_string key), bind_of_eq keyed,
    bind_of_eq eval_null]

theorem exec_branch_of_truthy {condition : Expression} {body otherwise : List Statement} {v : Value}
    (evaluated : realm.eval reads scope condition heap = some (v, heap')) (truthy : v.truthy) :
    realm.exec reads scope (.branch condition body otherwise) heap
      = realm.execAll reads scope body heap' := by
  rw [Realm.exec, bind_of_eq evaluated, truthy]
  rfl

theorem exec_branch_of_not_truthy {condition : Expression} {body otherwise : List Statement}
    {v : Value} (evaluated : realm.eval reads scope condition heap = some (v, heap'))
    (not : v.truthy = false) :
    realm.exec reads scope (.branch condition body otherwise) heap
      = realm.execAll reads scope otherwise heap' := by
  rw [Realm.exec, bind_of_eq evaluated, not]
  rfl

theorem execAll_cons {statement : Statement} {rest : List Statement}
    (first : realm.exec reads scope statement heap = some ((), heap')) :
    realm.execAll reads scope (statement :: rest) heap = realm.execAll reads scope rest heap' := by
  rw [Realm.execAll, bind_of_eq first]

theorem execAll_append {first rest : List Statement}
    (done : realm.execAll reads scope first heap = some ((), heap')) :
    realm.execAll reads scope (first ++ rest) heap = realm.execAll reads scope rest heap' := by
  induction first generalizing heap with
  | nil =>
    rw [Realm.execAll] at done
    cases done
    rfl
  | cons statement others ih =>
    rw [Realm.execAll] at done
    obtain ⟨⟨_, between⟩, ended, remaining⟩ := Option.bind_eq_some_iff.mp done
    rw [List.cons_append, execAll_cons ended]
    exact ih remaining

end TypedProps.Runtime
