import Mathlib.Logic.Relation
import TypedProps.Keyed
import TypedProps.Proofs.Runtime.Syntax

/-!
# `TypedProps.Proofs.Runtime.Objects`: objects and their properties

Values, objects and heaps of a running script, with the operations on them that no script code takes
part in. An object has a prototype, from which it inherits, and own properties; a property holds a
value, or is an accessor. Elements of an array are properties under their indices.

`Heap.find` looks a property up along the prototypes, and `define` is what `Object.defineProperty`
does to an object. Lookups do not see what happens to objects they do not come by
(`find_of_untouched`).
-/

set_option autoImplicit false

namespace TypedProps.Runtime

/-- The place of an object on the heap. -/
abbrev Ref := Nat

/-- A value. -/
inductive Value where
  | undefined | null
  | boolean (value : Bool)
  | number (value : Nat)
  | string (value : String)
  | reference (object : Ref)
deriving DecidableEq, Repr, Inhabited

/-- Whether a value passes for `true` as a condition. -/
def Value.truthy : Value → Bool
  | .undefined | .null => false
  | .boolean b => b
  | .number n => n != 0
  | .string s => s != ""
  | .reference _ => true

/-- The key of a property. -/
inductive Key where
  | name (text : String)
  | symbol (id : Nat)
deriving DecidableEq, Repr, Inhabited

/-- A property: a value, or functions that are called to read and to write it. -/
inductive Property where
  | data (value : Value) (writable enumerable configurable : Bool)
  | accessor (getter setter : Option Ref) (enumerable configurable : Bool)
deriving DecidableEq, Repr, Inhabited

namespace Property

/-- A property without restrictions, such as an assignment makes. -/
def plain (value : Value) : Property := .data value true true true

/-- Whether a property may be defined anew. -/
def configurable : Property → Bool
  | .data _ _ _ c | .accessor _ _ _ c => c

end Property

/-- The functions of the library that patches can reach. -/
inductive Native where
  /-- `Array.isArray` -/
  | isArray
  /-- `Object.fromEntries` -/
  | fromEntries
  /-- `Object.defineProperty` -/
  | defineProperty
  /-- `Array.prototype.map` -/
  | map
  /-- `Array.prototype.push` -/
  | push
  /-- The functions of the accessor `Object.prototype.__proto__`. -/
  | getPrototype | setPrototype
deriving DecidableEq, Repr, Inhabited

/-- The values of the names in scope. -/
abbrev Scope := String → Option Value

/-- What an object is beside its properties. -/
inductive Body where
  | ordinary
  | array (elements : List Value)
  | native (function : Native)
  | closure (parameter : String) (result : Expression) (scope : Scope)

/-- An object. -/
structure Obj where
  prototype : Option Ref
  extensible : Bool
  /-- Its own properties, apart from the elements and the length of an array. -/
  own : List (Key × Property)
  body : Body

/-- The objects of a running script. -/
abbrev Heap := List Obj

namespace Obj

/-- The elements of an array. -/
def elements? (o : Obj) : Option (List Value) :=
  match o.body with
  | .array elements => some elements
  | _ => none

/-- An own property of an object. -/
def getOwn (o : Obj) (key : Key) : Option Property :=
  match o.elements? with
  | none => o.own.lookup key
  | some elements =>
    if key = .name "length" then some (.data (.number elements.length) true false false)
    else
      ((elements.mapIdx fun i value => (Key.name (toString i), Property.plain value)).lookup key).or
        (o.own.lookup key)

/-- The object with an own property put under a key. -/
def put (o : Obj) (key : Key) (property : Property) : Obj :=
  { o with own := Keyed.put key property o.own }

theorem lookup_put_self (o : Obj) (key : Key) (property : Property) :
    (o.put key property).own.lookup key = some property :=
  Keyed.lookup_put_self key property o.own

theorem lookup_put_of_ne (o : Obj) {key other : Key} (ne : other ≠ key) (property : Property) :
    (o.put key property).own.lookup other = o.own.lookup other :=
  Keyed.lookup_put_of_ne ne property o.own

theorem getOwn_of_elements?_eq_none {o : Obj} (notArray : o.elements? = none) (key : Key) :
    o.getOwn key = o.own.lookup key := by
  rw [getOwn, notArray]

/-- Two objects differ at most in their own properties under some keys. -/
structure SameBut (o o' : Obj) (keys : List Key) : Prop where
  prototype : o'.prototype = o.prototype
  extensible : o'.extensible = o.extensible
  body : o'.body = o.body
  own : ∀ key ∉ keys, o'.own.lookup key = o.own.lookup key

namespace SameBut

variable {o o' o'' : Obj} {keys : List Key}

theorem refl (o : Obj) (keys : List Key) : o.SameBut o keys :=
  ⟨rfl, rfl, rfl, fun _ _ => rfl⟩

theorem trans (first : o.SameBut o' keys) (rest : o'.SameBut o'' keys) : o.SameBut o'' keys :=
  ⟨rest.prototype.trans first.prototype, rest.extensible.trans first.extensible,
    rest.body.trans first.body,
    fun key notMem => (rest.own key notMem).trans (first.own key notMem)⟩

theorem put (o : Obj) {key : Key} (property : Property) (mem : key ∈ keys) :
    o.SameBut (o.put key property) keys :=
  ⟨rfl, rfl, rfl, fun _ notMem =>
    lookup_put_of_ne o (ne_of_mem_of_not_mem mem notMem).symm property⟩

theorem mono {more : List Key} (same : o.SameBut o' keys) (subset : keys ⊆ more) :
    o.SameBut o' more :=
  ⟨same.prototype, same.extensible, same.body, fun key notMem =>
    same.own key fun mem => notMem (subset mem)⟩

end SameBut

end Obj

/-! ### Lookup -/

/-- Looks a property up in an object and its prototypes; the inner `none` says that there is none.
It never ends where prototypes form a circle. -/
def Heap.find (heap : Heap) (r : Ref) (key : Key) : Option (Option Property) := do
  let o ← heap[r]?
  match o.getOwn key with
  | some property => some (some property)
  | none =>
    match o.prototype with
    | some q => heap |>.find q key
    | none => some none
partial_fixpoint

/-- Looks a property up in the prototypes of an object. -/
def inherited (heap : Heap) (o : Obj) (key : Key) : Option (Option Property) :=
  match o.prototype with
  | some q => heap.find q key
  | none => some none

/-- A property is looked up in an object before its prototypes. -/
theorem find_eq {heap : Heap} {r : Ref} {o : Obj} (here : heap[r]? = some o) (key : Key) :
    heap.find r key
      = match o.getOwn key with
        | some property => some (some property)
        | none => inherited heap o key := by
  rw [Heap.find.eq_def, here]
  rfl

theorem find_of_getOwn {heap : Heap} {r : Ref} {o : Obj} {key : Key} {property : Property}
    (here : heap[r]? = some o) (own : o.getOwn key = some property) :
    heap.find r key = some (some property) := by
  rw [find_eq here, own]

theorem find_of_getOwn_eq_none {heap : Heap} {r : Ref} {o : Obj} {key : Key}
    (here : heap[r]? = some o) (missing : o.getOwn key = none) :
    heap.find r key = inherited heap o key := by
  rw [find_eq here, missing]

/-- An object is the prototype of another one. -/
def IsPrototypeOf (heap : Heap) (r q : Ref) : Prop :=
  ∃ o, heap[r]? = some o ∧ o.prototype = some q

/-- No object of a list is `q` or above it. -/
def Apart (heap : Heap) (q : Ref) (changed : List Ref) : Prop :=
  ∀ x, Relation.ReflTransGen (IsPrototypeOf heap) q x → x ∉ changed

/-- All objects but those of a list are as they were. -/
def Untouched (heap heap' : Heap) (changed : List Ref) : Prop :=
  ∀ r o, r ∉ changed → heap[r]? = some o → heap'[r]? = some o

/-- A lookup that comes by no changed object has the same result. -/
theorem find_of_untouched {heap heap' : Heap} {changed : List Ref} {q : Ref} {key : Key}
    {property : Option Property} (untouched : Untouched heap heap' changed)
    (apart : Apart heap q changed) (found : heap.find q key = some property) :
    heap'.find q key = some property := by
  -- A chain of prototypes may be a circle, on which a lookup has no result; the induction is on the
  -- steps of a lookup that has one.
  refine Heap.find.partial_correctness heap key
    (fun r found => Apart heap r changed → heap'.find r key = some found) ?_ q property found apart
  intro search ih r found result apart
  obtain ⟨o, here, result⟩ := Option.bind_eq_some_iff.mp result
  rw [find_eq (untouched r o (apart r .refl) here)]
  cases own : o.getOwn key with
  | some property =>
    rw [own] at result
    exact result
  | none =>
    unfold inherited
    cases above : o.prototype with
    | none =>
      rw [own, above] at result
      exact result
    | some q =>
      rw [own, above] at result
      exact ih q found result fun x path => apart x (.head ⟨o, here, above⟩ path)

/-- What an object inherits from unchanged prototypes stays. -/
theorem inherited_of_untouched {heap heap' : Heap} {changed : List Ref} {o : Obj} {key : Key}
    {property : Option Property} (untouched : Untouched heap heap' changed)
    (apart : ∀ q, o.prototype = some q → Apart heap q changed)
    (found : inherited heap o key = some property) : inherited heap' o key = some property := by
  unfold inherited at found ⊢
  cases above : o.prototype with
  | none =>
    rw [above] at found
    exact found
  | some q =>
    rw [above] at found
    exact find_of_untouched untouched (apart q above) found

namespace Untouched

variable {heap heap' heap'' : Heap} {changed changed' : List Ref}

theorem refl (heap : Heap) (changed : List Ref) : Untouched heap heap changed :=
  fun _ _ _ here => here

/-- What changes after that need not have been there before. -/
theorem trans_of_within (first : Untouched heap heap' changed)
    (rest : Untouched heap' heap'' changed')
    (within : ∀ r ∈ changed', r ∈ changed ∨ heap.length ≤ r) : Untouched heap heap'' changed := by
  intro r o unchanged here
  refine rest r o (fun mem => ?_) (first r o unchanged here)
  obtain ⟨inside, _⟩ := List.getElem?_eq_some_iff.mp here
  exact (within r mem).elim unchanged (Nat.not_le.mpr inside)

theorem trans (first : Untouched heap heap' changed) (rest : Untouched heap' heap'' changed) :
    Untouched heap heap'' changed :=
  first.trans_of_within rest fun _ mem => .inl mem

/-- No object disappears if only one that is still there may have changed. -/
theorem length_le {r : Ref} {o : Obj} (untouched : Untouched heap heap' [r])
    (here : heap'[r]? = some o) : heap.length ≤ heap'.length := by
  refine Nat.le_of_not_lt fun shorter => ?_
  have missing : heap'[heap'.length]? = none := List.getElem?_eq_none (Nat.le_refl _)
  by_cases same : heap'.length = r
  · rw [same, here] at missing
    cases missing
  · have there := untouched _ _ (by simpa using same) (List.getElem?_eq_getElem shorter)
    rw [missing] at there
    cases there

/-- New objects do not change old ones. -/
theorem append (heap new : Heap) (changed : List Ref) : Untouched heap (heap ++ new) changed := by
  intro r o _ here
  obtain ⟨lt, same⟩ := List.getElem?_eq_some_iff.mp here
  rw [List.getElem?_append_left lt, here]

/-- One object is changed. -/
theorem set (heap : Heap) {r : Ref} (o : Obj) (mem : r ∈ changed) :
    Untouched heap (heap.set r o) changed := by
  intro x other unchanged here
  have differs : r ≠ x := by
    rintro rfl
    exact unchanged mem
  rw [List.getElem?_set_ne differs, here]

end Untouched

/-! ### Definition -/

/-- What is wanted of a property. -/
structure Descriptor where
  value : Option Value
  writable : Option Bool
  enumerable : Option Bool
  configurable : Option Bool
  getter : Option (Option Ref)
  setter : Option (Option Ref)

namespace Descriptor

/-- Whether an accessor is wanted. -/
def isAccessor (d : Descriptor) : Bool := d.getter.isSome || d.setter.isSome

/-- Whether a property with a value is wanted. -/
def isData (d : Descriptor) : Bool := d.value.isSome || d.writable.isSome

/-- The property that is made where there was none. -/
def fresh (d : Descriptor) : Property :=
  if d.isAccessor then
    .accessor (d.getter.getD none) (d.setter.getD none) (d.enumerable.getD false)
      (d.configurable.getD false)
  else
    .data (d.value.getD .undefined) (d.writable.getD false) (d.enumerable.getD false)
      (d.configurable.getD false)

/-- The property that is made of another one. -/
def change (d : Descriptor) : Property → Property
  | .data v w e c =>
    if d.isAccessor then
      .accessor (d.getter.getD none) (d.setter.getD none) (d.enumerable.getD e)
        (d.configurable.getD c)
    else .data (d.value.getD v) (d.writable.getD w) (d.enumerable.getD e) (d.configurable.getD c)
  | .accessor g s e c =>
    if d.isData then
      .data (d.value.getD .undefined) (d.writable.getD false) (d.enumerable.getD e)
        (d.configurable.getD c)
    else .accessor (d.getter.getD g) (d.setter.getD s) (d.enumerable.getD e) (d.configurable.getD c)

/-- Whether a property that may not be defined anew is compatible with what is wanted. -/
def fits (d : Descriptor) : Property → Bool
  | .data v w e _ =>
    d.configurable.getD false == false && d.enumerable.getD e == e && !d.isAccessor
      && (w || (d.writable.getD false == false && d.value.getD v == v))
  | .accessor g s e _ =>
    d.configurable.getD false == false && d.enumerable.getD e == e && !d.isData
      && d.getter.getD g == g && d.setter.getD s == s

end Descriptor

/-- Defines an own property of an object; `none` if that is refused. Elements of arrays are not
defined in this way here. -/
def define (heap : Heap) (r : Ref) (key : Key) (d : Descriptor) : Option Heap := do
  let o ← heap[r]?
  if o.elements?.isSome then none
  else
    match o.own.lookup key with
    | none => if o.extensible then some (heap.set r (o.put key d.fresh)) else none
    | some current =>
      if current.configurable || d.fits current then some (heap.set r (o.put key (d.change current)))
      else none

/-- Any property may be defined on an object. -/
structure Definable (o : Obj) : Prop where
  notArray : o.elements? = none
  extensible : o.extensible = true
  configurable : ∀ key property, o.own.lookup key = some property → property.configurable = true

/-- It stays so with a plain property. -/
theorem Definable.put {o : Obj} (definable : Definable o) (key : Key) (v : Value) :
    Definable (o.put key (.plain v)) where
  notArray := definable.notArray
  extensible := definable.extensible
  configurable := by
    intro other property own
    by_cases same : other = key
    · rw [same, o.lookup_put_self] at own
      cases own
      rfl
    · rw [o.lookup_put_of_ne same] at own
      exact definable.configurable other property own

theorem define_plain {heap : Heap} {r : Ref} {o : Obj} (key : Key) (v : Value)
    (here : heap[r]? = some o) (definable : Definable o) :
    define heap r key ⟨some v, some true, some true, some true, none, none⟩
      = some (heap.set r (o.put key (.plain v))) := by
  unfold define
  rw [here]
  simp only [Option.bind_eq_bind, Option.bind_some, definable.notArray, Option.isSome_none,
    definable.extensible]
  cases own : o.own.lookup key with
  | none => rfl
  | some current =>
    dsimp only
    rw [definable.configurable key current own]
    cases current <;> rfl

end TypedProps.Runtime
