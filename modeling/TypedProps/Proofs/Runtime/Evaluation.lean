import TypedProps.Proofs.Runtime.Objects
import TypedProps.Proofs.Steps

/-!
# `TypedProps.Proofs.Runtime.Evaluation`: running statements

Expressions and statements change the heap, and have a value, unless an exception is thrown or they
never end. The functions of the library are those of a realm; a name has the value that is in scope
under it, and an expression of which only the text is known does what it is said to do.

What patches do not do is left without a value: properties of strings and numbers, keys that are no
strings, and assignments to elements of arrays. Arrays are without holes, and made by and iterated
like plain arrays.
-/

set_option autoImplicit false

namespace TypedProps.Runtime

/-- A computation that changes the heap. -/
abbrev Run := StateT Heap Option

/-- The objects of the library. -/
structure Realm where
  objectPrototype : Ref
  arrayPrototype : Ref
  functionPrototype : Ref
  /-- The values of the names `Object` and `Array`. -/
  object : Ref
  array : Ref
  isArray : Ref
  fromEntries : Ref
  defineProperty : Ref
  map : Ref
  push : Ref
  getPrototype : Ref
  setPrototype : Ref
deriving DecidableEq, Repr, Inhabited

namespace Realm

/-- An object with some own properties. -/
def ordinary (realm : Realm) (own : List (Key × Property)) : Obj :=
  ⟨some realm.objectPrototype, true, own, .ordinary⟩

/-- An array with some elements. -/
def arrayOf (realm : Realm) (elements : List Value) : Obj :=
  ⟨some realm.arrayPrototype, true, [], .array elements⟩

/-- A function with a body. -/
def closure (realm : Realm) (parameter : String) (result : Expression) (scope : Scope) : Obj :=
  ⟨some realm.functionPrototype, true, [], .closure parameter result scope⟩

end Realm

/-- A scope with one more name. -/
def Scope.bind (scope : Scope) (name : String) (v : Value) : Scope :=
  fun other => if other = name then some v else scope other

/-! ### Steps without calls -/

/-- The object at a place. -/
def objectAt (r : Ref) : Run Obj := fun heap => heap[r]?.map (·, heap)

/-- Looks up a property of the object at a place. -/
def propertyAt (r : Ref) (key : Key) : Run (Option Property) :=
  fun heap => (heap.find r key).map (·, heap)

/-- Makes a new object. -/
def allocate (o : Obj) : Run Value := fun heap => some (.reference heap.length, heap ++ [o])

/-- Replaces an object. -/
def replace (r : Ref) (o : Obj) : Run Unit := fun heap => some ((), heap.set r o)

/-- The key that a value stands for. -/
def keyOf : Value → Run Key
  | .string s => pure (.name s)
  | _ => failure

/-- Writes an own property. A new one needs an extensible object. -/
def writeOwn (r : Ref) (key : Key) (v : Value) : Run Unit := do
  let o ← objectAt r
  if o.elements?.isSome then failure
  else
    match o.own.lookup key with
    | some (.data _ true e c) => replace r (o.put key (.data v true e c))
    | none => if o.extensible then replace r (o.put key (.plain v)) else failure
    | _ => failure

/-- Whether `q` is an object or above it. -/
def Heap.isAbove (heap : Heap) (q r : Ref) : Option Bool := do
  if q = r then some true
  else
    let o ← heap[r]?
    match o.prototype with
    | some above => heap |>.isAbove q above
    | none => some false
partial_fixpoint

/-- Gives an object another prototype. -/
def writePrototype (r : Ref) (prototype : Option Ref) : Run Unit := do
  let o ← objectAt r
  if o.prototype = prototype then pure ()
  else if o.extensible then
    match prototype with
    | none => replace r { o with prototype := none }
    | some q =>
      if ← (fun heap => (heap.isAbove r q).map (·, heap)) then failure
      else replace r { o with prototype := some q }
  else failure

/-- Appends elements to an array. -/
def append (r : Ref) (added : List Value) : Run Value := do
  let o ← objectAt r
  match o.elements? with
  | some elements =>
    if o.extensible then
      replace r { o with body := .array (elements ++ added) }
      pure (.number (elements.length + added.length))
    else failure
  | none => failure

/-- The function of an accessor: none for `undefined`. -/
def functionOf (v : Option Value) : Run (Option (Option Ref)) :=
  match v with
  | none => pure none
  | some .undefined => pure (some none)
  | some (.reference r) => do
    let o ← objectAt r
    match o.body with
    | .closure .. | .native _ => pure (some (some r))
    | .ordinary | .array _ => failure
  | some _ => failure

/-! ### Evaluation -/

namespace Realm

mutual

/-- The value of an expression. -/
def eval (realm : Realm) (reads : String → Run Value) (scope : Scope) (e : Expression) :
    Run Value :=
  match e with
  | .null => pure .null
  | .boolean b => pure (.boolean b)
  | .string s => pure (.string s)
  | .name text => fun heap => (scope text).map (·, heap)
  | .source text => reads text
  | .member object key => do
    let target ← realm |>.eval reads scope object
    realm |>.read reads target (.name key)
  | .index object key => do
    let target ← realm |>.eval reads scope object
    let v ← realm |>.eval reads scope key
    let key ← keyOf v
    realm |>.read reads target key
  | .array elements => do
    let vs ← realm |>.evalAll reads scope elements
    allocate (realm.arrayOf vs)
  | .object fields => do
    let own ← realm |>.evalFields reads scope fields []
    allocate (realm.ordinary own)
  | .arrow parameter result => allocate (realm.closure parameter result scope)
  | .call callee arguments => do
    let (this, function) ← realm |>.evalCallee reads scope callee
    let vs ← realm |>.evalAll reads scope arguments
    realm |>.call reads function this vs
  | .equals left right => do
    let v ← realm |>.eval reads scope left
    let w ← realm |>.eval reads scope right
    pure (.boolean (v == w))
  | .asserted inner _ => realm |>.eval reads scope inner
partial_fixpoint

/-- The function that is called, and the object that it is called on. -/
def evalCallee (realm : Realm) (reads : String → Run Value) (scope : Scope) (e : Expression) :
    Run (Value × Value) :=
  match e with
  | .member object key => do
    let this ← realm |>.eval reads scope object
    let function ← realm |>.read reads this (.name key)
    pure (this, function)
  | .index object key => do
    let this ← realm |>.eval reads scope object
    let v ← realm |>.eval reads scope key
    let key ← keyOf v
    let function ← realm |>.read reads this key
    pure (this, function)
  | e => do
    let function ← realm |>.eval reads scope e
    pure (.undefined, function)
partial_fixpoint

/-- The values of expressions, one after the other. -/
def evalAll (realm : Realm) (reads : String → Run Value) (scope : Scope) (list : List Expression) :
    Run (List Value) :=
  match list with
  | [] => pure []
  | e :: rest => do
    let v ← realm |>.eval reads scope e
    let vs ← realm |>.evalAll reads scope rest
    pure (v :: vs)
partial_fixpoint

/-- Puts the properties of an object expression behind others. -/
def evalFields (realm : Realm) (reads : String → Run Value) (scope : Scope) (fields : List Field)
    (own : List (Key × Property)) : Run (List (Key × Property)) :=
  match fields with
  | [] => pure own
  | .mk key value :: rest => do
    let v ← realm |>.eval reads scope value
    realm |>.evalFields reads scope rest (Keyed.put (.name key) (.plain v) own)
partial_fixpoint

/-- Reads a property of an object. -/
def read (realm : Realm) (reads : String → Run Value) (target : Value) (key : Key) : Run Value :=
  match target with
  | .reference r => do
    match ← propertyAt r key with
    | none => pure .undefined
    | some (.data v _ _ _) => pure v
    | some (.accessor none _ _ _) => pure .undefined
    | some (.accessor (some getter) _ _ _) => realm |>.call reads (.reference getter) target []
  | _ => failure
partial_fixpoint

/-- Calls a function. -/
def call (realm : Realm) (reads : String → Run Value) (function this : Value)
    (arguments : List Value) : Run Value :=
  match function with
  | .reference r => do
    let o ← objectAt r
    match o.body with
    | .closure parameter result scope =>
      realm |>.eval reads (scope.bind parameter (arguments.head?.getD .undefined)) result
    | .native function => realm |>.callNative reads function this arguments
    | .ordinary | .array _ => failure
  | _ => failure
partial_fixpoint

/-- Calls a function of the library. -/
def callNative (realm : Realm) (reads : String → Run Value) (function : Native) (this : Value)
    (arguments : List Value) : Run Value :=
  match function with
  | .isArray =>
    match arguments with
    | .reference r :: _ => do
      let o ← objectAt r
      pure (.boolean o.elements?.isSome)
    | _ => pure (.boolean false)
  | .fromEntries =>
    match arguments with
    | .reference r :: _ => do
      let o ← objectAt r
      match o.elements? with
      | some entries => do
        let own ← realm |>.readEntries reads entries []
        allocate (realm.ordinary own)
      | none => failure
    | _ => failure
  | .defineProperty =>
    match arguments with
    | .reference r :: key :: attributes :: _ => do
      let key ← keyOf key
      let d ← realm |>.descriptorOf reads attributes
      fun heap => (define heap r key d).map (.reference r, ·)
    | _ => failure
  | .map =>
    match this, arguments with
    | .reference r, function :: _ => do
      let o ← objectAt r
      match o.elements? with
      | some elements => do
        let vs ← realm |>.mapAll reads function this 0 elements
        allocate (realm.arrayOf vs)
      | none => failure
    | _, _ => failure
  | .push =>
    match this with
    | .reference r => append r arguments
    | _ => failure
  | .getPrototype =>
    match this with
    | .reference r => do
      let o ← objectAt r
      pure ((o.prototype.map Value.reference).getD .null)
    | _ => failure
  | .setPrototype =>
    match this, arguments with
    | .reference r, .null :: _ => do
      writePrototype r none
      pure .undefined
    | .reference r, .reference q :: _ => do
      writePrototype r (some q)
      pure .undefined
    | _, _ => pure .undefined
partial_fixpoint

/-- Puts entries, which are pairs of a key and a value, behind other properties. -/
def readEntries (realm : Realm) (reads : String → Run Value) (entries : List Value)
    (own : List (Key × Property)) : Run (List (Key × Property)) :=
  match entries with
  | [] => pure own
  | entry :: rest => do
    let k ← realm |>.read reads entry (.name "0")
    let v ← realm |>.read reads entry (.name "1")
    let key ← keyOf k
    realm |>.readEntries reads rest (Keyed.put key (.plain v) own)
partial_fixpoint

/-- Calls a function for each element of an array. -/
def mapAll (realm : Realm) (reads : String → Run Value) (function array : Value) (index : Nat)
    (elements : List Value) : Run (List Value) :=
  match elements with
  | [] => pure []
  | v :: rest => do
    let w ← realm |>.call reads function .undefined [v, .number index, array]
    let ws ← realm |>.mapAll reads function array (index + 1) rest
    pure (w :: ws)
partial_fixpoint

/-- Reads what an object says about a property. -/
def descriptorOf (realm : Realm) (reads : String → Run Value) (attributes : Value) :
    Run Descriptor := do
  let enumerable ← realm |>.attributeOf reads attributes "enumerable"
  let configurable ← realm |>.attributeOf reads attributes "configurable"
  let value ← realm |>.attributeOf reads attributes "value"
  let writable ← realm |>.attributeOf reads attributes "writable"
  let getter ← realm |>.attributeOf reads attributes "get"
  let setter ← realm |>.attributeOf reads attributes "set"
  match getter, setter with
  | none, none =>
    pure ⟨value, writable.map Value.truthy, enumerable.map Value.truthy,
      configurable.map Value.truthy, none, none⟩
  | _, _ => do
    if value.isSome || writable.isSome then failure
    else do
      let getter ← functionOf getter
      let setter ← functionOf setter
      pure ⟨none, none, enumerable.map Value.truthy, configurable.map Value.truthy, getter, setter⟩
partial_fixpoint

/-- Reads an attribute, if it is there. -/
def attributeOf (realm : Realm) (reads : String → Run Value) (attributes : Value) (name : String) :
    Run (Option Value) :=
  match attributes with
  | .reference r => do
    match ← propertyAt r (.name name) with
    | none => pure none
    | some _ => do
      let v ← realm |>.read reads attributes (.name name)
      pure (some v)
  | _ => failure
partial_fixpoint

end

/-! ### Execution -/

variable (realm : Realm) (reads : String → Run Value)

/-- Writes a property of an object. -/
def write (target : Value) (key : Key) (v : Value) : Run Unit :=
  match target with
  | .reference r => do
    match ← propertyAt r key with
    | some (.accessor _ (some setter) _ _) => do
      let _ ← realm.call reads (.reference setter) target [v]
      pure ()
    | some (.accessor _ none _ _) | some (.data _ false _ _) => failure
    | some (.data _ true _ _) | none => writeOwn r key v
  | _ => failure

/-- Assigns to a property. -/
def assign (scope : Scope) (target value : Expression) : Run Unit :=
  match target with
  | .member object key => do
    let o ← realm.eval reads scope object
    let v ← realm.eval reads scope value
    realm.write reads o (.name key) v
  | .index object key => do
    let o ← realm.eval reads scope object
    let k ← realm.eval reads scope key
    let key ← keyOf k
    let v ← realm.eval reads scope value
    realm.write reads o key v
  | _ => failure

mutual

/-- Executes a statement. -/
def exec (scope : Scope) : Statement → Run Unit
  | .comment _ => pure ()
  | .evaluate e => do
    let _ ← realm.eval reads scope e
    pure ()
  | .assign target value => realm.assign reads scope target value
  | .branch condition body otherwise => do
    let v ← realm.eval reads scope condition
    if v.truthy then execAll scope body else execAll scope otherwise

/-- Executes statements, one after the other. -/
def execAll (scope : Scope) : List Statement → Run Unit
  | [] => pure ()
  | statement :: rest => do
    exec scope statement
    execAll scope rest

end

end Realm

end TypedProps.Runtime
