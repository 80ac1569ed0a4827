import TypedProps.Proofs.Patch.Statements
import TypedProps.Proofs.Runtime.Laws

/-!
# `TypedProps.Proofs.Patch.Records`: records at run time

`Describes` says what an object has to be to stand for a record: its type is `null`, a constructor
or an array of constructors, and default value and documentation are there if the record has them.
`eval_record` says that the expression of a record makes such an object. All of it is new, and stays
as it is while only older objects change (`Describes.of_untouched`).
-/

set_option autoImplicit false

namespace TypedProps.Patch

open TypedProps.Runtime

variable {realm : Realm} {reads : String → Run Value} {scope : Scope} {heap heap' : Heap}

/-! ### Records -/

/-- The value of a record's type: the constructors that are in scope, all that are newer than
`bound`. -/
inductive HasType (realm : Realm) (scope : Scope) (heap : Heap) (bound : Ref) :
    List String → Value → Prop
  | any : HasType realm scope heap bound [] .null
  | one {name : String} {v : Value} (known : scope name = some v) :
      HasType realm scope heap bound [name] v
  | several {first second : String} {rest : List String} {r : Ref} {vs : List Value}
      (fresh : bound ≤ r) (here : heap[r]? = some (realm.arrayOf vs))
      (known : (first :: second :: rest).map scope = vs.map some) :
      HasType realm scope heap bound (first :: second :: rest) (.reference r)

/-- The default value of a record: what its text has evaluated to. -/
inductive HasDefault (reads : String → Run Value) : Option String → Option Value → Prop
  | none : HasDefault reads none none
  | some {text : String} {v : Value} {before after : Heap}
      (evaluated : reads text before = some (v, after)) : HasDefault reads (some text) (some v)

/-- The documentation of a record: its lines, in an array that is newer than `bound`. -/
inductive HasDoc (realm : Realm) (heap : Heap) (bound : Ref) : List String → Option Value → Prop
  | none : HasDoc realm heap bound [] none
  | some {line : String} {rest : List String} {r : Ref} (fresh : bound ≤ r)
      (here : heap[r]? = some (realm.arrayOf ((line :: rest).map .string))) :
      HasDoc realm heap bound (line :: rest) (some (.reference r))

/-- An optional property behind others. -/
def putOptional (key : String) (v : Option Value) (own : List (Key × Runtime.Property)) :
    List (Key × Runtime.Property) :=
  match v with
  | some v => Keyed.put (.name key) (.plain v) own
  | none => own

/-- The own properties of a record. -/
def recordOwn (required : Bool) (type : Value) (default doc : Option Value) :
    List (Key × Runtime.Property) :=
  putOptional "doc" doc (putOptional "default" default
    [(.name "type", .plain type), (.name "required", .plain (.boolean required))])

/-- `Describes realm reads scope heap bound r record`: at a place stands an object that says what a
record says. It is newer than `bound`, and so is what it consists of. -/
inductive Describes (realm : Realm) (reads : String → Run Value) (scope : Scope) (heap : Heap)
    (bound : Ref) (r : Ref) (record : Record) : Prop
  | intro {type : Value} {default doc : Option Value} (fresh : bound ≤ r)
      (here : heap[r]? = some (realm.ordinary (recordOwn record.required type default doc)))
      (hasType : HasType realm scope heap bound record.constructors type)
      (hasDefault : HasDefault reads record.default default)
      (hasDoc : HasDoc realm heap bound record.doc doc)

section OfUntouched

variable {changed : List Ref} {bound : Ref}

/-- Newer objects stay while only older ones change. -/
theorem getElem?_of_untouched {r : Ref} {o : Obj} (untouched : Untouched heap heap' changed)
    (old : ∀ r ∈ changed, r < bound) (fresh : bound ≤ r) (here : heap[r]? = some o) :
    heap'[r]? = some o :=
  untouched r o (fun mem => absurd (old r mem) (Nat.not_lt.mpr fresh)) here

theorem HasType.of_untouched {names : List String} {v : Value}
    (hasType : HasType realm scope heap bound names v) (untouched : Untouched heap heap' changed)
    (old : ∀ r ∈ changed, r < bound) : HasType realm scope heap' bound names v := by
  cases hasType with
  | any => exact .any
  | one known => exact .one known
  | several fresh here known =>
    exact .several fresh (getElem?_of_untouched untouched old fresh here) known

theorem HasDoc.of_untouched {lines : List String} {doc : Option Value}
    (hasDoc : HasDoc realm heap bound lines doc) (untouched : Untouched heap heap' changed)
    (old : ∀ r ∈ changed, r < bound) : HasDoc realm heap' bound lines doc := by
  cases hasDoc with
  | none => exact .none
  | some fresh here => exact .some fresh (getElem?_of_untouched untouched old fresh here)

/-- A record stays while only older objects change. -/
theorem Describes.of_untouched {r : Ref} {record : Record}
    (describes : Describes realm reads scope heap bound r record)
    (untouched : Untouched heap heap' changed) (old : ∀ r ∈ changed, r < bound) :
    Describes realm reads scope heap' bound r record := by
  cases describes with
  | intro fresh here hasType hasDefault hasDoc =>
    exact .intro fresh (getElem?_of_untouched untouched old fresh here)
      (hasType.of_untouched untouched old) hasDefault (hasDoc.of_untouched untouched old)

end OfUntouched

section OfLe

variable {bound bound' : Ref}

theorem HasType.of_le {names : List String} {v : Value}
    (hasType : HasType realm scope heap bound names v) (le : bound' ≤ bound) :
    HasType realm scope heap bound' names v := by
  cases hasType with
  | any => exact .any
  | one known => exact .one known
  | several fresh here known => exact .several (Nat.le_trans le fresh) here known

theorem HasDoc.of_le {lines : List String} {doc : Option Value}
    (hasDoc : HasDoc realm heap bound lines doc) (le : bound' ≤ bound) :
    HasDoc realm heap bound' lines doc := by
  cases hasDoc with
  | none => exact .none
  | some fresh here => exact .some (Nat.le_trans le fresh) here

/-- A record that is newer than an object is newer than those before it. -/
theorem Describes.of_le {r : Ref} {record : Record}
    (describes : Describes realm reads scope heap bound r record) (le : bound' ≤ bound) :
    Describes realm reads scope heap bound' r record := by
  cases describes with
  | intro fresh here hasType hasDefault hasDoc =>
    exact .intro (Nat.le_trans le fresh) here (hasType.of_le le) hasDefault (hasDoc.of_le le)

end OfLe

/-- The expression of a default value has a value, and changes nothing that there is. -/
def Quiet (reads : String → Run Value) (text : String) : Prop :=
  ∀ heap, ∃ v new, reads text heap = some (v, heap ++ new)

/-! ### Their expressions -/

section Evaluation

variable (realm reads scope) {bound : Ref}

/-- Constructors in scope evaluate to the value of a type. -/
theorem eval_constructorsExpression (low : bound ≤ heap.length) {names : List String}
    (known : ∀ name ∈ names, (scope name).isSome) :
    ∃ v new, realm.eval reads scope (constructorsExpression names) heap = some (v, heap ++ new) ∧
      HasType realm scope (heap ++ new) bound names v := by
  -- No constructor is `null`, one stands for itself, and only several are an array.
  match names with
  | [] =>
    refine ⟨.null, [], ?_, .any⟩
    rw [constructorsExpression, List.append_nil]
    exact eval_null
  | [name] =>
    obtain ⟨v, isValue⟩ := Option.isSome_iff_exists.mp (known name List.mem_cons_self)
    refine ⟨v, [], ?_, .one isValue⟩
    rw [constructorsExpression, List.append_nil]
    exact eval_name isValue
  | first :: second :: rest =>
    have all (names : List String) (known : ∀ name ∈ names, (scope name).isSome) :
        ∃ vs, realm.evalAll reads scope (names.map .name) heap = some (vs, heap) ∧
          names.map scope = vs.map some := by
      induction names with
      | nil => exact ⟨[], evalAll_nil, rfl⟩
      | cons name rest ih =>
        obtain ⟨v, isValue⟩ := Option.isSome_iff_exists.mp (known name List.mem_cons_self)
        obtain ⟨vs, evaluated, same⟩ := ih fun other mem => known other (List.mem_cons_of_mem _ mem)
        refine ⟨v :: vs, evalAll_cons (eval_name isValue) evaluated, ?_⟩
        rw [List.map_cons, List.map_cons, same, isValue]
    obtain ⟨vs, evaluated, same⟩ := all _ known
    exact ⟨_, _, eval_array evaluated, .several low List.getElem?_concat_length same⟩

/-- So does the expression of a type, whatever it asserts. -/
theorem eval_typeOf (low : bound ≤ heap.length) (frameworkModule : String) {record : Record}
    (known : ∀ name ∈ record.constructors, (scope name).isSome) :
    ∃ v new, realm.eval reads scope (typeOf frameworkModule record) heap = some (v, heap ++ new) ∧
      HasType realm scope (heap ++ new) bound record.constructors v := by
  obtain ⟨v, new, evaluated, hasType⟩ :=
    eval_constructorsExpression realm reads scope low known
  refine ⟨v, new, ?_, hasType⟩
  unfold typeOf
  cases record.shown with
  | none => exact evaluated
  | some shown => exact (eval_asserted _ _).trans evaluated

/-- A default value is put behind other properties. -/
theorem evalFields_default (heap : Heap) {default : Option String}
    (quiet : ∀ text ∈ default, Quiet reads text) (rest : List Field)
    (own : List (Key × Runtime.Property)) :
    ∃ v new, realm.evalFields reads scope (defaultFields default ++ rest) own heap
        = realm.evalFields reads scope rest (putOptional "default" v own) (heap ++ new) ∧
      HasDefault reads default v := by
  cases default with
  | none => exact ⟨none, [], by rw [List.append_nil]; rfl, .none⟩
  | some text =>
    obtain ⟨v, new, isValue⟩ := quiet text rfl heap
    exact ⟨some v, new, evalFields_cons ((eval_source text).trans isValue), .some isValue⟩

/-- Documentation is put behind other properties. -/
theorem evalFields_doc (low : bound ≤ heap.length) (lines : List String)
    (own : List (Key × Runtime.Property)) :
    ∃ v new, realm.evalFields reads scope (docFields lines) own heap
        = some (putOptional "doc" v own, heap ++ new) ∧
      HasDoc realm (heap ++ new) bound lines v := by
  cases lines with
  | nil => exact ⟨none, [], by rw [List.append_nil]; exact evalFields_nil, .none⟩
  | cons line rest =>
    exact ⟨_, _, (evalFields_cons (eval_array (evalAll_strings _))).trans evalFields_nil,
      .some low List.getElem?_concat_length⟩

/-- The expression of a record evaluates to an object that says what the record says. -/
theorem eval_record (low : bound ≤ heap.length) (frameworkModule : String) {record : Record}
    (known : ∀ name ∈ record.constructors, (scope name).isSome)
    (quiet : ∀ text ∈ record.default, Quiet reads text) :
    ∃ r new, realm.eval reads scope (.object (recordFields frameworkModule record)) heap
        = some (.reference r, heap ++ new) ∧
      Describes realm reads scope (heap ++ new) bound r record := by
  have longer {heap : Heap} (low : bound ≤ heap.length) (new : Heap) :
      bound ≤ (heap ++ new).length :=
    Nat.le_trans low (List.prefix_append heap new).length_le
  -- The fields are evaluated in their order, and each of them only adds to the heap, so what was
  -- found out about an earlier one still holds at the end.
  obtain ⟨type, new, isType, hasType⟩ :=
    eval_typeOf realm reads scope low frameworkModule known
  obtain ⟨default, new', isDefault, hasDefault⟩ :=
    evalFields_default realm reads scope (heap ++ new) quiet (docFields record.doc)
      [(.name "type", .plain type), (.name "required", .plain (.boolean record.required))]
  have low' := longer (longer low new) new'
  obtain ⟨doc, new'', isDoc, hasDoc⟩ :=
    evalFields_doc realm reads scope low' record.doc
      (putOptional "default" default
        [(.name "type", .plain type), (.name "required", .plain (.boolean record.required))])
  have fields : realm.evalFields reads scope (recordFields frameworkModule record) [] heap
      = some (recordOwn record.required type default doc, heap ++ new ++ new' ++ new'') := by
    rw [recordFields, evalFields_cons isType, evalFields_cons (eval_boolean _)]
    exact isDefault.trans isDoc
  let object := realm.ordinary (recordOwn record.required type default doc)
  have kept : Untouched (heap ++ new) (heap ++ new ++ new' ++ new'' ++ [object]) [] :=
    (Untouched.append _ _ _).trans ((Untouched.append _ _ _).trans (.append _ _ _))
  have same : heap ++ (new ++ new' ++ new'' ++ [object])
      = heap ++ new ++ new' ++ new'' ++ [object] := by
    simp only [List.append_assoc]
  refine ⟨(heap ++ new ++ new' ++ new'').length, new ++ new' ++ new'' ++ [object], ?_, ?_⟩
  · rw [same]
    exact eval_object fields
  · have old : ∀ r ∈ ([] : List Ref), r < bound := fun _ mem => (List.not_mem_nil mem).elim
    rw [same]
    exact .intro (longer low' new'') List.getElem?_concat_length (hasType.of_untouched kept old)
      hasDefault (hasDoc.of_untouched (.append _ _ []) old)

end Evaluation

end TypedProps.Patch
