import TypedProps.Proofs.Guarded
import TypedProps.Proofs.Tags.Leaves

/-!
# `TypedProps.Proofs.Tags.Recursion`: when reading tags comes back to an alias

Reading the tags of a type reads those of other types on the way: of its parts and elements, of the
argument of a global array, and of what an alias stands for (`Program.Reads`). The aliases on the
way are under guard. Two things follow from what can be read on the way:

* `exists_mem_notes_tagsOf_iff`: a problem is noted exactly if the search through `Reads` is turned
  back somewhere. No other problem is ever noted (`problem_of_mem_notes_tagsOf`).
* `tagsOf_congr`: an alias that cannot be read on the way may be under guard or not.

`Program.Reaches` has fewer steps: it leaves out elements and arguments, whose tags end up inside
that of an array.
-/

set_option autoImplicit false

namespace TypedProps

/-- Changing a value leaves its notes alone. -/
@[simp] theorem Noted.map_notes {α β : Type} (f : α → β) (a : Noted α) :
    (f <$> a).notes = a.notes :=
  List.append_nil a.notes

namespace Program

open Relation

variable {p : Program} {origin : ModuleId}

/-- What tags are read off: a type in the scope of a module, or an alias. -/
inductive Subject where
  | type (m : ModuleId) (type : Ty)
  | symbol (s : Symbol)

/-- The symbol that is under guard while the tags of a subject are read. -/
def Subject.symbol? : Subject → Option Symbol
  | .type _ _ => none
  | .symbol s => some s

/-- A symbol belongs to one subject. -/
theorem Subject.eq_of_mem_symbol? {a b : Subject} {s : Symbol} (left : s ∈ a.symbol?)
    (right : s ∈ b.symbol?) : a = b := by
  cases a with
  | type => cases left
  | symbol t =>
    cases b with
    | type => cases right
    | symbol u =>
      obtain rfl : t = s := Option.some.inj left
      obtain rfl : u = t := Option.some.inj right
      rfl

/-- The type is one of those from which another one is put together. -/
def Inner (inner type : Ty) : Prop := Part inner type ∨ Element inner type

/-- The types from which a type is put together, as they are written. -/
def inners : Ty → List Ty
  | .array _ inner | .paren _ inner | .optional _ inner | .readonly _ inner => [inner]
  | .tuple _ types | .union _ types | .intersection _ types => types
  | _ => []

/-- The types from which one is put together are its parts and its elements. -/
theorem mem_inners_iff {inner type : Ty} : inner ∈ inners type ↔ Inner inner type := by
  constructor
  · intro mem
    cases type with
    | array => exact Or.inr (List.mem_singleton.mp mem ▸ .array)
    | tuple => exact Or.inr (.tuple mem)
    | paren => exact Or.inl (List.mem_singleton.mp mem ▸ .paren)
    | optional => exact Or.inl (List.mem_singleton.mp mem ▸ .optional)
    | readonly => exact Or.inl (List.mem_singleton.mp mem ▸ .readonly)
    | union => exact Or.inl (.union mem)
    | intersection => exact Or.inl (.intersection mem)
    | keyword | literal | function | object | mapped | reference | other => cases mem
  · rintro (part | element)
    · cases part with
      | paren | optional | readonly => exact List.mem_singleton_self _
      | union mem | intersection mem => exact mem
    · cases element with
      | array => exact List.mem_singleton_self _
      | tuple mem => exact mem

/-- A type is larger than those from which it is put together. -/
theorem Inner.sizeOf_lt {inner type : Ty} (h : Inner inner type) : sizeOf inner < sizeOf type :=
  h.elim Part.sizeOf_lt Element.sizeOf_lt

/-- One step on the way of reading tags. -/
inductive Reads (p : Program) : Subject → Subject → Prop
  | inner {m : ModuleId} {inner type : Ty} (inside : Inner inner type) :
      Reads p (.type m type) (.type m inner)
  | argument {m : ModuleId} {loc : Excerpt} {name : EntityName} {argument : Ty} {rest : List Ty}
      (undeclared : p.typeDeclared? m name = none) (isArray : name.isGlobalArray = true) :
      Reads p (.type m (.reference loc name (argument :: rest))) (.type m argument)
  | reference {m : ModuleId} {loc : Excerpt} {name : EntityName} {arguments : List Ty} {s : Symbol}
      {id : Identifier} {generics : List String} {body : Ty}
      (declared : p.typeDeclared? m name = some (s, .typeAlias id generics body)) :
      Reads p (.type m (.reference loc name arguments)) (.symbol s)
  | body {s : Symbol} {id : Identifier} {generics : List String} {body : Ty}
      (declared : p.declaration? s = some (.typeAlias id generics body)) :
      Reads p (.symbol s) (.type s.module body)

/-- A reading of tags comes to an alias that is under guard. -/
abbrev ReadsAgain (p : Program) : List Symbol → Subject → Prop := Meets p.Reads Subject.symbol?

/-! ### Tags of types that are put together -/

/-- The tags of some types are noted with the problems of each. -/
theorem notes_allTags (entered : List Symbol) (place : Place) (types : List Ty) :
    (p.allTags origin entered place types).notes
      = types.flatMap fun type => (p.tagsOf origin entered place type).notes := by
  induction types with
  | nil =>
    rw [allTags]
    rfl
  | cons type rest ih =>
    rw [allTags, List.flatMap_cons, ← ih]
    simp only [Noted.bind_notes, Noted.pure_notes, List.append_nil]

/-- The problems of a type that is no reference are those of the types that it is put together
from. -/
theorem mem_notes_tagsOf_iff {entered : List Symbol} {place : Place} {type : Ty} {d : Diagnostic}
    (notReference : ∀ loc name arguments, type ≠ .reference loc name arguments) :
    d ∈ (p.tagsOf origin entered place type).notes ↔
      ∃ inner, Inner inner type ∧ d ∈ (p.tagsOf origin entered place inner).notes := by
  have notes : (p.tagsOf origin entered place type).notes
      = (inners type).flatMap fun inner => (p.tagsOf origin entered place inner).notes := by
    rw [tagsOf.eq_def]
    cases type with
    | reference => exact absurd rfl (notReference _ _ _)
    | keyword | literal | function | object | mapped | other => rfl
    | paren | optional | readonly => rw [inners, List.flatMap_singleton]
    | array =>
      rw [inners, List.flatMap_singleton]
      exact List.append_nil _
    | tuple | union | intersection =>
      rw [inners, ← notes_allTags]
      exact List.append_nil _
  rw [notes, List.mem_flatMap]
  simp only [mem_inners_iff]

/-- The tags of a type that is no reference depend on those of the types that it is put together
from. -/
theorem tagsOf_eq_of_inner {entered entered' : List Symbol} {place : Place} {type : Ty}
    (notReference : ∀ loc name arguments, type ≠ .reference loc name arguments)
    (same : ∀ inner, Inner inner type →
      p.tagsOf origin entered place inner = p.tagsOf origin entered' place inner) :
    p.tagsOf origin entered place type = p.tagsOf origin entered' place type := by
  have all (types : List Ty) (among : ∀ type ∈ types,
      p.tagsOf origin entered place type = p.tagsOf origin entered' place type) :
      p.allTags origin entered place types = p.allTags origin entered' place types := by
    induction types with
    | nil => rw [allTags, allTags]
    | cons type rest ih =>
      rw [allTags, allTags, among type List.mem_cons_self,
        ih fun type inside => among type (List.mem_cons_of_mem _ inside)]
  cases type with
  | reference => exact absurd rfl (notReference _ _ _)
  | keyword | literal | function | object | mapped | other => rw [tagsOf, tagsOf]
  | array loc element => rw [tagsOf, tagsOf, same element (Or.inr .array)]
  | tuple loc elements =>
    rw [tagsOf, tagsOf, all elements fun type among => same type (Or.inr (.tuple among))]
  | paren loc inner => rw [tagsOf, tagsOf, same inner (Or.inl .paren)]
  | optional loc inner => rw [tagsOf, tagsOf, same inner (Or.inl .optional)]
  | readonly loc inner => rw [tagsOf, tagsOf, same inner (Or.inl .readonly)]
  | union loc parts =>
    rw [tagsOf, tagsOf, all parts fun type among => same type (Or.inl (.union among))]
  | intersection loc parts =>
    rw [tagsOf, tagsOf, all parts fun type among => same type (Or.inl (.intersection among))]

/-! ### Tags of references -/

/-- The tags of what a type name is declared as. -/
theorem tagsOfReferent_eq (entered : List Symbol) (place : Place) (loc : Excerpt)
    (name : EntityName) (arguments : List Ty) :
    p.tagsOfReferent origin entered place loc name arguments (p.referent place.scope name).1
      = match p.typeDeclared? place.scope name with
        | some (s, .typeAlias _ _ body) =>
          if s ∈ entered then do
            Noted.note (.recursiveAlias s.name) place.script loc.span
            pure []
          else p.tagsOf origin (s :: entered) (.inside s.module) body
        | some (_, .interfaceDecl ..) => pure [.object]
        | some (_, .classDecl _) => pure [.named name.text (place.scope == origin)]
        | some (_, .enumDecl _ members) => pure [enumTag members]
        | some (_, .imported ..) | none =>
          p.tagsOfGlobal origin entered place name arguments := by
  unfold typeDeclared?
  cases (p.referent place.scope name).1 with
  | none => rfl
  | some s =>
    unfold tagsOfReferent
    dsimp only [Option.bind_some]
    cases p.declaration? s with
    | none => rfl
    | some d => cases d <;> rfl

/-- The problems of a reference are those of what its name is declared as. -/
theorem notes_tagsOf_reference (entered : List Symbol) (place : Place) (loc : Excerpt)
    (name : EntityName) (arguments : List Ty) :
    (p.tagsOf origin entered place (.reference loc name arguments)).notes
      = (p.tagsOfReferent origin entered place loc name arguments
          (p.referent place.scope name).1).notes := by
  rw [tagsOf_reference, Noted.bind_notes, Noted.pure_notes, List.append_nil]

/-- A problem of a reference is that its alias is under guard, or one of what the alias stands for,
or one of the argument of a global array. -/
theorem mem_notes_tagsOf_reference_iff {entered : List Symbol} {place : Place} {loc : Excerpt}
    {name : EntityName} {arguments : List Ty} {d : Diagnostic} :
    d ∈ (p.tagsOf origin entered place (.reference loc name arguments)).notes ↔
      (∃ s id generics body, p.typeDeclared? place.scope name
          = some (s, .typeAlias id generics body) ∧
        (s ∈ entered ∧ d = ⟨.recursiveAlias s.name, place.script, loc.span⟩ ∨
          s ∉ entered ∧ d ∈ (p.tagsOf origin (s :: entered) (.inside s.module) body).notes)) ∨
      ∃ argument rest, arguments = argument :: rest ∧ p.typeDeclared? place.scope name = none ∧
        name.isGlobalArray = true ∧ d ∈ (p.tagsOf origin entered place argument).notes := by
  -- A case for each declaration. Only aliases and the arguments of global arrays have problems.
  rw [notes_tagsOf_reference, tagsOfReferent_eq]
  split
  · rename_i s id generics body declared
    split
    · rename_i again
      simp [declared, again, Noted.note]
    · rename_i fresh
      simp [declared, fresh]
  · rename_i declared
    simp [declared]
  · rename_i declared
    simp [declared]
  · rename_i declared
    simp [declared]
  · rename_i declared
    exact absurd declared typeDeclared?_ne_imported
  · rename_i undeclared
    unfold tagsOfGlobal
    cases isArray : name.isGlobalArray <;> cases arguments <;> simp [undeclared]

/-- Resolving a type notes the problems of reading its tags. -/
theorem notes_resolveType (place : Place) (type : Ty) :
    (p.resolveType origin place type).notes = (p.tagsOf origin [] place type).notes := by
  unfold resolveType
  rw [Noted.bind_notes]
  dsimp only
  split
  · exact List.append_nil _
  · split <;> exact List.append_nil _

/-! ### The way of reading tags -/

/-- The only problem that is noted while tags are read is an alias that refers to itself. -/
theorem problem_of_mem_notes_tagsOf {entered : List Symbol} {place : Place} {type : Ty}
    {d : Diagnostic} (mem : d ∈ (p.tagsOf origin entered place type).notes) :
    ∃ name, d.problem = .recursiveAlias name := by
  -- The recursion is that of `tagsOf`: behind an alias fewer are left to enter, and else types
  -- become smaller.
  by_cases isReference : ∃ loc name arguments, type = .reference loc name arguments
  · obtain ⟨loc, name, arguments, rfl⟩ := isReference
    rcases mem_notes_tagsOf_reference_iff.1 mem with
      ⟨s, id, generics, body, declared, ⟨-, rfl⟩ | ⟨fresh, mem⟩⟩ | ⟨argument, rest, rfl, -, -, mem⟩
    · exact ⟨s.name, rfl⟩
    · have := unentered_cons_lt
        (mem_symbols_of_declaration? (declaration?_of_typeDeclared? declared).2) fresh
      exact problem_of_mem_notes_tagsOf mem
    · exact problem_of_mem_notes_tagsOf mem
  · obtain ⟨inner, inside, mem⟩ := (mem_notes_tagsOf_iff fun loc name arguments same =>
      isReference ⟨loc, name, arguments, same⟩).mp mem
    have := inside.sizeOf_lt
    exact problem_of_mem_notes_tagsOf mem
termination_by (p.unentered entered, sizeOf type)

/-- A problem is noted only if the reading comes to an alias under guard. -/
theorem readsAgain_of_mem_notes_tagsOf {entered : List Symbol} {place : Place} {type : Ty}
    {d : Diagnostic} (mem : d ∈ (p.tagsOf origin entered place type).notes) :
    p.ReadsAgain entered (.type place.scope type) := by
  refine (meets_iff_of_key_eq_none rfl).mpr ?_
  by_cases isReference : ∃ loc name arguments, type = .reference loc name arguments
  · obtain ⟨loc, name, arguments, rfl⟩ := isReference
    rcases mem_notes_tagsOf_reference_iff.1 mem with
      ⟨s, id, generics, body, declared, again⟩ | ⟨argument, rest, rfl, undeclared, isArray, mem⟩
    · have isAlias := (declaration?_of_typeDeclared? declared).2
      refine ⟨.symbol s, .reference declared, ?_⟩
      rcases again with ⟨guarded, -⟩ | ⟨fresh, mem⟩
      · exact .guarded rfl guarded
      · have := unentered_cons_lt (mem_symbols_of_declaration? isAlias) fresh
        exact .beyond (by rintro _ ⟨⟩; exact fresh) (.body isAlias)
          (readsAgain_of_mem_notes_tagsOf mem)
    · exact ⟨_, .argument undeclared isArray, readsAgain_of_mem_notes_tagsOf mem⟩
  · obtain ⟨inner, inside, mem⟩ := (mem_notes_tagsOf_iff fun loc name arguments same =>
      isReference ⟨loc, name, arguments, same⟩).mp mem
    have := inside.sizeOf_lt
    exact ⟨_, .inner inside, readsAgain_of_mem_notes_tagsOf mem⟩
termination_by (p.unentered entered, sizeOf type)

/-- `p.Notes origin entered subject`: a problem is noted while the tags of a subject are read, for
an alias because it is under guard or because of what it stands for. -/
def Notes (p : Program) (origin : ModuleId) (entered : List Symbol) : Subject → Prop
  | .type m type => ∀ script, ∃ d, d ∈ (p.tagsOf origin entered ⟨m, script⟩ type).notes
  | .symbol s => s ∈ entered ∨ s ∉ entered ∧ ∃ id generics body,
      p.declaration? s = some (.typeAlias id generics body) ∧
        ∃ d, d ∈ (p.tagsOf origin (s :: entered) (.inside s.module) body).notes

/-- A problem is noted if the reading comes to an alias under guard. -/
theorem notes_of_readsAgain {entered : List Symbol} {subject : Subject}
    (again : p.ReadsAgain entered subject) : p.Notes origin entered subject := by
  -- By induction on the way. It passes through aliases, so `Notes` speaks of them too.
  induction again with
  | @guarded entered subject s keyed mem =>
    cases subject with
    | type => cases keyed
    | symbol t =>
      obtain rfl : t = s := Option.some.inj keyed
      exact Or.inl mem
  | beyond fresh edge _ ih =>
    cases edge with
    | inner inside =>
      intro script
      obtain ⟨d, mem⟩ := ih script
      refine ⟨d, (mem_notes_tagsOf_iff ?_).mpr ⟨_, inside, mem⟩⟩
      rintro loc name arguments rfl
      obtain ⟨⟨⟩⟩ | ⟨⟨⟩⟩ := inside
    | argument undeclared isArray =>
      intro script
      obtain ⟨d, mem⟩ := ih script
      exact ⟨d, mem_notes_tagsOf_reference_iff.2 (Or.inr ⟨_, _, rfl, undeclared, isArray, mem⟩)⟩
    | @reference m loc name arguments s id generics body declared =>
      intro script
      -- The alias is under guard here, or what it stands for notes a problem.
      rcases ih with guarded | ⟨fresh, id', generics', body', isAlias, d, mem⟩
      · exact ⟨_, mem_notes_tagsOf_reference_iff.2
          (Or.inl ⟨_, _, _, _, declared, Or.inl ⟨guarded, rfl⟩⟩)⟩
      · obtain ⟨-, -, rfl⟩ := Declaration.typeAlias.inj
          (Option.some.inj (isAlias.symm.trans (declaration?_of_typeDeclared? declared).2))
        exact ⟨d, mem_notes_tagsOf_reference_iff.2
          (Or.inl ⟨_, _, _, _, declared, Or.inr ⟨fresh, mem⟩⟩)⟩
    | body declared =>
      exact Or.inr ⟨fresh _ rfl, _, _, _, declared, ih _⟩

/-- Reading the tags of a type notes a problem exactly if it comes to an alias under guard. -/
theorem exists_mem_notes_tagsOf_iff {entered : List Symbol} {place : Place} {type : Ty} :
    (∃ d, d ∈ (p.tagsOf origin entered place type).notes) ↔
      p.ReadsAgain entered (.type place.scope type) := by
  constructor
  · rintro ⟨d, mem⟩
    exact readsAgain_of_mem_notes_tagsOf mem
  · intro again
    exact notes_of_readsAgain again place.script

/-- From the start, the only aliases that a reading of tags comes back to are those that are read on
the way from themselves. -/
theorem readsAgain_nil_iff {subject : Subject} :
    p.ReadsAgain [] subject ↔ ∃ s, ReflTransGen p.Reads subject (.symbol s) ∧
      TransGen p.Reads (.symbol s) (.symbol s) := by
  rw [ReadsAgain, meets_nil_iff Subject.eq_of_mem_symbol?]
  constructor
  · rintro ⟨y, reads, isSymbol, cycle⟩
    cases y with
    | type => cases isSymbol
    | symbol s => exact ⟨s, reads, cycle⟩
  · rintro ⟨s, reads, cycle⟩
    exact ⟨.symbol s, reads, rfl, cycle⟩

/-- An alias that cannot be read on the way may be under guard or not: the tags of a type and their
notes are the same. -/
theorem tagsOf_congr {entered entered' : List Symbol} {place : Place} {type : Ty}
    (same : ∀ s, ReflTransGen p.Reads (.type place.scope type) (.symbol s) →
      (s ∈ entered ↔ s ∈ entered')) :
    p.tagsOf origin entered place type = p.tagsOf origin entered' place type := by
  by_cases isReference : ∃ loc name arguments, type = .reference loc name arguments
  · obtain ⟨loc, name, arguments, rfl⟩ := isReference
    rw [tagsOf_reference, tagsOf_reference]
    congr 1
    rw [tagsOfReferent_eq, tagsOfReferent_eq]
    split
    · rename_i s id generics body declared
      have isAlias := (declaration?_of_typeDeclared? declared).2
      have here := same s (.single (.reference declared))
      by_cases fresh : s ∈ entered
      · rw [if_pos fresh, if_pos (here.1 fresh)]
      · rw [if_neg fresh, if_neg fun again => fresh (here.2 again)]
        have := unentered_cons_lt (mem_symbols_of_declaration? isAlias) fresh
        -- Both guards get the alias itself, so they still agree on what can be read.
        refine tagsOf_congr fun t reads => ?_
        have further := same t (.head (.reference declared) (.head (.body isAlias) reads))
        rw [List.mem_cons, List.mem_cons, further]
    · rfl
    · rfl
    · rfl
    · rename_i declared
      exact absurd declared typeDeclared?_ne_imported
    · rename_i undeclared
      unfold tagsOfGlobal
      split
      · rename_i isArray
        cases arguments with
        | nil => rfl
        | cons argument rest =>
          dsimp only
          rw [tagsOf_congr fun t reads => same t (.head (.argument undeclared isArray) reads)]
      · rfl
  · have notReference (loc : Excerpt) (name : EntityName) (arguments : List Ty) :
        type ≠ .reference loc name arguments := fun same => isReference ⟨loc, name, arguments, same⟩
    refine tagsOf_eq_of_inner notReference fun inner inside => ?_
    have := inside.sizeOf_lt
    exact tagsOf_congr fun t reads => same t (.head (.inner inside) reads)
termination_by (p.unentered entered, sizeOf type)

end Program

end TypedProps
