import TypedProps.Proofs.Component.Bystanders
import TypedProps.Proofs.Program.SymbolTable
import TypedProps.Proofs.Property.Traversal

/-!
# `TypedProps.Proofs.Pass.Declared`: a name that is bound is bound to something

Every symbol that a lookup answers with is declared: it has a number in the table of the program,
and the number leads back to the first declaration of its name in its module
(`symbols_consistent`). So a pass over any modules, with any options, never reports that a symbol
has no declaration.

* `Program.isSome_declaration?_of_answers`: the lookups answer with declared symbols only.
* `Program.declared_componentsOf`: of the problems that are noted, none is that one. While members
  are collected, a dead end has one of the other reasons (`Program.DeadEnd`).
-/

set_option autoImplicit false

namespace TypedProps

namespace Program

variable {p : Program} {options : Options} {origin script : ModuleId}

/-! ### Lookups -/

/-- `p.Answers s`: one of the lookups answers with the symbol `s`. -/
inductive Answers (p : Program) (s : Symbol) : Prop
  | named {m : ModuleId} {name : String} (found : p.lookup m name = some s)
  | written {m : ModuleId} {name : EntityName} (found : p.symbolAt m name = some s)
  | aliased {t : Symbol} (found : p.aliased? t = some s)

/-- What is imported is declared, namely by its import. -/
theorem isSome_declaration?_of_importOf? {s : Symbol} (imported : (p.importOf? s).isSome) :
    (p.declaration? s).isSome := by
  obtain ⟨⟨ways, name⟩, imported⟩ := Option.isSome_iff_exists.mp imported
  obtain ⟨_, _, _, declared, -⟩ := importOf?_eq_some_iff.1 imported
  rw [declared]
  rfl

/-- A lookup answers with declared symbols only. -/
theorem isSome_declaration?_of_answers {s : Symbol} (answers : p.Answers s) :
    (p.declaration? s).isSome := by
  cases answers with
  | named found =>
    obtain ⟨d, declared, rfl⟩ := Option.map_eq_some_iff.mp found
    rw [declared]
    rfl
  | @written m name found =>
    have refers : p.Refers (.type (.inside m) (.reference default name [])) name.text (some s) := by
      rw [← found]
      exact .reference
    exact refers.isSome_declaration?
  | aliased found =>
    obtain ⟨imported, trail, n, walk, rfl, -⟩ := aliased?_eq_some_iff.1 found
    exact walk.isSome_declaration? (isSome_declaration?_of_importOf? imported)

/-! ### What is noted -/

/-- A dead end is never that a symbol has no declaration. -/
theorem DeadEnd.code_ne {entered : List Symbol} {point : Waypoint} {problem : Problem}
    (deadEnd : p.DeadEnd entered point problem) : problem.code ≠ .missingDeclaration := by
  cases deadEnd <;> nofun

end Program

/-- Nothing is noted about a symbol without a declaration. -/
def Noted.Declared {α : Type} (a : Noted α) : Prop :=
  ∀ problem ∈ a.problems, problem.code ≠ .missingDeclaration

namespace Noted

variable {α β : Type} {a : Noted α} {f : α → Noted β}

theorem declared_pure (x : α) : (pure x : Noted α).Declared := nofun

theorem Declared.bind (first : a.Declared) (next : ∀ x, (f x).Declared) : (a >>= f).Declared := by
  intro problem mem
  rw [problems_bind, List.mem_append] at mem
  exact mem.elim (first problem) (next a.value problem)

theorem Declared.map (declared : a.Declared) (g : α → β) : (g <$> a).Declared := by
  intro problem mem
  rw [problems_map] at mem
  exact declared problem mem

end Noted

namespace Program

variable {p : Program} {options : Options} {origin script : ModuleId}

/-- What is met by a traversal is noted, and it is met for a reason or opens. -/
theorem Traverses.code_ne {entered : List Symbol} {points : List Waypoint}
    {arrivals : List Arrival} (traverses : p.Traverses entered points arrivals) :
    ∀ d ∈ arrivals.flatMap (Arrival.notes p origin), d.code ≠ .missingDeclaration := by
  induction traverses with
  | nil => nofun
  | stopped deadEnd _ ih =>
    intro d mem
    rcases List.mem_append.mp mem with mem | mem
    · obtain rfl := List.mem_singleton.mp mem
      exact deadEnd.code_ne
    · exact ih d mem
  | opened _ _ _ ihInner ihOthers =>
    intro d mem
    rw [List.flatMap_cons, List.flatMap_append, List.mem_append, List.mem_append] at mem
    rcases mem with mem | mem | mem
    · obtain ⟨name, is⟩ := problem_of_mem_notes_opened mem
      rw [Diagnostic.code, is]
      nofun
    · exact ihInner d mem
    · exact ihOthers d mem

theorem declared_propertiesOf (p : Program) (origin : ModuleId) (place : Place) (type : Ty) :
    (p.propertiesOf origin place type).Declared := by
  obtain ⟨arrivals, traverses⟩ := p.exists_traverses [] [.type place type]
  refine Noted.Declared.map ?_ _
  rw [traverses.expand_eq]
  intro problem mem
  obtain ⟨d, noted, rfl⟩ := List.mem_map.mp mem
  exact traverses.code_ne d noted

theorem declared_propertiesWithout (excluded : List String) (type : Option Ty) :
    (p.propertiesWithout origin script excluded type).Declared := by
  cases type with
  | none => exact Noted.declared_pure _
  | some type => exact (p.declared_propertiesOf origin _ type).map _

theorem declared_componentOf (r : Recognized) : (p.componentOf origin script r).Declared := by
  unfold componentOf
  split
  · exact Noted.declared_pure _
  · refine Noted.Declared.bind (declared_propertiesWithout _ _) fun _ => ?_
    refine Noted.Declared.bind (declared_propertiesWithout _ _) fun _ => ?_
    exact Noted.Declared.bind (declared_propertiesWithout _ _) fun _ => Noted.declared_pure _

/-- What is wrong with names that are listed by hand is that they cannot be read. -/
theorem code_of_mem_complaints {property : ObjectProperty} {problem : Problem}
    (mem : problem ∈ property.complaints) : problem.code = .unsupportedPattern := by
  -- The entries of an object and the elements of an array are complained about in the same way.
  have ofValue {value : Expr} (mem : problem ∈ value.complaints) :
      problem.code = .unsupportedPattern := by
    unfold Expr.complaints at mem
    split at mem
    · obtain ⟨listed, -, is⟩ := List.mem_filterMap.mp mem
      unfold ObjectProperty.complaint? at is
      split at is <;> cases is <;> rfl
    · obtain ⟨listed, -, is⟩ := List.mem_filterMap.mp mem
      unfold Argument.complaint? at is
      split at is <;> cases is
      rfl
    · cases mem
  unfold ObjectProperty.complaints at mem
  split at mem
  · split at mem
    · exact ofValue mem
    · cases mem
  · cases mem

theorem declared_ofVariable (options : Options) (m : ModuleId) (type : Option Ty) (init : Expr) :
    (Recognized.ofVariable options m type init).Declared := by
  intro problem mem
  rw [Recognized.problems_ofVariable] at mem
  obtain ⟨property, -, mem⟩ := List.mem_flatMap.mp mem
  rw [code_of_mem_complaints mem]
  decide

theorem declared_componentOfVariable (v : Variable) :
    (p.componentOfVariable options origin script v).Declared := by
  unfold componentOfVariable
  split
  · refine Noted.Declared.bind (declared_ofVariable _ _ _ _) fun recognized => ?_
    cases recognized with
    | none => exact Noted.declared_pure _
    | some r => exact Noted.Declared.bind (declared_componentOf r) fun _ => Noted.declared_pure _
  · exact Noted.declared_pure _

/-- Nothing that is noted about a module is that a symbol has no declaration. -/
theorem declared_componentsOf (p : Program) (options : Options) (origin script : ModuleId)
    (items : List Item) : (p.componentsOf options origin script items).Declared := by
  refine Noted.Declared.map ?_ _
  intro problem mem
  rw [problems_componentsAmong] at mem
  obtain ⟨v, -, mem⟩ := List.mem_flatMap.mp mem
  exact declared_componentOfVariable v problem mem

end Program

/-! ### What is reported -/

namespace Pass

variable {p : Program} {options : Options} {origin : ModuleId}

theorem code_of_mem_reported {m : ModuleId × List Item} {d : Diagnostic}
    (mem : d ∈ reported p options origin m) : d.code ≠ .missingDeclaration := by
  have noted : d ∈ (p.componentsOf options origin m.1 m.2).notes := by
    unfold reported Options.shown at mem
    split at mem
    · exact List.mem_of_mem_filter mem
    · exact mem
  exact p.declared_componentsOf options origin m.1 m.2 d.problem (List.mem_map_of_mem noted)

/-- Symbols and their table are consistent. A lookup answers with symbols that are in the table,
under the name in the scope where it was found. The number of such a symbol leads back to a
declaration, in the module of the symbol, of an identifier that is its name, and no other
declaration of this name stands in front of it there. No two symbols have one number, and no number
is without its symbol.

So no transformation of a module, and no pass over some modules, one after the other, reports that a
symbol has no declaration. -/
theorem symbols_consistent (p : Program) :
    (∀ s, p.Answers s → ∃ n m site d, p.table.number? s = some n ∧
      p.table.entries[n]? = some ⟨s.module, s.name, site⟩ ∧
      p.module? s.module = some m ∧ m.declarationAt? site = some d ∧ p.declaration? s = some d ∧
      d.identifier.name = s.name ∧
      ∀ other d', m.declarationAt? other = some d' → d'.identifier.name = s.name →
        ¬ other.Before site) ∧
    (∀ m name, p.lookup m name = (p.table.number? ⟨m, name⟩).map fun _ => ⟨m, name⟩) ∧
    (∀ s t n, p.table.number? s = some n → p.table.number? t = some n → s = t) ∧
    (∀ n e, p.table.entries[n]? = some e → p.table.number? ⟨e.module, e.name⟩ = some n) ∧
    (∀ options id m, ∀ d ∈ (p.transformModule options id m).diagnostics,
      d.code ≠ .missingDeclaration) ∧
    ∀ options origin modules, ∃ calls, resolveEach p options origin modules fresh = some calls ∧
      calls.length = modules.length ∧
      ∀ call ∈ calls, ∀ d ∈ call.2.diagnostics, d.code ≠ .missingDeclaration := by
  refine ⟨?answered, ?looked, fun s t n => Program.eq_of_number?, p.covers_table.numbered,
    fun options id m d shown => code_of_mem_reported (m := (id, m.items)) shown, ?runs⟩
  case answered =>
    intro s answers
    obtain ⟨n, looked⟩ := Option.isSome_iff_exists.mp
      (Program.isSome_number?_iff.mpr (Program.isSome_declaration?_of_answers answers))
    obtain ⟨m, site, d, here, entry, rest⟩ := Program.declarationAt?_of_number? looked
    exact ⟨n, m, site, d, looked, entry, here, rest⟩
  case looked =>
    intro m name
    have known := @Program.isSome_number?_iff p ⟨m, name⟩
    unfold Program.lookup
    cases number : p.table.number? ⟨m, name⟩ with
    | none =>
      cases declared : p.declaration? ⟨m, name⟩ with
      | none => rfl
      | some d => simp [number, declared] at known
    | some n =>
      cases declared : p.declaration? ⟨m, name⟩ with
      | none => simp [number, declared] at known
      | some d => rfl
  case runs =>
    intro options origin modules
    obtain ⟨calls, run, length, each⟩ := exists_resolveEach p options origin modules []
    refine ⟨calls, run, length, ?_⟩
    intro call mem d reports
    obtain ⟨k, inside, rfl⟩ := List.mem_iff_getElem.mp mem
    have here := each k modules[k] (List.getElem?_eq_getElem (length ▸ inside))
    rw [List.getElem?_eq_getElem inside] at here
    rw [Option.some.inj here] at reports
    obtain ⟨m, -, mem⟩ := List.mem_flatMap.mp reports
    exact code_of_mem_reported mem

/-- A name that is bound twice, first by an import. -/
def boundTwiceFiles : Sources := .ofList
  [("/a.ts", .text "import { B as A } from './b'\ninterface A {}\n"),
    ("/b.ts", .text "export class B {}\n")]

/-- The first binding counts, which is the specifier of the import. What the other module binds has
the next number. -/
theorem symbols_consistent_boundTwice : ∃ p m d, Program.load boundTwiceFiles "/a.ts" = .ok p ∧
    p.lookup 0 "A" = some ⟨0, "A"⟩ ∧
    p.table.entries = [⟨0, "A", .specifier 0 0 (some 1) (.named "B") false⟩,
      ⟨1, "B", .statement 0⟩] ∧
    p.module? 0 = some m ∧
    m.declarationAt? (.specifier 0 0 (some 1) (.named "B") false) = some d ∧
    p.declaration? ⟨0, "A"⟩ = some d ∧ d.identifier.name = "A" := by
  have loads : Program.loadsWith boundTwiceFiles "/a.ts" (fun p => decide
      (p.lookup 0 "A" = some ⟨0, "A"⟩ ∧
        p.table.entries = [⟨0, "A", .specifier 0 0 (some 1) (.named "B") false⟩,
          ⟨1, "B", .statement 0⟩])) = true := by
    refine Program.loadsWith_of_written (by repeat constructor) ?_
    decide +kernel
  obtain ⟨p, loaded, facts⟩ := Program.exists_of_loadsWith loads
  obtain ⟨bound, entries⟩ := of_decide_eq_true facts
  obtain ⟨n, m, site, d, -, entry, here, stands, declared, named, -⟩ :=
    (symbols_consistent p).1 ⟨0, "A"⟩ (.named bound)
  have first : p.table.entries[n]? = some ⟨0, "A", site⟩ := entry
  obtain rfl : site = .specifier 0 0 (some 1) (.named "B") false := by
    rw [entries] at first
    cases n with
    | zero => exact (congrArg TableEntry.site (Option.some.inj first)).symm
    | succ n => cases n <;> cases first
  exact ⟨p, m, d, loaded, bound, entries, here, stands, declared, named⟩

end Pass

end TypedProps
