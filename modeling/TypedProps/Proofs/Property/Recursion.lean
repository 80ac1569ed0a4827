import TypedProps.Proofs.Property.Members
import TypedProps.Proofs.Tags.Recursion

/-!
# `TypedProps.Proofs.Property.Recursion`: when an expansion comes back to where it has been

The expansion of a shape goes on with the shapes that `Program.Expands` names, and the aliases and
interfaces on the way are under guard. `expandShape` is the expansion of any shape, and what it does
at one shape is said once for its problems (`circular_expandShape_iff_step`) and once for all that
it gives (`expandShape_eq_of_next`). With `Expands.decreases`, which is why the expansion ends, two
facts about whole expansions follow by induction:

* `circular_expandShape_iff`: a shape that contains itself is reported exactly if the search through
  `Program.Expands` is turned back somewhere.
* `expandShape_congr`: a symbol that the expansion cannot reach may be under guard or not.
-/

set_option autoImplicit false

namespace TypedProps.Program

open Relation

variable {p : Program} {origin : ModuleId} {entered : List Symbol}

/-! ### Shapes under guard -/

/-- The symbol that is under guard while a shape is expanded. Only aliases and interfaces are. -/
def guard? (p : Program) : Shape → Option Symbol
  | .type _ _ => none
  | .declared t =>
    match p.declaration? t with
    | some (.typeAlias ..) | some (.interfaceDecl ..) => some t
    | _ => none

/-- A shape under guard is what its symbol is declared as. -/
theorem eq_declared_of_mem_guard? {shape : Shape} {s : Symbol} (guarded : s ∈ p.guard? shape) :
    shape = .declared s := by
  cases shape with
  | type => cases guarded
  | declared t =>
    unfold guard? at guarded
    dsimp only at guarded
    split at guarded
    · rw [Option.some.inj guarded]
    · rw [Option.some.inj guarded]
    · cases guarded

/-- A symbol is under guard for one shape. -/
theorem eq_of_mem_guard? {a b : Shape} {s : Symbol} (left : s ∈ p.guard? a)
    (right : s ∈ p.guard? b) : a = b :=
  (eq_declared_of_mem_guard? left).trans (eq_declared_of_mem_guard? right).symm

theorem guard?_of_alias {t : Symbol} {id : Identifier} {generics : List String} {body : Ty}
    (declared : p.declaration? t = some (.typeAlias id generics body)) :
    p.guard? (.declared t) = some t := by
  unfold guard?
  dsimp only
  rw [declared]

theorem guard?_of_interface {t : Symbol} {id : Identifier} {generics : List String}
    {bases : List Base} {members : List Member}
    (declared : p.declaration? t = some (.interfaceDecl id generics bases members)) :
    p.guard? (.declared t) = some t := by
  unfold guard?
  dsimp only
  rw [declared]

/-- A declaration that expands to something is guarded. -/
theorem Expands.guard?_declared {t : Symbol} {next : Shape} (step : p.Expands (.declared t) next) :
    p.guard? (.declared t) = some t := by
  cases step with
  | «alias» declared => exact guard?_of_alias declared
  | base declared => exact guard?_of_interface declared

/-- How large the type of a shape is. -/
noncomputable def Shape.size : Shape → Nat
  | .type _ written => sizeOf written
  | .declared _ => 0

/-- With each step of an expansion there are fewer symbols to enter, or the type becomes smaller. -/
theorem Expands.decreases {a b : Shape} (step : p.Expands a b)
    (fresh : ∀ s ∈ p.guard? a, s ∉ entered) :
    Prod.Lex (· < ·) (· < ·) (p.unentered ((p.guard? a).toList ++ entered), b.size)
      (p.unentered entered, a.size) := by
  have enters {t : Symbol} {d : Declaration} (declared : p.declaration? t = some d)
      (guarded : p.guard? (.declared t) = some t)
      (fresh : ∀ s ∈ p.guard? (.declared t), s ∉ entered) :
      p.unentered ((p.guard? (.declared t)).toList ++ entered) < p.unentered entered := by
    rw [guarded]
    exact unentered_cons_lt (mem_symbols_of_declaration? declared) (fresh t guarded)
  -- Declarations are entered, each once; all other steps go to a smaller type under the same guard.
  cases step with
  | paren =>
    refine .right _ ?_
    simp only [Shape.size, Ty.paren.sizeOf_spec]
    omega
  | part mem =>
    have := List.sizeOf_lt_of_mem mem
    refine .right _ ?_
    simp only [Shape.size, Ty.intersection.sizeOf_spec]
    omega
  | reference =>
    refine .right _ ?_
    simp only [Shape.size, Ty.reference.sizeOf_spec]
    omega
  | «alias» declared => exact .left _ _ (enters declared (guard?_of_alias declared) fresh)
  | base declared => exact .left _ _ (enters declared (guard?_of_interface declared) fresh)

/-! ### The expansion of a shape -/

/-- What the expansion of a shape contributes. A declaration is referred to at some place. -/
def expandShape (p : Program) (origin : ModuleId) (entered : List Symbol) (script : ModuleId)
    (span : Span) : Shape → Noted (List Property)
  | .type place type => p.expand origin entered place type
  | .declared t => p.expandDeclared origin entered script span t

/-- The expansion of a symbol is that of what stands behind it. -/
theorem expandSymbol_eq_expandShape (s : Symbol) (script : ModuleId) (span : Span) :
    p.expandSymbol origin entered s script span
      = match p.behindImports? s with
        | none => warned (.unresolvedImport s.name) script span
        | some t => p.expandShape origin entered script span (.declared t) :=
  expandSymbol_eq origin entered s script span

/-- What an alias or an interface contributes once it is under guard. -/
def expandGuarded (p : Program) (origin : ModuleId) (entered : List Symbol) (t : Symbol) :
    Noted (List Property) :=
  match p.declaration? t with
  | some (.typeAlias _ _ body) => p.expand origin entered (.inside t.module) body
  | some (.interfaceDecl _ _ bases members) => do
    let own ← p.propertiesOfMembers origin (.inside t.module) members
    pure (own ++ (← p.expandBases origin entered t.module bases))
  | _ => pure []

/-- A symbol that is guarded is reported if it is under guard, and else put there. -/
theorem expandDeclared_of_guard? {script : ModuleId} {span : Span} {t : Symbol}
    (guarded : p.guard? (.declared t) = some t) :
    p.expandDeclared origin entered script span t
      = if t ∈ entered then warned (.recursiveMembers t.name) script span
        else p.expandGuarded origin (t :: entered) t := by
  unfold guard? at guarded
  unfold expandDeclared expandGuarded
  dsimp only at guarded
  split at guarded
  · rename_i declared
    rw [declared]
  · rename_i declared
    rw [declared]
  · cases guarded

/-- A symbol that is not guarded contributes nothing but a warning. -/
theorem exists_expandDeclared_eq_warned {t : Symbol} (free : p.guard? (.declared t) = none) :
    ∃ problem, (∀ name, problem ≠ .recursiveMembers name) ∧
      ∀ origin entered script span,
        p.expandDeclared origin entered script span t = warned problem script span := by
  unfold guard? at free
  unfold expandDeclared
  cases declared : p.declaration? t with
  | none => exact ⟨_, fun _ => Problem.noConfusion, fun _ _ _ _ => rfl⟩
  | some d =>
    cases d with
    | typeAlias | interfaceDecl => simp [declared] at free
    | classDecl | enumDecl | imported => exact ⟨_, fun _ => Problem.noConfusion, fun _ _ _ _ => rfl⟩

/-- What one part of an intersection contributes. -/
def expandPart (p : Program) (origin : ModuleId) (entered : List Symbol) (place : Place)
    (part : Ty) : Noted (List Property) :=
  if mayHaveMembers part then p.expand origin entered place part
  else warned .intersectionPart place.script part.span

theorem expandParts_cons (place : Place) (part : Ty) (rest : List Ty) :
    p.expandParts origin entered place (part :: rest) = (do
      let first ← p.expandPart origin entered place part
      pure (first ++ (← p.expandParts origin entered place rest))) := by
  rw [expandParts, expandPart]
  split <;> rfl

/-- What one base of an interface contributes. -/
def expandBase (p : Program) (origin : ModuleId) (entered : List Symbol) (m : ModuleId)
    (base : Base) : Noted (List Property) :=
  match base.name with
  | none => warned .qualifiedBase m base.loc
  | some name =>
    match p.lookup m name with
    | some s => p.expandSymbol origin entered s m base.loc
    | none => warned (.unknownType name) m base.loc

theorem expandBases_cons (m : ModuleId) (base : Base) (rest : List Base) :
    p.expandBases origin entered m (base :: rest) = (do
      let first ← p.expandBase origin entered m base
      pure (first ++ (← p.expandBases origin entered m rest))) := by
  rw [expandBases, expandBase]
  cases base.name with
  | none => rfl
  | some name =>
    dsimp only
    cases p.lookup m name <;> rfl

/-! ### Shapes that contain themselves -/

/-- It is noted that a shape contains itself. -/
def Circular (a : Noted (List Property)) : Prop :=
  ∃ d ∈ a.notes, ∃ name, d.problem = .recursiveMembers name

/-- The search for members comes to a symbol that is under guard. -/
abbrev ExpandsAgain (p : Program) : List Symbol → Shape → Prop := Meets p.Expands p.guard?

/-- A warning is about a shape that contains itself if it says so. -/
theorem circular_warned_iff {problem : Problem} {script : ModuleId} {span : Span} :
    Circular (warned problem script span) ↔ ∃ name, problem = .recursiveMembers name := by
  simp [Circular, warned, Noted.note]

/-- A warning that says something else is not about such a shape. -/
theorem not_circular_warned {problem : Problem} {script : ModuleId} {span : Span}
    (other : ∀ name, problem ≠ .recursiveMembers name) :
    ¬ Circular (warned problem script span) := by
  intro circular
  obtain ⟨name, is⟩ := circular_warned_iff.1 circular
  exact other name is

/-- Two lists are noted with the problems of both. -/
theorem circular_append_iff {first : Noted (List Property)} {rest : Noted (List Property)} :
    Circular (do let list ← first; pure (list ++ (← rest))) ↔ Circular first ∨ Circular rest := by
  simp [Circular, or_and_right, exists_or]

/-- The problems of a member are those of reading the tags of its type. -/
theorem exists_type_of_mem_notes_propertyOf {place : Place} {member : Member} {d : Diagnostic}
    (mem : d ∈ (p.propertyOf origin place member).notes) :
    ∃ type, d ∈ (p.tagsOf origin [] place type).notes := by
  unfold propertyOf at mem
  cases member with
  | property loc docs name optional type =>
    dsimp only at mem
    split at mem
    · cases mem
    · cases type with
      | none => cases mem
      | some type =>
        rw [Noted.bind_notes, Noted.pure_notes, List.append_nil, notes_resolveType] at mem
        exact ⟨type, mem⟩
  | method loc docs name =>
    dsimp only at mem
    split at mem <;> cases mem
  | other => cases mem

/-- The problems of members are not that a shape contains itself. -/
theorem not_circular_propertiesOfMembers {place : Place} {members : List Member} :
    ¬ Circular (p.propertiesOfMembers origin place members) := by
  induction members with
  | nil => rintro ⟨d, mem, -⟩; cases mem
  | cons member rest ih =>
    rw [propertiesOfMembers]
    rintro ⟨d, mem, name, again⟩
    simp only [Noted.bind_notes, Noted.pure_notes, List.append_nil, List.mem_append] at mem
    rcases mem with mem | mem
    · obtain ⟨type, mem⟩ := exists_type_of_mem_notes_propertyOf mem
      obtain ⟨_, aboutAlias⟩ := problem_of_mem_notes_tagsOf mem
      rw [again] at aboutAlias
      cases aboutAlias
    · exact ih ⟨d, mem, name, again⟩

/-- Whether a shape contains itself does not depend on where it is referred to. -/
theorem circular_expandShape_congr {script script' : ModuleId} {span span' : Span} {shape : Shape}
    (circular : Circular (p.expandShape origin entered script span shape)) :
    Circular (p.expandShape origin entered script' span' shape) := by
  cases shape with
  | type => exact circular
  | declared t =>
    unfold expandShape at circular ⊢
    dsimp only at circular ⊢
    cases guarded : p.guard? (.declared t) with
    | none =>
      obtain ⟨problem, -, eq⟩ := exists_expandDeclared_eq_warned guarded
      rw [eq, circular_warned_iff] at circular ⊢
      exact circular
    | some s =>
      obtain rfl := Shape.declared.inj (eq_declared_of_mem_guard? guarded)
      rw [expandDeclared_of_guard? guarded] at circular ⊢
      split
      · rename_i again
        rw [if_pos again, circular_warned_iff] at circular
        exact circular_warned_iff.2 circular
      · rename_i fresh
        rwa [if_neg fresh] at circular

/-- A symbol contains itself if what stands behind it does. -/
theorem circular_expandSymbol_iff {s : Symbol} {script : ModuleId} {span : Span} :
    Circular (p.expandSymbol origin entered s script span) ↔
      ∃ t, p.behindImports? s = some t ∧
        ∃ script span, Circular (p.expandShape origin entered script span (.declared t)) := by
  rw [expandSymbol_eq_expandShape]
  cases p.behindImports? s with
  | none => simp [circular_warned_iff]
  | some t =>
    dsimp only
    constructor
    · exact fun circular => ⟨t, rfl, script, span, circular⟩
    · rintro ⟨_, ⟨⟩, _, _, circular⟩
      exact circular_expandShape_congr circular

/-- Parts of an intersection contain themselves if one does. -/
theorem circular_expandParts_iff {place : Place} {parts : List Ty} :
    Circular (p.expandParts origin entered place parts) ↔
      ∃ part ∈ parts, mayHaveMembers part = true ∧
        Circular (p.expand origin entered place part) := by
  induction parts with
  | nil =>
    rw [expandParts]
    simp [Circular]
  | cons part rest ih =>
    rw [expandParts_cons, circular_append_iff, ih, List.exists_mem_cons_iff]
    refine or_congr_left ?_
    unfold expandPart
    split
    · rename_i may
      exact (and_iff_right may).symm
    · rename_i may
      exact iff_of_false (not_circular_warned (by simp)) fun both => may both.1

/-- Bases of an interface contain themselves if one does. -/
theorem circular_expandBases_iff {m : ModuleId} {bases : List Base} :
    Circular (p.expandBases origin entered m bases) ↔
      ∃ base ∈ bases, ∃ name s t, base.name = some name ∧ p.lookup m name = some s ∧
        p.behindImports? s = some t ∧
          ∃ script span, Circular (p.expandShape origin entered script span (.declared t)) := by
  induction bases with
  | nil =>
    rw [expandBases]
    simp [Circular]
  | cons base rest ih =>
    rw [expandBases_cons, circular_append_iff, ih, List.exists_mem_cons_iff]
    refine or_congr_left ?_
    unfold expandBase
    cases base.name with
    | none => exact iff_of_false (not_circular_warned (by simp)) (by simp)
    | some name =>
      dsimp only
      cases bound : p.lookup m name with
      | none =>
        exact iff_of_false (not_circular_warned (by simp)) (by simp [bound])
      | some s => simp [bound, circular_expandSymbol_iff]

/-- What an alias or an interface contributes contains itself if one of the shapes that it expands
to does. -/
theorem circular_expandGuarded_iff {t : Symbol} :
    Circular (p.expandGuarded origin entered t) ↔
      ∃ next, p.Expands (.declared t) next ∧
        ∃ script span, Circular (p.expandShape origin entered script span next) := by
  -- What is declared decides which steps there are, so each step of another kind is excluded.
  unfold expandGuarded
  split
  · rename_i declared
    constructor
    · exact fun circular => ⟨_, .alias declared, 0, default, circular⟩
    · rintro ⟨next, step, script, span, circular⟩
      cases step with
      | «alias» declared' =>
        obtain ⟨-, -, rfl⟩ :=
          Declaration.typeAlias.inj (Option.some.inj (declared.symm.trans declared'))
        exact circular
      | base declared' => cases declared.symm.trans declared'
  · rename_i bases members declared
    rw [circular_append_iff, or_iff_right not_circular_propertiesOfMembers,
      circular_expandBases_iff]
    constructor
    · rintro ⟨base, mem, name, s, u, named, bound, target, circular⟩
      exact ⟨.declared u, .base declared mem named bound target, circular⟩
    · rintro ⟨next, step, circular⟩
      cases step with
      | «alias» declared' => cases declared.symm.trans declared'
      | base declared' mem named bound target =>
        obtain ⟨-, -, rfl, -⟩ :=
          Declaration.interfaceDecl.inj (Option.some.inj (declared.symm.trans declared'))
        exact ⟨_, mem, _, _, _, named, bound, target, circular⟩
  · rename_i notAlias notInterface
    refine iff_of_false (by simp [Circular]) ?_
    rintro ⟨next, step, -⟩
    cases step with
    | «alias» declared => exact notAlias _ _ _ declared
    | base declared => exact notInterface _ _ _ _ declared

/-- A type contains itself if one of the shapes that it expands to does. -/
theorem circular_expand_iff {place : Place} {type : Ty} :
    Circular (p.expand origin entered place type) ↔
      ∃ next, p.Expands (.type place type) next ∧
        ∃ script span, Circular (p.expandShape origin entered script span next) := by
  -- The shapes that a type expands to are those into which its expansion goes on, case by case.
  cases type with
  | object loc members =>
    rw [expand]
    refine iff_of_false not_circular_propertiesOfMembers ?_
    rintro ⟨next, ⟨⟩, -⟩
  | paren loc inner =>
    rw [expand]
    constructor
    · exact fun circular => ⟨_, .paren, 0, default, circular⟩
    · rintro ⟨next, ⟨⟩, _, _, circular⟩
      exact circular
  | intersection loc parts =>
    rw [expand, circular_expandParts_iff]
    constructor
    · rintro ⟨part, mem, may, circular⟩
      exact ⟨_, .part mem may, 0, default, circular⟩
    · rintro ⟨next, step, _, _, circular⟩
      cases step with
      | part mem may => exact ⟨_, mem, may, circular⟩
  | reference loc name arguments =>
    rw [expand_reference]
    constructor
    · intro circular
      split at circular
      · rename_i s bound
        obtain ⟨t, target, circular⟩ := circular_expandSymbol_iff.1 circular
        exact ⟨.declared t, .reference bound target, circular⟩
      · exact absurd circular (not_circular_warned (by simp))
    · rintro ⟨next, step, circular⟩
      cases step with
      | reference bound target =>
        rw [bound]
        exact circular_expandSymbol_iff.2 ⟨_, target, circular⟩
  | _ =>
    rw [expand.eq_def]
    refine iff_of_false (not_circular_warned (by simp)) ?_
    rintro ⟨next, ⟨⟩, -⟩

/-- A shape contains itself if it is under guard, or else if one of those that it expands to
does. -/
theorem circular_expandShape_iff_step {script : ModuleId} {span : Span} {shape : Shape} :
    Circular (p.expandShape origin entered script span shape) ↔
      (∃ s ∈ p.guard? shape, s ∈ entered) ∨ (∀ s ∈ p.guard? shape, s ∉ entered) ∧
        ∃ next, p.Expands shape next ∧ ∃ script span, Circular
          (p.expandShape origin ((p.guard? shape).toList ++ entered) script span next) := by
  cases shape with
  | type place type => simpa [expandShape, guard?] using circular_expand_iff
  | declared t =>
    unfold expandShape
    dsimp only
    -- A symbol without a guard is no alias and no interface, and expands to nothing.
    cases guarded : p.guard? (.declared t) with
    | none =>
      obtain ⟨problem, other, eq⟩ := exists_expandDeclared_eq_warned guarded
      rw [eq]
      refine iff_of_false (not_circular_warned other) ?_
      rintro (⟨s, ⟨⟩, -⟩ | ⟨-, next, step, -⟩)
      cases guarded.symm.trans step.guard?_declared
    | some s =>
      obtain rfl := Shape.declared.inj (eq_declared_of_mem_guard? guarded)
      rw [expandDeclared_of_guard? guarded]
      split
      · rename_i again
        exact iff_of_true (circular_warned_iff.2 ⟨_, rfl⟩) (Or.inl ⟨t, rfl, again⟩)
      · rename_i fresh
        rw [circular_expandGuarded_iff]
        simp [fresh, expandShape]

/-- A shape contains itself exactly if the search for members comes to a symbol under guard. -/
theorem circular_expandShape_iff (entered : List Symbol) (script : ModuleId) (span : Span)
    (shape : Shape) :
    Circular (p.expandShape origin entered script span shape) ↔ p.ExpandsAgain entered shape := by
  -- Both sides are opened once, and agree on the shapes behind.
  rw [circular_expandShape_iff_step]
  refine Iff.trans ?_ meets_iff_step.symm
  refine or_congr_right (and_congr_right fun fresh => exists_congr fun next =>
    and_congr_right fun step => ?_)
  simp only [circular_expandShape_iff ((p.guard? shape).toList ++ entered) _ _ next, exists_const]
termination_by (p.unentered entered, shape.size)
decreasing_by exact step.decreases fresh

/-- From the start, the only shapes that a search for members comes back to are declarations that
expand to themselves. -/
theorem expandsAgain_nil_iff {shape : Shape} :
    p.ExpandsAgain [] shape ↔ ∃ s, ReflTransGen p.Expands shape (.declared s) ∧
      TransGen p.Expands (.declared s) (.declared s) := by
  rw [ExpandsAgain, meets_nil_iff eq_of_mem_guard?]
  constructor
  · rintro ⟨y, reaches, guarded, cycle⟩
    obtain ⟨s, guarded⟩ := Option.isSome_iff_exists.mp guarded
    obtain rfl := eq_declared_of_mem_guard? guarded
    exact ⟨s, reaches, cycle⟩
  · rintro ⟨s, reaches, cycle⟩
    obtain ⟨next, step, -⟩ := TransGen.head'_iff.mp cycle
    exact ⟨.declared s, reaches, by rw [step.guard?_declared]; rfl, cycle⟩

/-! ### Symbols that cannot be reached -/

variable {entered' : List Symbol}

/-- A symbol contributes what stands behind it does. -/
theorem expandSymbol_congr {s : Symbol} {script : ModuleId} {span : Span}
    (same : ∀ t, p.behindImports? s = some t →
      p.expandShape origin entered script span (.declared t)
        = p.expandShape origin entered' script span (.declared t)) :
    p.expandSymbol origin entered s script span = p.expandSymbol origin entered' s script span := by
  rw [expandSymbol_eq_expandShape, expandSymbol_eq_expandShape]
  cases target : p.behindImports? s with
  | none => rfl
  | some t => exact same t target

/-- Parts of an intersection contribute what each of them does. -/
theorem expandParts_congr {place : Place} {parts : List Ty}
    (same : ∀ part ∈ parts, mayHaveMembers part = true →
      p.expand origin entered place part = p.expand origin entered' place part) :
    p.expandParts origin entered place parts = p.expandParts origin entered' place parts := by
  induction parts with
  | nil => rw [expandParts, expandParts]
  | cons part rest ih =>
    have first : p.expandPart origin entered place part
        = p.expandPart origin entered' place part := by
      unfold expandPart
      split
      · rename_i may
        exact same part List.mem_cons_self may
      · rfl
    rw [expandParts_cons, expandParts_cons, first,
      ih fun part mem => same part (List.mem_cons_of_mem _ mem)]

/-- Bases of an interface contribute what each of them does. -/
theorem expandBases_congr {m : ModuleId} {bases : List Base}
    (same : ∀ base ∈ bases, ∀ name s t, base.name = some name → p.lookup m name = some s →
      p.behindImports? s = some t →
        p.expandShape origin entered m base.loc (.declared t)
          = p.expandShape origin entered' m base.loc (.declared t)) :
    p.expandBases origin entered m bases = p.expandBases origin entered' m bases := by
  induction bases with
  | nil => rw [expandBases, expandBases]
  | cons base rest ih =>
    have first : p.expandBase origin entered m base = p.expandBase origin entered' m base := by
      unfold expandBase
      cases named : base.name with
      | none => rfl
      | some name =>
        dsimp only
        cases bound : p.lookup m name with
        | none => rfl
        | some s =>
          exact expandSymbol_congr fun t target =>
            same base List.mem_cons_self name s t named bound target
    rw [expandBases_cons, expandBases_cons, first,
      ih fun base mem => same base (List.mem_cons_of_mem _ mem)]

/-- An alias or an interface contributes its own members and what each shape that it expands to
does. -/
theorem expandGuarded_congr {t : Symbol}
    (same : ∀ next script span, p.Expands (.declared t) next →
      p.expandShape origin entered script span next
        = p.expandShape origin entered' script span next) :
    p.expandGuarded origin entered t = p.expandGuarded origin entered' t := by
  unfold expandGuarded
  split
  · rename_i declared
    exact same _ 0 default (.alias declared)
  · rename_i declared
    rw [expandBases_congr fun base mem name s u named bound target =>
      same _ t.module base.loc (.base declared mem named bound target)]
  · rfl

/-- A type contributes its own members and what each shape that it expands to does. -/
theorem expand_congr {place : Place} {type : Ty}
    (same : ∀ next script span, p.Expands (.type place type) next →
      p.expandShape origin entered script span next
        = p.expandShape origin entered' script span next) :
    p.expand origin entered place type = p.expand origin entered' place type := by
  cases type with
  | object loc members => rw [expand, expand]
  | paren loc inner =>
    rw [expand, expand]
    exact same _ 0 default .paren
  | intersection loc parts =>
    rw [expand, expand]
    exact expandParts_congr fun part mem may => same _ 0 default (.part mem may)
  | reference loc name arguments =>
    rw [expand_reference, expand_reference]
    cases bound : p.symbolAt place.scope name with
    | none => rfl
    | some s =>
      exact expandSymbol_congr fun t target =>
        same _ place.script loc.span (.reference bound target)
  | _ => rw [expand.eq_def, expand.eq_def]

/-- A shape contributes the same under two guards if it is under both or under neither, and each
shape that it expands to does. -/
theorem expandShape_eq_of_next {script : ModuleId} {span : Span} {shape : Shape}
    (guarded : ∀ s ∈ p.guard? shape, (s ∈ entered ↔ s ∈ entered'))
    (same : (∀ s ∈ p.guard? shape, s ∉ entered) → ∀ next script span, p.Expands shape next →
      p.expandShape origin ((p.guard? shape).toList ++ entered) script span next
        = p.expandShape origin ((p.guard? shape).toList ++ entered') script span next) :
    p.expandShape origin entered script span shape
      = p.expandShape origin entered' script span shape := by
  cases shape with
  | type place type => exact expand_congr (same (by rintro _ ⟨⟩))
  | declared t =>
    unfold expandShape
    dsimp only
    cases is : p.guard? (.declared t) with
    | none =>
      obtain ⟨problem, -, eq⟩ := exists_expandDeclared_eq_warned is
      rw [eq, eq]
    | some s =>
      obtain rfl := Shape.declared.inj (eq_declared_of_mem_guard? is)
      rw [expandDeclared_of_guard? is, expandDeclared_of_guard? is]
      have here := guarded t is
      by_cases again : t ∈ entered
      · rw [if_pos again, if_pos (here.1 again)]
      · rw [if_neg again, if_neg fun mem => again (here.2 mem)]
        rw [is] at same
        exact expandGuarded_congr (same (by rintro _ ⟨⟩; exact again))

/-- A symbol that the expansion of a shape cannot reach may be under guard or not: the members and
the notes are the same. -/
theorem expandShape_congr {entered entered' : List Symbol} {script : ModuleId} {span : Span}
    {shape : Shape}
    (same : ∀ s, ReflTransGen p.Expands shape (.declared s) → (s ∈ entered ↔ s ∈ entered')) :
    p.expandShape origin entered script span shape
      = p.expandShape origin entered' script span shape := by
  refine expandShape_eq_of_next (fun s guarded => ?_) fun fresh next script span step => ?_
  · exact same s (eq_declared_of_mem_guard? guarded ▸ .refl)
  · -- Behind the shape both guards have its symbol in addition.
    refine expandShape_congr fun s reaches => ?_
    rw [List.mem_append, List.mem_append, same s (.head step reaches)]
termination_by (p.unentered entered, shape.size)
decreasing_by exact step.decreases fresh

end TypedProps.Program
