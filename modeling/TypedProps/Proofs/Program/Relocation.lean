import Mathlib.Data.List.Basic
import TypedProps.Tag.Resolution

/-!
# `TypedProps.Proofs.Program.Relocation`: programs within programs

A relocation sends the modules of one program to those of another one and the stretches of their
scripts to others (`Relocation`). Syntax is moved along with its stretches (`Ty.moved` and so on);
its texts and names stay. One program is embedded in another one if each of its modules binds,
exports and passes on the same there, with everything relocated (`Relocation.Embeds`). The other
program may have more modules.

Looking up names, following exports and imports, and telling what a type name refers to depend on
nothing else. They give in the one program what they give in the other, relocated.
-/

set_option autoImplicit false

namespace TypedProps

/-! ### Moving syntax -/

section Moved

variable (g : Span → Span)

/-- The same text at another place. -/
def Excerpt.moved (loc : Excerpt) : Excerpt := ⟨g loc.span, loc.text⟩

@[simp] theorem Excerpt.span_moved (loc : Excerpt) : (loc.moved g).span = g loc.span := rfl

/-- The same name at another place. -/
def Identifier.moved (name : Identifier) : Identifier := ⟨name.name, g name.span⟩

/-- The same entry at another place. -/
def Base.moved (base : Base) : Base := ⟨g base.loc, base.name⟩

mutual

/-- The same type at another place. -/
def Ty.moved : Ty → Ty
  | .keyword loc word => .keyword (loc.moved g) word
  | .literal loc form => .literal (loc.moved g) form
  | .array loc element => .array (loc.moved g) element.moved
  | .tuple loc elements => .tuple (loc.moved g) (Ty.movedAll elements)
  | .function loc => .function (loc.moved g)
  | .paren loc inner => .paren (loc.moved g) inner.moved
  | .optional loc inner => .optional (loc.moved g) inner.moved
  | .readonly loc inner => .readonly (loc.moved g) inner.moved
  | .object loc members => .object (loc.moved g) (Member.movedAll members)
  | .mapped loc => .mapped (loc.moved g)
  | .union loc members => .union (loc.moved g) (Ty.movedAll members)
  | .intersection loc members => .intersection (loc.moved g) (Ty.movedAll members)
  | .reference loc name arguments => .reference (loc.moved g) name (Ty.movedAll arguments)
  | .other loc => .other (loc.moved g)

/-- The same types at other places. -/
def Ty.movedAll : List Ty → List Ty
  | [] => []
  | type :: rest => type.moved :: Ty.movedAll rest

/-- The same type, if it is written, at another place. -/
def Ty.moved? : Option Ty → Option Ty
  | none => none
  | some type => some type.moved

/-- The same member at another place. -/
def Member.moved : Member → Member
  | .property loc docs name optional type =>
    .property (loc.moved g) docs name optional (Ty.moved? type)
  | .method loc docs name optional generics parameters result =>
    .method (loc.moved g) docs name optional generics parameters (Ty.moved? result)
  | .other loc docs => .other (loc.moved g) docs

/-- The same members at other places. -/
def Member.movedAll : List Member → List Member
  | [] => []
  | member :: rest => member.moved :: Member.movedAll rest

end

/-- The same pattern at another place. -/
def Pattern.moved (pattern : Pattern) : Pattern := ⟨pattern.name, Ty.moved? g pattern.type⟩

mutual

/-- The same expression at another place. -/
def Expr.moved : Expr → Expr
  | .name loc id => .name (g loc) id
  | .member loc property => .member (g loc) property
  | .call loc callee typeArguments arguments =>
    .call (g loc) callee.moved (Ty.movedAll g typeArguments) (Argument.movedAll arguments)
  | .callback loc parameters => .callback (g loc) (parameters.map (Pattern.moved g))
  | .object loc properties => .object (g loc) (ObjectProperty.movedAll properties)
  | .array loc elements => .array (g loc) (Argument.movedAll elements)
  | .string loc value => .string (g loc) value
  | .template loc => .template (g loc)
  | .paren loc inner => .paren (g loc) inner.moved
  | .other loc => .other (g loc)

/-- The same argument at another place. -/
def Argument.moved : Argument → Argument
  | .plain value => .plain value.moved
  | .spread value => .spread value.moved

/-- The same arguments at other places. -/
def Argument.movedAll : List Argument → List Argument
  | [] => []
  | argument :: rest => argument.moved :: Argument.movedAll rest

/-- The same property at another place. -/
def ObjectProperty.moved : ObjectProperty → ObjectProperty
  | .spread dots => .spread (g dots)
  | .keyValue loc key value => .keyValue (g loc) key value.moved
  | .method loc key parameters => .method (g loc) key (parameters.map (Pattern.moved g))
  | .bare loc key => .bare (g loc) key

/-- The same properties at other places. -/
def ObjectProperty.movedAll : List ObjectProperty → List ObjectProperty
  | [] => []
  | property :: rest => property.moved :: ObjectProperty.movedAll rest

end

/-- The same member of an enumeration at another place. -/
def EnumMember.moved (member : EnumMember) : EnumMember := ⟨member.init.map (Expr.moved g)⟩

theorem Ty.movedAll_eq_map (types : List Ty) : Ty.movedAll g types = types.map (Ty.moved g) := by
  induction types with
  | nil => rw [Ty.movedAll, List.map_nil]
  | cons type rest ih => rw [Ty.movedAll, List.map_cons, ih]

theorem Ty.moved?_eq_map (type : Option Ty) : Ty.moved? g type = type.map (Ty.moved g) := by
  cases type <;> rw [Ty.moved?] <;> rfl

theorem Member.movedAll_eq_map (members : List Member) :
    Member.movedAll g members = members.map (Member.moved g) := by
  induction members with
  | nil => rw [Member.movedAll, List.map_nil]
  | cons member rest ih => rw [Member.movedAll, List.map_cons, ih]

/-- The text of a type does not depend on its place. -/
@[simp] theorem Ty.text_moved (type : Ty) : (type.moved g).text = type.text := by
  cases type <;> rw [Ty.moved] <;> rfl

@[simp] theorem Ty.span_moved (type : Ty) : (type.moved g).span = g type.span := by
  cases type <;> rw [Ty.moved] <;> rfl

end Moved

/-! ### Nothing changes where all stretches stay -/

theorem Identifier.moved_id (name : Identifier) : name.moved id = name := rfl

theorem Base.moved_id : Base.moved id = id := rfl

mutual

theorem Ty.moved_id (type : Ty) : type.moved id = type := by
  cases type with
  | keyword | literal | function | mapped | other => rw [Ty.moved]; rfl
  | array loc inner | paren loc inner | optional loc inner | readonly loc inner =>
    rw [Ty.moved, Ty.moved_id inner]
    rfl
  | tuple loc parts | union loc parts | intersection loc parts | reference loc name parts =>
    rw [Ty.moved, Ty.movedAll_id parts]
    rfl
  | object loc members =>
    rw [Ty.moved, Member.movedAll_id members]
    rfl

theorem Ty.movedAll_id (types : List Ty) : Ty.movedAll id types = types := by
  cases types with
  | nil => rw [Ty.movedAll]
  | cons type rest => rw [Ty.movedAll, Ty.moved_id type, Ty.movedAll_id rest]

theorem Ty.moved?_id (type : Option Ty) : Ty.moved? id type = type := by
  cases type with
  | none => rw [Ty.moved?]
  | some type => rw [Ty.moved?, Ty.moved_id type]

theorem Member.moved_id (member : Member) : member.moved id = member := by
  cases member with
  | property loc docs name optional type | method loc docs name optional _ _ type =>
    rw [Member.moved, Ty.moved?_id type]
    rfl
  | other => rw [Member.moved]; rfl

theorem Member.movedAll_id (members : List Member) : Member.movedAll id members = members := by
  cases members with
  | nil => rw [Member.movedAll]
  | cons member rest => rw [Member.movedAll, Member.moved_id member, Member.movedAll_id rest]

end

theorem Pattern.moved_id : Pattern.moved id = id := by
  funext pattern
  obtain ⟨name, type⟩ := pattern
  show Pattern.mk name (Ty.moved? id type) = _
  rw [Ty.moved?_id]
  rfl

mutual

theorem Expr.moved_id (e : Expr) : e.moved id = e := by
  cases e with
  | name | member | string | template | other => rw [Expr.moved]; rfl
  | call loc callee types arguments =>
    rw [Expr.moved, Expr.moved_id callee, Ty.movedAll_id, Argument.movedAll_id arguments]
    rfl
  | callback loc parameters =>
    rw [Expr.moved, Pattern.moved_id, List.map_id]
    rfl
  | object loc properties =>
    rw [Expr.moved, ObjectProperty.movedAll_id properties]
    rfl
  | array loc elements =>
    rw [Expr.moved, Argument.movedAll_id elements]
    rfl
  | paren loc inner =>
    rw [Expr.moved, Expr.moved_id inner]
    rfl

theorem Argument.moved_id (argument : Argument) : argument.moved id = argument := by
  cases argument with
  | plain value | spread value => rw [Argument.moved, Expr.moved_id value]

theorem Argument.movedAll_id (arguments : List Argument) :
    Argument.movedAll id arguments = arguments := by
  cases arguments with
  | nil => rw [Argument.movedAll]
  | cons argument rest =>
    rw [Argument.movedAll, Argument.moved_id argument, Argument.movedAll_id rest]

theorem ObjectProperty.moved_id (property : ObjectProperty) : property.moved id = property := by
  cases property with
  | spread | bare => rw [ObjectProperty.moved]; rfl
  | keyValue loc key value =>
    rw [ObjectProperty.moved, Expr.moved_id value]
    rfl
  | method loc key parameters =>
    rw [ObjectProperty.moved, Pattern.moved_id, List.map_id]
    rfl

theorem ObjectProperty.movedAll_id (properties : List ObjectProperty) :
    ObjectProperty.movedAll id properties = properties := by
  cases properties with
  | nil => rw [ObjectProperty.movedAll]
  | cons property rest =>
    rw [ObjectProperty.movedAll, ObjectProperty.moved_id property,
      ObjectProperty.movedAll_id rest]

end

theorem EnumMember.moved_id : EnumMember.moved id = id := by
  funext member
  obtain ⟨init⟩ := member
  show EnumMember.mk (init.map (Expr.moved id)) = _
  rw [show Expr.moved id = id from funext Expr.moved_id, Option.map_id]
  rfl

/-! ### Relocations -/

/-- Where the modules of a program go, no two of them to the same place, and where the stretches of
their scripts go. -/
structure Relocation where
  module : ModuleId → ModuleId
  span : Span → Span
  injective : Function.Injective module

namespace Relocation

variable (r : Relocation)

/-- The same name in the relocated module. -/
def symbol (s : Symbol) : Symbol := ⟨r.module s.module, s.name⟩

/-- The relocated place. -/
def place (place : Place) : Place := ⟨r.module place.scope, r.module place.script⟩

/-- The same declaration in a relocated module. -/
def declaration : Declaration → Declaration
  | .typeAlias name generics body => .typeAlias (name.moved r.span) generics (body.moved r.span)
  | .interfaceDecl name generics bases members =>
    .interfaceDecl (name.moved r.span) generics (bases.map (Base.moved r.span))
      (Member.movedAll r.span members)
  | .classDecl name => .classDecl (name.moved r.span)
  | .enumDecl name members =>
    .enumDecl (name.moved r.span) (members.map (EnumMember.moved r.span))
  | .imported name source what typeOnly =>
    .imported (name.moved r.span) (source.map r.module) what typeOnly

/-- The same entry for an export of a relocated module. -/
def entry : ExportEntry → ExportEntry
  | .own name => .own name
  | .reexport source name typeOnly => .reexport (source.map r.module) name typeOnly

/-- The same export of a relocated module. -/
def namedExport (e : NamedExport) : NamedExport := { e with entry := r.entry e.entry }

/-- The same answer with the relocated symbol. -/
def outcome {budget : Nat} (o : Program.Outcome budget) : Program.Outcome budget :=
  ⟨o.symbol.map r.symbol, o.typeOnly, o.left, o.left_le⟩

/-- The same problem at the relocated place. -/
def diagnostic (d : Diagnostic) : Diagnostic := ⟨d.problem, r.module d.module, r.span d.span⟩

/-- The same value with relocated diagnostics. -/
def noted {α : Type} (a : Noted α) : Noted α := ⟨a.value, a.notes.map r.diagnostic⟩

@[simp] theorem symbol_module (s : Symbol) : (r.symbol s).module = r.module s.module := rfl

@[simp] theorem symbol_name (s : Symbol) : (r.symbol s).name = s.name := rfl

@[simp] theorem place_scope (place : Place) : (r.place place).scope = r.module place.scope := rfl

@[simp] theorem place_script (place : Place) : (r.place place).script = r.module place.script := rfl

@[simp] theorem place_inside (m : ModuleId) : r.place (.inside m) = .inside (r.module m) := rfl

theorem symbol_injective : Function.Injective r.symbol := by
  rintro ⟨m, name⟩ ⟨m', name'⟩ same
  obtain ⟨modules, names⟩ := Symbol.mk.inj same
  obtain rfl : m = m' := r.injective modules
  obtain rfl : name = name' := names
  rfl

/-- A symbol is among the relocated ones exactly if it was among them before. -/
@[simp] theorem symbol_mem_map_iff {s : Symbol} {entered : List Symbol} :
    r.symbol s ∈ entered.map r.symbol ↔ s ∈ entered :=
  List.mem_map_of_injective r.symbol_injective

/-- Modules are the same exactly if they were so before. -/
@[simp] theorem module_beq (m m' : ModuleId) : (r.module m == r.module m') = (m == m') :=
  r.injective.beq_eq

@[simp] theorem noted_pure {α : Type} (a : α) : r.noted (pure a) = pure a := rfl

@[simp] theorem noted_bind {α β : Type} (a : Noted α) (f : α → Noted β) :
    r.noted (a >>= f) = r.noted a >>= fun x => r.noted (f x) := by
  show Noted.mk _ _ = Noted.mk _ _
  rw [Noted.bind_notes, List.map_append]
  rfl

@[simp] theorem noted_map {α β : Type} (f : α → β) (a : Noted α) :
    r.noted (f <$> a) = f <$> r.noted a := r.noted_bind a (pure ∘ f)

@[simp] theorem noted_note (problem : Problem) (m : ModuleId) (span : Span) :
    r.noted (Noted.note problem m span) = Noted.note problem (r.module m) (r.span span) := rfl

/-- A module binds, exports and passes on the same as another one, relocated. -/
structure Agrees (m' m : LoadedModule) : Prop where
  declaration? (name : String) : m'.declaration? name = (m.declaration? name).map r.declaration
  exported? (name : String) : m'.exported? name = (m.exported? name).map r.entry
  starTargets : m'.starTargets = m.starTargets.map r.module

theorem name_declaration (d : Declaration) :
    (r.declaration d).identifier.name = d.identifier.name := by
  cases d <;> rfl

/-- Modules agree if their items declare, export and pass on the same, relocated, in the same
order. -/
theorem Agrees.of_lists {r : Relocation} {m' m : LoadedModule}
    (declarations : m'.declarations = m.declarations.map r.declaration)
    (exports : m'.items.flatMap m'.exportsOf
      = (m.items.flatMap m.exportsOf).map r.namedExport)
    (starTargets : m'.starTargets = m.starTargets.map r.module) : r.Agrees m' m := by
  refine ⟨fun name => ?_, fun name => ?_, starTargets⟩
  · have named : (fun d : Declaration => d.identifier.name == name) ∘ r.declaration
        = fun d => d.identifier.name == name := by
      funext d
      show ((r.declaration d).identifier.name == name) = _
      rw [r.name_declaration]
    rw [LoadedModule.declaration?, declarations, List.find?_map, named]
    rfl
  · have named : (fun e : NamedExport => e.name == name) ∘ r.namedExport
        = fun e => e.name == name := rfl
    have overriding : (fun e : NamedExport => e.override) ∘ r.namedExport
        = fun e => e.override := rfl
    unfold LoadedModule.exported?
    rw [exports]
    simp only [List.filter_map, named, overriding, List.getLast?_map, List.head?_map]
    -- The last export that overrides others, and the first one if there is none.
    generalize (((m.items.flatMap m.exportsOf).filter (·.name == name)).filter
      (·.override)).getLast? = last
    generalize ((m.items.flatMap m.exportsOf).filter (·.name == name)).head? = first
    cases last <;> cases first <;> rfl

/-- One program is part of another one: each of its modules is there, relocated. -/
structure Embeds (p q : Program) : Prop where
  absent {m : ModuleId} : q.module? m = none → p.module? (r.module m) = none
  present {m : ModuleId} {module : LoadedModule} : q.module? m = some module →
    ∃ module', p.module? (r.module m) = some module' ∧ r.Agrees module' module

end Relocation

namespace Relocation.Embeds

open Program

variable {r : Relocation} {p q : Program}

/-- A relocated symbol has the relocated declaration. -/
theorem declaration? (embeds : r.Embeds p q) (s : Symbol) :
    p.declaration? (r.symbol s) = (q.declaration? s).map r.declaration := by
  unfold Program.declaration?
  cases here : q.module? s.module with
  | none =>
    rw [r.symbol_module, embeds.absent here]
    rfl
  | some module =>
    obtain ⟨module', there, agrees⟩ := embeds.present here
    rw [r.symbol_module, there]
    exact agrees.declaration? s.name

theorem lookup (embeds : r.Embeds p q) (m : ModuleId) (name : String) :
    p.lookup (r.module m) name = (q.lookup m name).map r.symbol := by
  unfold Program.lookup
  rw [show (⟨r.module m, name⟩ : Symbol) = r.symbol ⟨m, name⟩ from rfl, embeds.declaration?]
  cases q.declaration? ⟨m, name⟩ <;> rfl

mutual

/-- Looking up an export gives the relocated answer. -/
theorem resolveExport (embeds : r.Embeds p q) (budget : Nat) (m : ModuleId) (name : String)
    (typeOnly : Bool) :
    p.resolveExport budget (r.module m) name typeOnly
      = r.outcome (q.resolveExport budget m name typeOnly) := by
  cases budget with
  | zero =>
    rw [Program.resolveExport, Program.resolveExport]
    rfl
  | succ left =>
    rw [Program.resolveExport.eq_def, Program.resolveExport.eq_def]
    dsimp only
    cases here : q.module? m with
    | none =>
      rw [embeds.absent here]
      rfl
    | some module =>
      obtain ⟨module', there, agrees⟩ := embeds.present here
      rw [there]
      dsimp only
      rw [agrees.exported?]
      cases module.exported? name with
      | some entry =>
        cases entry with
        | own own =>
          show Outcome.widen _ (.done left (p.lookup (r.module m) own) typeOnly) = _
          rw [embeds.lookup]
          rfl
        | reexport source inner marked =>
          cases source with
          | some next =>
            show Outcome.widen _ (p.resolveExport left (r.module next) inner _) = _
            rw [resolveExport embeds left next inner _]
            rfl
          | none => rfl
      | none =>
        -- Only a name that is not exported by itself is looked for behind stars.
        show (if name == "default" then _ else _) = r.outcome (if name == "default" then _ else _)
        split
        · rfl
        · rw [agrees.starTargets, resolveAny embeds left module.starTargets name typeOnly]
          rfl
termination_by (budget, 0)

/-- Looking up an export in several modules gives the relocated answer. -/
theorem resolveAny (embeds : r.Embeds p q) (budget : Nat) (modules : List ModuleId)
    (name : String) (typeOnly : Bool) :
    p.resolveAny budget (modules.map r.module) name typeOnly
      = r.outcome (q.resolveAny budget modules name typeOnly) := by
  cases modules with
  | nil =>
    rw [List.map_nil, Program.resolveAny, Program.resolveAny]
    rfl
  | cons m rest =>
    -- The other modules get what is left of the budget, which is as much in both programs.
    have le := (q.resolveExport budget m name typeOnly).left_le
    rw [List.map_cons, Program.resolveAny, Program.resolveAny,
      resolveExport embeds budget m name typeOnly]
    show (if ((q.resolveExport budget m name typeOnly).symbol.map r.symbol).isSome then _ else
      Outcome.widen _ (p.resolveAny (q.resolveExport budget m name typeOnly).left _ name typeOnly))
        = _
    rw [resolveAny embeds (q.resolveExport budget m name typeOnly).left rest name typeOnly,
      Option.isSome_map]
    split <;> rfl
termination_by (budget, modules.length + 1)
decreasing_by
  · exact Prod.Lex.right _ (Nat.succ_pos _)
  · exact Prod.Lex.right' _ le (Nat.lt_succ_self _)

end

/-- Following an import leads to the relocated symbol. -/
theorem follow (embeds : r.Embeds p q) (budget : Nat) (s : Symbol) :
    p.follow budget (r.symbol s) = (q.follow budget s).map r.symbol := by
  -- Each import on the way costs some of the budget.
  induction budget using Nat.strongRecOn generalizing s with
  | ind budget ih =>
    rw [Program.follow.eq_def, Program.follow.eq_def, embeds.declaration?]
    cases q.declaration? s with
    | none => rfl
    | some d =>
      cases d with
      | typeAlias | interfaceDecl | classDecl | enumDecl => rfl
      | imported id source what typeOnly =>
        cases what with
        | everything => rfl
        | named name =>
          cases source with
          | none => rfl
          | some m =>
            have next := embeds.resolveExport budget m name false
            simp only [Option.map_some, declaration, next]
            cases answer : (q.resolveExport budget m name false).symbol with
            | none => simp [outcome, answer]
            | some t =>
              by_cases less : (q.resolveExport budget m name false).left < budget
              · simp [outcome, answer, less, ih _ less t]
              · simp [outcome, answer, less]

theorem aliased? (embeds : r.Embeds p q) (s : Symbol) :
    p.aliased? (r.symbol s) = (q.aliased? s).map r.symbol := by
  unfold Program.aliased?
  rw [embeds.follow]
  cases q.follow maxHops s with
  | none => rfl
  | some t =>
    have same : (r.symbol t == r.symbol s) = (t == s) := r.symbol_injective.beq_eq
    rw [Option.map_some, Option.filter_some, Option.filter_some, bne, bne, same]
    split <;> rfl

/-- The marks on the way of an import are the same. -/
theorem marked (embeds : r.Embeds p q) (budget : Nat) (s : Symbol) :
    p.marked budget (r.symbol s) = q.marked budget s := by
  induction budget using Nat.strongRecOn generalizing s with
  | ind budget ih =>
    rw [Program.marked.eq_def, Program.marked.eq_def, embeds.declaration?]
    cases q.declaration? s with
    | none => rfl
    | some d =>
      cases d with
      | typeAlias | interfaceDecl | classDecl | enumDecl => rfl
      | imported id source what typeOnly =>
        cases source with
        | none => rfl
        | some m =>
          cases what with
          | everything => rfl
          | named name =>
            have next := embeds.resolveExport budget m name typeOnly
            simp only [Option.map_some, declaration, next]
            cases answer : (q.resolveExport budget m name typeOnly).symbol with
            | none => simp [outcome, answer]
            | some t =>
              -- The loop goes on only while fewer lookups are left, which is what the induction is
              -- on.
              by_cases less : (q.resolveExport budget m name typeOnly).left < budget
              · simp [outcome, answer, less, ih _ less t]
              · simp [outcome, answer, less]

/-- A type name stands for the relocated symbol. -/
theorem symbolAt (embeds : r.Embeds p q) (m : ModuleId) (name : EntityName) :
    p.symbolAt (r.module m) name = (q.symbolAt m name).map r.symbol := by
  have first : p.declaration? ⟨r.module m, name.first⟩
      = (q.declaration? ⟨m, name.first⟩).map r.declaration := embeds.declaration? ⟨m, name.first⟩
  unfold Program.symbolAt
  split
  · exact embeds.lookup m name.first
  · rename_i member _
    rw [first]
    cases q.declaration? ⟨m, name.first⟩ with
    | none => rfl
    | some d =>
      cases d with
      | typeAlias | interfaceDecl | classDecl | enumDecl => rfl
      | imported id source what typeOnly =>
        cases source with
        | none => rfl
        | some next =>
          cases what with
          | named => rfl
          | everything =>
            show (p.resolveExport maxHops (r.module next) member false).symbol = _
            rw [embeds.resolveExport]
            rfl
  · rfl

/-- A type name refers to the relocated symbol, for types only if it did so before. -/
theorem referent (embeds : r.Embeds p q) (m : ModuleId) (name : EntityName) :
    p.referent (r.module m) name
      = ((q.referent m name).1.map r.symbol, (q.referent m name).2) := by
  unfold Program.referent
  rw [embeds.symbolAt]
  cases q.symbolAt m name with
  | none => rfl
  | some s =>
    simp only [Option.map_some, embeds.declaration?, embeds.aliased?, isTypeOnly, embeds.marked]
    cases q.declaration? s with
    | none => rfl
    | some d =>
      cases d with
      | typeAlias | interfaceDecl | classDecl | enumDecl => rfl
      | imported id source what typeOnly =>
        simp only [Option.map_some, declaration]
        cases q.aliased? s <;> rfl

end Relocation.Embeds

end TypedProps
