import Mathlib.Algebra.GroupWithZero.Nat
import TypedProps.Proofs.Property.Recursion
import TypedProps.Proofs.Tags.Followed

/-!
# `TypedProps.Proofs.Property.Traversal`: what an expansion comes to, in order

The expansion of an object type comes to type expressions, to parts of intersections and to the
bases of interfaces. Each is a `Waypoint`. Either it is a dead end, for one reason
(`Program.DeadEnd`), or it opens: it has members and leads on to other waypoints (`Program.Opens`).
`Program.Traverses` lists what is met that way, depth first and in source order. A declaration that
is being expanded is not entered again, and coming back to it is a dead end like the others.

* `stops_or_opens`: no waypoint is passed over. The names that waypoints refer to are bound to
  declared symbols, so the last case of the expansion, a symbol without a declaration, never arises.
* `exists_traverses` and `Traverses.unique`: every traversal ends, with one list of arrivals.
* `Traverses.expand_eq`: the expansion lists the members of all waypoints that open, and notes one
  problem for each dead end, where the waypoint is written, next to what is noted about the types of
  members. `Traverses.filter_notes` tells the two apart.
* `Traverses.opened_of_reaches`: without dead ends, everything that can be reached is opened.
-/

set_option autoImplicit false

namespace TypedProps

/-- Where an expansion comes to. -/
inductive Waypoint where
  /-- A type expression. -/
  | type (place : Place) (type : Ty)
  /-- A part of an intersection. -/
  | part (place : Place) (part : Ty)
  /-- An `extends` entry of an interface in the module `m`. -/
  | base (m : ModuleId) (base : Base)

namespace Waypoint

/-- The module in whose script a waypoint is written. -/
def script : Waypoint → ModuleId
  | .type place _ | .part place _ => place.script
  | .base m _ => m

/-- Where a waypoint is written there. -/
def span : Waypoint → Span
  | .type _ written | .part _ written => written.span
  | .base _ entry => entry.loc

/-- How large a waypoint is. A part is larger than the type that it is. -/
noncomputable def size : Waypoint → Nat
  | .type _ written => sizeOf written
  | .part _ written => sizeOf written + 1
  | .base _ _ => 1

/-- Every waypoint has a size. -/
theorem size_pos (point : Waypoint) : 0 < point.size := by
  cases point with
  | type place written =>
    cases written <;> simp only [size, Ty.keyword.sizeOf_spec, Ty.literal.sizeOf_spec,
      Ty.array.sizeOf_spec, Ty.tuple.sizeOf_spec, Ty.function.sizeOf_spec, Ty.paren.sizeOf_spec,
      Ty.optional.sizeOf_spec, Ty.readonly.sizeOf_spec, Ty.object.sizeOf_spec,
      Ty.mapped.sizeOf_spec, Ty.union.sizeOf_spec, Ty.intersection.sizeOf_spec,
      Ty.reference.sizeOf_spec, Ty.other.sizeOf_spec] <;> omega
  | part | base => exact Nat.succ_pos _

/-- Some parts are together smaller than the list of the types that they are. -/
theorem sum_size_parts_lt (place : Place) (parts : List Ty) :
    ((parts.map (Waypoint.part place)).map size).sum < sizeOf parts := by
  induction parts with
  | nil => simp
  | cons part rest ih =>
    simp only [List.map_cons, List.sum_cons, List.cons.sizeOf_spec, size]
    omega

end Waypoint

/-- What happens at a waypoint. -/
inductive Arrival where
  /-- The waypoint is expanded, and has these members by itself. -/
  | opened (point : Waypoint) (own : List (Place × Member))
  /-- The waypoint is a dead end. -/
  | stopped (point : Waypoint) (problem : Problem)

/-- Whether a problem is that an alias reaches itself while its tags are wanted. -/
def Problem.isRecursiveAlias : Problem → Bool
  | .recursiveAlias _ => true
  | _ => false

/-- Whether a type is written in one of the forms that can have members. -/
def Ty.isObjectForm : Ty → Bool
  | .object .. | .paren .. | .intersection .. | .reference .. => true
  | _ => false

namespace Program

open Relation

variable {p : Program} {origin : ModuleId} {entered : List Symbol}

/-! ### Dead ends -/

/-- `p.Refers point name s`: a waypoint refers to a declaration by a name, which is bound to the
symbol `s` or to none. -/
inductive Refers (p : Program) : Waypoint → String → Option Symbol → Prop
  | reference {place : Place} {loc : Excerpt} {name : EntityName} {arguments : List Ty} :
      Refers p (.type place (.reference loc name arguments)) name.text
        (p.symbolAt place.scope name)
  | base {m : ModuleId} {base : Base} {name : String} (named : base.name = some name) :
      Refers p (.base m base) name (p.lookup m name)

/-- `p.DeadEnd entered point problem`: while the declarations `entered` are being expanded, a
waypoint leads no further, for the reason that the problem states. -/
inductive DeadEnd (p : Program) (entered : List Symbol) : Waypoint → Problem → Prop
  /-- The type is not written in a form that has members. -/
  | form {place : Place} {type : Ty} (form : type.isObjectForm = false) :
      DeadEnd p entered (.type place type) .notAnObject
  /-- The part of an intersection is not written in such a form. -/
  | part {place : Place} {part : Ty} (form : mayHaveMembers part = false) :
      DeadEnd p entered (.part place part) .intersectionPart
  /-- The base of an interface is not a plain name. -/
  | qualified {m : ModuleId} {base : Base} (unnamed : base.name = none) :
      DeadEnd p entered (.base m base) .qualifiedBase
  /-- The name is bound to no symbol. -/
  | unknown {point : Waypoint} {name : String} (refers : p.Refers point name none) :
      DeadEnd p entered point (.unknownType name)
  /-- The name is that of an import which leads nowhere. -/
  | lost {point : Waypoint} {name : String} {s : Symbol} (refers : p.Refers point name (some s))
      (nowhere : p.behindImports? s = none) : DeadEnd p entered point (.unresolvedImport s.name)
  /-- The name is that of an import which leads to the import of a whole module. -/
  | whole {point : Waypoint} {name : String} {s t : Symbol} {id : Identifier}
      {source : Option ModuleId} {what : ImportedName} {typeOnly : Bool}
      (refers : p.Refers point name (some s)) (behind : p.behindImports? s = some t)
      (declared : p.declaration? t = some (.imported id source what typeOnly)) :
      DeadEnd p entered point (.unresolvedImport t.name)
  /-- The name leads to a class. -/
  | classDecl {point : Waypoint} {name : String} {s t : Symbol} {id : Identifier}
      (refers : p.Refers point name (some s)) (behind : p.behindImports? s = some t)
      (declared : p.declaration? t = some (.classDecl id)) :
      DeadEnd p entered point (.memberless t.name)
  /-- The name leads to an enumeration. -/
  | enumDecl {point : Waypoint} {name : String} {s t : Symbol} {id : Identifier}
      {members : List EnumMember}
      (refers : p.Refers point name (some s)) (behind : p.behindImports? s = some t)
      (declared : p.declaration? t = some (.enumDecl id members)) :
      DeadEnd p entered point (.memberless t.name)
  /-- The name leads to an alias or an interface that is being expanded. -/
  | again {point : Waypoint} {name : String} {s t : Symbol}
      (refers : p.Refers point name (some s)) (behind : p.behindImports? s = some t)
      (guarded : p.guard? (.declared t) = some t) (mem : t ∈ entered) :
      DeadEnd p entered point (.recursiveMembers t.name)

/-- `p.Opens entered point own entered' next`: while the declarations `entered` are being expanded,
a waypoint is expanded to members of its own and then to the waypoints `next`, for which the
declarations `entered'` are being expanded. -/
inductive Opens (p : Program) (entered : List Symbol) :
    Waypoint → List (Place × Member) → List Symbol → List Waypoint → Prop
  | object {place : Place} {loc : Excerpt} {members : List Member} :
      Opens p entered (.type place (.object loc members)) (members.map (place, ·)) entered []
  | paren {place : Place} {loc : Excerpt} {inner : Ty} :
      Opens p entered (.type place (.paren loc inner)) [] entered [.type place inner]
  | intersection {place : Place} {loc : Excerpt} {parts : List Ty} :
      Opens p entered (.type place (.intersection loc parts)) [] entered (parts.map (.part place))
  | part {place : Place} {part : Ty} (form : mayHaveMembers part = true) :
      Opens p entered (.part place part) [] entered [.type place part]
  | alias {point : Waypoint} {name : String} {s t : Symbol} {id : Identifier}
      {generics : List String}
      {body : Ty} (refers : p.Refers point name (some s)) (behind : p.behindImports? s = some t)
      (declared : p.declaration? t = some (.typeAlias id generics body)) (fresh : t ∉ entered) :
      Opens p entered point [] (t :: entered) [.type (.inside t.module) body]
  | interfaceDecl {point : Waypoint} {name : String} {s t : Symbol} {id : Identifier}
      {generics : List String} {bases : List Base} {members : List Member}
      (refers : p.Refers point name (some s)) (behind : p.behindImports? s = some t)
      (declared : p.declaration? t = some (.interfaceDecl id generics bases members))
      (fresh : t ∉ entered) :
      Opens p entered point (members.map (.inside t.module, ·)) (t :: entered)
        (bases.map (.base t.module))

/-- `p.Traverses entered points arrivals`: the expansion of some waypoints, one after the other, has
these arrivals. What a waypoint leads on to comes before the waypoints that stand after it. -/
inductive Traverses (p : Program) : List Symbol → List Waypoint → List Arrival → Prop
  | nil {entered : List Symbol} : Traverses p entered [] []
  | stopped {entered : List Symbol} {point : Waypoint} {problem : Problem} {rest : List Waypoint}
      {arrivals : List Arrival} (deadEnd : p.DeadEnd entered point problem)
      (others : Traverses p entered rest arrivals) :
      Traverses p entered (point :: rest) (.stopped point problem :: arrivals)
  | opened {entered entered' : List Symbol} {point : Waypoint} {own : List (Place × Member)}
      {next rest : List Waypoint} {inside arrivals : List Arrival}
      (opens : p.Opens entered point own entered' next) (inner : Traverses p entered' next inside)
      (others : Traverses p entered rest arrivals) :
      Traverses p entered (point :: rest) (.opened point own :: (inside ++ arrivals))

/-! ### No waypoint is passed over -/

/-- A search ends at a symbol that is declared. -/
theorem Search.isSome_declaration? {ways : List Way} {name : String} {trail : Trail} {n : Nat}
    (search : p.Search ways name (some trail) n) : (p.declaration? trail.symbol).isSome := by
  generalize answered : some trail = answer at search
  induction search generalizing trail with
  | nil => cases answered
  | @declared w rest name s hop found =>
    cases answered
    -- The finding is a name that the module binds.
    unfold finding at found
    split at found
    · cases found
    · split at found
      · obtain ⟨bound, -⟩ := Finding.declared.inj found
        obtain ⟨d, declared, rfl⟩ := Option.map_eq_some_iff.mp bound
        rw [declared]
        rfl
      · cases found
      · split at found <;> cases found
  | undeclared _ _ ih => exact ih answered
  | through _ _ ih =>
    obtain rfl := Option.some.inj answered
    rw [Trail.symbol_after]
    exact ih rfl
  | abandoned _ _ _ _ ih => exact ih answered

/-- A walk from a declared symbol ends at one. -/
theorem Walk.isSome_declaration? {s : Symbol} {trail : Trail} {n : Nat}
    (walk : p.Walk s trail n) (declared : (p.declaration? s).isSome) :
    (p.declaration? trail.symbol).isSome := by
  induction walk with
  | here => exact declared
  | next _ search _ ih => exact ih search.isSome_declaration?

/-- The symbol to which a waypoint refers is declared. -/
theorem Refers.isSome_declaration? {point : Waypoint} {name : String} {s : Symbol}
    (refers : p.Refers point name (some s)) : (p.declaration? s).isSome := by
  generalize bound : some s = symbol at refers
  cases refers with
  | base =>
    obtain ⟨d, declared, rfl⟩ := Option.map_eq_some_iff.mp bound.symm
    rw [declared]
    rfl
  | @reference place loc name arguments =>
    rcases symbolAt_eq_some_iff.1 bound.symm with
      ⟨-, bound⟩ | ⟨member, id, source, typeOnly, -, -, answered⟩
    · obtain ⟨d, declared, rfl⟩ := Option.map_eq_some_iff.mp bound
      rw [declared]
      rfl
    · obtain ⟨trail, n, search, -, rfl⟩ := resolveExport_eq_some_iff
        (w := ⟨importHop place.scope typeOnly, source⟩).mp answered
      exact search.isSome_declaration?

/-- What stands behind a declared symbol is declared. -/
theorem isSome_declaration?_of_behindImports? {s t : Symbol}
    (declared : (p.declaration? s).isSome) (behind : p.behindImports? s = some t) :
    (p.declaration? t).isSome := by
  unfold behindImports? at behind
  split at behind
  · obtain ⟨-, trail, n, walk, rfl, -⟩ := aliased?_eq_some_iff.1 behind
    exact walk.isSome_declaration? declared
  · obtain rfl := Option.some.inj behind
    exact declared

/-- A waypoint that refers to a declaration is a dead end or opens. -/
theorem Refers.stops_or_opens {point : Waypoint} {name : String} {symbol : Option Symbol}
    (refers : p.Refers point name symbol) :
    (∃ problem, p.DeadEnd entered point problem) ∨
      ∃ own entered' next, p.Opens entered point own entered' next := by
  cases symbol with
  | none => exact .inl ⟨_, .unknown refers⟩
  | some s =>
    cases behind : p.behindImports? s with
    | none => exact .inl ⟨_, .lost refers behind⟩
    | some t =>
      obtain ⟨d, declared⟩ := Option.isSome_iff_exists.mp
        (isSome_declaration?_of_behindImports? refers.isSome_declaration? behind)
      cases d with
      | typeAlias id generics body =>
        by_cases mem : t ∈ entered
        · exact .inl ⟨_, .again refers behind (guard?_of_alias declared) mem⟩
        · exact .inr ⟨_, _, _, .alias refers behind declared mem⟩
      | interfaceDecl id generics bases members =>
        by_cases mem : t ∈ entered
        · exact .inl ⟨_, .again refers behind (guard?_of_interface declared) mem⟩
        · exact .inr ⟨_, _, _, .interfaceDecl refers behind declared mem⟩
      | classDecl id => exact .inl ⟨_, .classDecl refers behind declared⟩
      | enumDecl id members => exact .inl ⟨_, .enumDecl refers behind declared⟩
      | imported id source what typeOnly => exact .inl ⟨_, .whole refers behind declared⟩

/-- Every waypoint is a dead end or opens. -/
theorem stops_or_opens (p : Program) (entered : List Symbol) (point : Waypoint) :
    (∃ problem, p.DeadEnd entered point problem) ∨
      ∃ own entered' next, p.Opens entered point own entered' next := by
  cases point with
  | type place type =>
    cases type with
    | object loc members => exact .inr ⟨_, _, _, .object⟩
    | paren loc inner => exact .inr ⟨_, _, _, .paren⟩
    | intersection loc parts => exact .inr ⟨_, _, _, .intersection⟩
    | reference loc name arguments => exact Refers.reference.stops_or_opens
    | keyword | literal | array | tuple | function | optional | readonly | mapped | union | other =>
      exact .inl ⟨_, .form rfl⟩
  | part place part =>
    cases form : mayHaveMembers part with
    | true => exact .inr ⟨_, _, _, .part form⟩
    | false => exact .inl ⟨_, .part form⟩
  | base m base =>
    cases named : base.name with
    | none => exact .inl ⟨_, .qualified named⟩
    | some name => exact (Refers.base named).stops_or_opens

/-! ### One list of arrivals -/

/-- What happens at a waypoint that refers to a symbol, or to none, by some name. -/
def verdictOf (p : Program) (entered : List Symbol) (name : String) :
    Option Symbol → Except Problem (List (Place × Member) × List Symbol × List Waypoint)
  | none => .error (.unknownType name)
  | some s =>
    match p.behindImports? s with
    | none => .error (.unresolvedImport s.name)
    | some t =>
      match p.declaration? t with
      | none => .error (.undeclared t.name)
      | some (.classDecl _) | some (.enumDecl ..) => .error (.memberless t.name)
      | some (.imported ..) => .error (.unresolvedImport t.name)
      | some (.typeAlias _ _ body) =>
        if t ∈ entered then .error (.recursiveMembers t.name)
        else .ok ([], t :: entered, [.type (.inside t.module) body])
      | some (.interfaceDecl _ _ bases members) =>
        if t ∈ entered then .error (.recursiveMembers t.name)
        else .ok (members.map (.inside t.module, ·), t :: entered, bases.map (.base t.module))

/-- What happens at a waypoint: it is a dead end for some reason, or it has members, and leads on to
waypoints for which some declarations are being expanded. -/
def verdict (p : Program) (entered : List Symbol) :
    Waypoint → Except Problem (List (Place × Member) × List Symbol × List Waypoint)
  | .type place written =>
    match written with
    | .object _ members => .ok (members.map (place, ·), entered, [])
    | .paren _ inner => .ok ([], entered, [.type place inner])
    | .intersection _ parts => .ok ([], entered, parts.map (.part place))
    | .reference _ name _ => p.verdictOf entered name.text (p.symbolAt place.scope name)
    | _ => .error .notAnObject
  | .part place written =>
    if mayHaveMembers written then .ok ([], entered, [.type place written])
    else .error .intersectionPart
  | .base m entry =>
    match entry.name with
    | none => .error .qualifiedBase
    | some name => p.verdictOf entered name (p.lookup m name)

/-- At a waypoint that refers to a declaration, the symbol decides. -/
theorem Refers.verdict_eq {point : Waypoint} {name : String} {symbol : Option Symbol}
    (refers : p.Refers point name symbol) :
    p.verdict entered point = p.verdictOf entered name symbol := by
  cases refers with
  | reference => rfl
  | base named => rw [verdict, named]

/-- A dead end is one for its reason. -/
theorem DeadEnd.verdict_eq {point : Waypoint} {problem : Problem}
    (deadEnd : p.DeadEnd entered point problem) : p.verdict entered point = .error problem := by
  cases deadEnd with
  | @form place type form =>
    cases type with
    | object | paren | intersection | reference => cases form
    | keyword | literal | array | tuple | function | optional | readonly | mapped | union
    | other => rfl
  | part form => simp [verdict, form]
  | qualified unnamed => simp [verdict, unnamed]
  | unknown refers => rw [refers.verdict_eq]; rfl
  | lost refers nowhere => simp [refers.verdict_eq, verdictOf, nowhere]
  | whole refers behind declared | classDecl refers behind declared
  | enumDecl refers behind declared =>
    simp [refers.verdict_eq, verdictOf, behind, declared]
  | again refers behind guarded mem =>
    unfold guard? at guarded
    dsimp only at guarded
    split at guarded
    · rename_i declared
      simp [refers.verdict_eq, verdictOf, behind, declared, mem]
    · rename_i declared
      simp [refers.verdict_eq, verdictOf, behind, declared, mem]
    · cases guarded

/-- A waypoint that opens does so in its way. -/
theorem Opens.verdict_eq {point : Waypoint} {own : List (Place × Member)} {entered' : List Symbol}
    {next : List Waypoint} (opens : p.Opens entered point own entered' next) :
    p.verdict entered point = .ok (own, entered', next) := by
  cases opens with
  | object | paren | intersection => rfl
  | part form => simp [verdict, form]
  | «alias» refers behind declared fresh | interfaceDecl refers behind declared fresh =>
    simp [refers.verdict_eq, verdictOf, behind, declared, fresh]

/-- Where an expansion leads on to, fewer declarations can be entered or there is less to expand. -/
theorem Opens.decreases {point : Waypoint} {own : List (Place × Member)} {entered' : List Symbol}
    {next : List Waypoint} (opens : p.Opens entered point own entered' next) :
    p.unentered entered' < p.unentered entered ∨
      entered' = entered ∧ (next.map Waypoint.size).sum < point.size := by
  -- Only what is declared enters a symbol; the others lead on to smaller types.
  cases opens with
  | object =>
    refine .inr ⟨rfl, ?_⟩
    simp only [List.map_nil, List.sum_nil, Waypoint.size, Ty.object.sizeOf_spec]
    omega
  | paren =>
    refine .inr ⟨rfl, ?_⟩
    simp only [List.map_cons, List.map_nil, List.sum_cons, List.sum_nil, Waypoint.size,
      Ty.paren.sizeOf_spec]
    omega
  | @intersection place loc parts =>
    refine .inr ⟨rfl, ?_⟩
    have := Waypoint.sum_size_parts_lt place parts
    simp only [Waypoint.size, Ty.intersection.sizeOf_spec]
    omega
  | part =>
    refine .inr ⟨rfl, ?_⟩
    simp only [List.map_cons, List.map_nil, List.sum_cons, List.sum_nil, Waypoint.size]
    omega
  | «alias» _ _ declared fresh | interfaceDecl _ _ declared fresh =>
    exact .inl (unentered_cons_lt (mem_symbols_of_declaration? declared) fresh)

/-- Every traversal ends. -/
theorem exists_traverses (p : Program) (entered : List Symbol) (points : List Waypoint) :
    ∃ arrivals, p.Traverses entered points arrivals := by
  match points with
  | [] => exact ⟨[], .nil⟩
  | point :: rest =>
    obtain ⟨arrivals, others⟩ := exists_traverses p entered rest
    rcases p.stops_or_opens entered point with ⟨problem, deadEnd⟩ | ⟨own, entered', next, opens⟩
    · exact ⟨_, .stopped deadEnd others⟩
    · have decreases := opens.decreases
      obtain ⟨inside, inner⟩ := exists_traverses p entered' next
      exact ⟨_, .opened opens inner others⟩
termination_by (p.unentered entered, (points.map Waypoint.size).sum)
decreasing_by
  · refine .right _ ?_
    have := point.size_pos
    simp only [List.map_cons, List.sum_cons]
    omega
  · rcases decreases with fewer | ⟨rfl, less⟩
    · exact .left _ _ fewer
    · refine .right _ ?_
      simp only [List.map_cons, List.sum_cons]
      omega

/-- A traversal meets one list of arrivals. -/
theorem Traverses.unique {points : List Waypoint} {a b : List Arrival}
    (left : p.Traverses entered points a) (right : p.Traverses entered points b) : a = b := by
  -- The verdict on the first waypoint is the same in both traversals, and so is what they go on
  -- with.
  induction left generalizing b with
  | nil =>
    cases right
    rfl
  | stopped deadEnd _ ih =>
    cases right with
    | stopped deadEnd' others =>
      obtain rfl := Except.error.inj (deadEnd.verdict_eq.symm.trans deadEnd'.verdict_eq)
      rw [ih others]
    | opened opens _ _ => cases deadEnd.verdict_eq.symm.trans opens.verdict_eq
  | opened opens _ _ ihInner ihOthers =>
    cases right with
    | stopped deadEnd _ => cases deadEnd.verdict_eq.symm.trans opens.verdict_eq
    | opened opens' inner others =>
      have same := Except.ok.inj (opens.verdict_eq.symm.trans opens'.verdict_eq)
      simp only [Prod.mk.injEq] at same
      obtain ⟨rfl, rfl, rfl⟩ := same
      rw [ihInner inner, ihOthers others]

/-! ### What the expansion does at a waypoint -/

/-- What the expansion of a waypoint contributes. -/
def expandPoint (p : Program) (origin : ModuleId) (entered : List Symbol) :
    Waypoint → Noted (List Property)
  | .type place type => p.expand origin entered place type
  | .part place part => p.expandPart origin entered place part
  | .base m base => p.expandBase origin entered m base

/-- What the expansion of some waypoints contributes, one after the other. -/
def expandPoints (p : Program) (origin : ModuleId) (entered : List Symbol) :
    List Waypoint → Noted (List Property)
  | [] => pure []
  | point :: rest => do
    let first ← p.expandPoint origin entered point
    pure (first ++ (← expandPoints p origin entered rest))

/-- What the members of a waypoint contribute. -/
def propertiesOfOwn (p : Program) (origin : ModuleId) (own : List (Place × Member)) :
    Noted (List Property) :=
  ⟨own.filterMap fun m => (p.propertyOf origin m.1 m.2).value,
    own.flatMap fun m => (p.propertyOf origin m.1 m.2).notes⟩

/-- Members at one place contribute what each of them does. -/
theorem propertiesOfMembers_eq (place : Place) (members : List Member) :
    p.propertiesOfMembers origin place members
      = p.propertiesOfOwn origin (members.map (place, ·)) := by
  induction members with
  | nil => rfl
  | cons member rest ih =>
    rw [propertiesOfMembers, ih]
    unfold propertiesOfOwn
    cases found : (p.propertyOf origin place member).value <;>
      simp [Bind.bind, Pure.pure, found]

/-- The parts of an intersection are expanded one after the other. -/
theorem expandParts_eq (place : Place) (parts : List Ty) :
    p.expandParts origin entered place parts
      = p.expandPoints origin entered (parts.map (.part place)) := by
  induction parts with
  | nil =>
    rw [expandParts]
    rfl
  | cons part rest ih =>
    rw [expandParts_cons, ih]
    rfl

/-- The bases of an interface are expanded one after the other. -/
theorem expandBases_eq (m : ModuleId) (bases : List Base) :
    p.expandBases origin entered m bases
      = p.expandPoints origin entered (bases.map (.base m)) := by
  induction bases with
  | nil =>
    rw [expandBases]
    rfl
  | cons base rest ih =>
    rw [expandBases_cons, ih]
    rfl

/-- What a waypoint contributes according to what happens there. -/
def contribution (p : Program) (origin : ModuleId) (script : ModuleId) (span : Span) :
    Except Problem (List (Place × Member) × List Symbol × List Waypoint) → Noted (List Property)
  | .error problem => warned problem script span
  | .ok (own, entered, next) => do
    let first ← p.propertiesOfOwn origin own
    pure (first ++ (← p.expandPoints origin entered next))

/-- A waypoint without members of its own that leads on to another contributes what that does. -/
theorem contribution_single (script : ModuleId) (span : Span) (point : Waypoint) :
    p.contribution origin script span (.ok ([], entered, [point]))
      = p.expandPoint origin entered point := by
  simp [contribution, expandPoints, propertiesOfOwn, Bind.bind, Pure.pure]

/-- A symbol is expanded as its verdict says. -/
theorem expandSymbol_eq_contribution (name : String) (s : Symbol) (script : ModuleId)
    (span : Span) :
    p.expandSymbol origin entered s script span
      = p.contribution origin script span (p.verdictOf entered name (some s)) := by
  rw [expandSymbol_eq]
  unfold verdictOf
  dsimp only
  cases p.behindImports? s with
  | none => rfl
  | some t =>
    dsimp only
    unfold expandDeclared
    cases p.declaration? t with
    | none => rfl
    | some d =>
      cases d with
      | classDecl | enumDecl | imported => rfl
      | typeAlias id generics body =>
        dsimp only
        split
        · rfl
        · rw [contribution_single]
          rfl
      | interfaceDecl id generics bases members =>
        dsimp only
        split
        · rfl
        · rw [propertiesOfMembers_eq]
          simp only [contribution, expandBases_eq]

/-- A waypoint is expanded as its verdict says. -/
theorem expandPoint_eq (point : Waypoint) :
    p.expandPoint origin entered point
      = p.contribution origin point.script point.span (p.verdict entered point) := by
  -- The verdict on a waypoint follows the definition of its expansion, branch by branch.
  cases point with
  | type place written =>
    unfold expandPoint verdict
    dsimp only
    cases written with
    | object loc members =>
      rw [expand, propertiesOfMembers_eq]
      simp [contribution, expandPoints]
    | paren loc inner =>
      rw [expand, contribution_single]
      rfl
    | intersection loc parts =>
      rw [expand, expandParts_eq]
      simp [contribution, propertiesOfOwn, Bind.bind, Pure.pure]
    | reference loc name arguments =>
      rw [expand_reference]
      dsimp only
      cases p.symbolAt place.scope name with
      | none => rfl
      | some s => exact expandSymbol_eq_contribution name.text s place.script loc.span
    | keyword | literal | array | tuple | function | optional | readonly | mapped | union | other =>
      rw [expand.eq_def]
      rfl
  | part place written =>
    unfold expandPoint verdict expandPart
    dsimp only
    split
    · rw [contribution_single]
      rfl
    · rfl
  | base m entry =>
    unfold expandPoint verdict expandBase
    dsimp only
    cases entry.name with
    | none => rfl
    | some name =>
      dsimp only
      cases p.lookup m name with
      | none => rfl
      | some s => exact expandSymbol_eq_contribution name s m entry.loc

end Program

namespace Arrival

/-- What is noted at a waypoint: the problem, or the problems of its own members. -/
def notes (p : Program) (origin : ModuleId) : Arrival → List Diagnostic
  | .opened _ own => own.flatMap fun m => (p.propertyOf origin m.1 m.2).notes
  | .stopped point problem => [⟨problem, point.script, point.span⟩]

/-- The properties that the members of a waypoint declare. -/
def properties (p : Program) (origin : ModuleId) : Arrival → List Property
  | .opened _ own => own.filterMap fun m => (p.propertyOf origin m.1 m.2).value
  | .stopped _ _ => []

/-- What is noted about a dead end. -/
def diagnostic? : Arrival → Option Diagnostic
  | .opened _ _ => none
  | .stopped point problem => some ⟨problem, point.script, point.span⟩

end Arrival

namespace Program

open Relation

variable {p : Program} {origin : ModuleId} {entered : List Symbol}

/-- An expansion has the properties of the arrivals of its traversal, and notes what is noted there.
-/
theorem Traverses.expandPoints_eq {points : List Waypoint} {arrivals : List Arrival}
    (traverses : p.Traverses entered points arrivals) :
    p.expandPoints origin entered points
      = ⟨arrivals.flatMap (Arrival.properties p origin),
          arrivals.flatMap (Arrival.notes p origin)⟩ := by
  induction traverses with
  | nil => rfl
  | stopped deadEnd _ ih =>
    rw [expandPoints, expandPoint_eq, deadEnd.verdict_eq, ih]
    simp [Bind.bind, Pure.pure, contribution, warned, Noted.note, Arrival.properties, Arrival.notes]
  | opened opens _ _ ihInner ihOthers =>
    rw [expandPoints, expandPoint_eq, opens.verdict_eq, ihOthers, contribution, ihInner]
    simp [Bind.bind, Pure.pure, propertiesOfOwn, Arrival.properties, Arrival.notes]

/-- The expansion of a type has the properties of the arrivals of its traversal, and notes what is
noted there. -/
theorem Traverses.expand_eq {place : Place} {type : Ty} {arrivals : List Arrival}
    (traverses : p.Traverses entered [.type place type] arrivals) :
    p.expand origin entered place type
      = ⟨arrivals.flatMap (Arrival.properties p origin),
          arrivals.flatMap (Arrival.notes p origin)⟩ := by
  rw [← traverses.expandPoints_eq]
  simp [expandPoints, expandPoint]

/-! ### What is noted -/

/-- What is noted about a member is that an alias reaches itself while its tags are wanted. -/
theorem problem_of_mem_notes_opened {point : Waypoint} {own : List (Place × Member)}
    {d : Diagnostic}
    (mem : d ∈ (Arrival.opened point own).notes p origin) :
    ∃ name, d.problem = .recursiveAlias name := by
  obtain ⟨m, -, mem⟩ := List.mem_flatMap.mp mem
  obtain ⟨type, mem⟩ := exists_type_of_mem_notes_propertyOf mem
  exact problem_of_mem_notes_tagsOf mem

/-- No dead end is one for that reason. -/
theorem DeadEnd.ne_recursiveAlias {point : Waypoint} {problem : Problem}
    (deadEnd : p.DeadEnd entered point problem) (name : String) :
    problem ≠ .recursiveAlias name := by
  rintro rfl
  cases deadEnd

/-- Apart from what is noted about members, one problem is noted for each dead end. -/
theorem Traverses.filter_notes (origin : ModuleId) {points : List Waypoint}
    {arrivals : List Arrival}
    (traverses : p.Traverses entered points arrivals) :
    (arrivals.flatMap (Arrival.notes p origin)).filter (fun d => !d.problem.isRecursiveAlias)
      = arrivals.filterMap Arrival.diagnostic? := by
  induction traverses with
  | nil => rfl
  | @stopped entered point problem rest arrivals deadEnd others ih =>
    have other : problem.isRecursiveAlias = false := by
      cases problem with
      | recursiveAlias name => exact absurd rfl (deadEnd.ne_recursiveAlias name)
      | _ => rfl
    rw [List.flatMap_cons, List.filter_append, ih, List.filterMap_cons]
    simp [Arrival.notes, Arrival.diagnostic?, other]
  | @opened entered entered' point own next rest inside arrivals opens inner others ihInner
      ihOthers =>
    -- Members note nothing but aliases that refer to themselves.
    have none_kept : ((Arrival.opened point own).notes p origin).filter
        (fun d => !d.problem.isRecursiveAlias) = [] := by
      rw [List.filter_eq_nil_iff]
      intro d mem
      obtain ⟨name, is⟩ := problem_of_mem_notes_opened mem
      simp [is, Problem.isRecursiveAlias]
    rw [List.flatMap_cons, List.flatMap_append, List.filter_append, List.filter_append, none_kept,
      ihInner, ihOthers, List.filterMap_cons, List.filterMap_append]
    rfl

/-! ### Without dead ends -/

/-- One step from a waypoint to one to which it leads on, whatever is being expanded. -/
def GoesOn (p : Program) (a b : Waypoint) : Prop :=
  ∃ own entered next, p.Opens [] a own entered next ∧ b ∈ next

/-- A waypoint that opens would do so as well if nothing was being expanded. -/
theorem Opens.exists_nil {point : Waypoint} {own : List (Place × Member)} {entered' : List Symbol}
    {next : List Waypoint} (opens : p.Opens entered point own entered' next) :
    ∃ entered'', p.Opens [] point own entered'' next := by
  cases opens with
  | object => exact ⟨_, .object⟩
  | paren => exact ⟨_, .paren⟩
  | intersection => exact ⟨_, .intersection⟩
  | part form => exact ⟨_, .part form⟩
  | «alias» refers behind declared => exact ⟨_, .alias refers behind declared List.not_mem_nil⟩
  | interfaceDecl refers behind declared =>
    exact ⟨_, .interfaceDecl refers behind declared List.not_mem_nil⟩

/-- If a traversal meets no dead end, all that can be reached from its waypoints is opened. -/
theorem Traverses.opened_of_reaches {points : List Waypoint} {arrivals : List Arrival}
    {a b : Waypoint}
    (traverses : p.Traverses entered points arrivals)
    (clear : ∀ point problem, Arrival.stopped point problem ∉ arrivals) (mem : a ∈ points)
    (reaches : ReflTransGen p.GoesOn a b) : ∃ own, .opened b own ∈ arrivals := by
  -- By induction on the traversal. There is no dead end in the whole list, so there is none in its
  -- parts.
  induction traverses generalizing a with
  | nil => cases mem
  | stopped => exact absurd List.mem_cons_self (clear _ _)
  | @opened entered entered' point own next rest inside arrivals opens inner others ihInner
      ihOthers =>
    have clearInside (point : Waypoint) (problem : Problem) :
        Arrival.stopped point problem ∉ inside :=
      fun mem => clear point problem (List.mem_cons_of_mem _ (List.mem_append_left _ mem))
    have clearOthers (point : Waypoint) (problem : Problem) :
        Arrival.stopped point problem ∉ arrivals :=
      fun mem => clear point problem (List.mem_cons_of_mem _ (List.mem_append_right _ mem))
    rcases List.mem_cons.mp mem with rfl | mem
    · rcases ReflTransGen.cases_head reaches with rfl | ⟨c, ⟨own', _, next', opens', led⟩, further⟩
      · exact ⟨own, List.mem_cons_self⟩
      · -- What the waypoint leads on to does not depend on what is being expanded.
        obtain ⟨_, fresh⟩ := opens.exists_nil
        have same := Except.ok.inj (fresh.verdict_eq.symm.trans opens'.verdict_eq)
        simp only [Prod.mk.injEq] at same
        obtain ⟨-, -, rfl⟩ := same
        obtain ⟨own, opened⟩ := ihInner clearInside led further
        exact ⟨own, List.mem_cons_of_mem _ (List.mem_append_left _ opened)⟩
    · obtain ⟨own, opened⟩ := ihOthers clearOthers mem reaches
      exact ⟨own, List.mem_cons_of_mem _ (List.mem_append_right _ opened)⟩

end Program

end TypedProps
