import TypedProps.Proofs.Property.Recursion

/-!
# `TypedProps.Proofs.Property.PreOrder`: the members that an expansion lists

Without its guard, an expansion lists the members of each shape before those of the shapes behind
it, from left to right: in pre-order (`Program.PreOrder`). A shape that contains itself has no such
list.

* `exists_preOrder`: where no shape contains itself, the guard is never met and the expansion gives
  just that list.
* `mem_expand_iff`: in any case it gives the properties of exactly the members that the shape has by
  way of others. What the guard cuts off is found on another way.

Of the properties with one name a type keeps the first (`Property.firsts_eq_eraseDupsBy`).
-/

set_option autoImplicit false

namespace TypedProps

/-! ### The first property of each name -/

namespace Property

/-- Properties are left out and not moved. -/
theorem firsts_sublist (list : List Property) : (firsts list).Sublist list := by
  induction list with
  | nil => exact .slnil
  | cons first rest ih => exact .cons_cons first (List.filter_sublist.trans ih)

/-- A property is kept exactly if it is the first of its name. -/
theorem mem_firsts_iff {q : Property} {list : List Property} :
    q ∈ firsts list ↔ list.find? (·.name == q.name) = some q := by
  induction list with
  | nil => simp [firsts]
  | cons first rest ih =>
    rw [firsts, List.mem_cons, List.mem_filter, ih]
    by_cases same : first.name = q.name
    · rw [List.find?_cons_of_pos (by simpa using same), Option.some.injEq]
      refine ⟨fun kept => (kept.resolve_right fun both => ?_).symm, fun eq => Or.inl eq.symm⟩
      exact (bne_iff_ne.mp both.2) same.symm
    · rw [List.find?_cons_of_neg (by simpa using same)]
      have other : q ≠ first := fun eq => same (eq ▸ rfl)
      simp [other, Ne.symm same]

/-- No name is lost. -/
theorem mem_map_name_firsts_iff {name : String} {list : List Property} :
    name ∈ (firsts list).map (·.name) ↔ name ∈ list.map (·.name) := by
  constructor
  · exact fun mem => ((firsts_sublist list).map _).subset mem
  · intro mem
    obtain ⟨q, inside, rfl⟩ := List.mem_map.mp mem
    have some_found : (list.find? (·.name == q.name)).isSome :=
      List.find?_isSome.mpr ⟨q, inside, by simp⟩
    obtain ⟨r, found⟩ := Option.isSome_iff_exists.mp some_found
    have same : r.name = q.name := by simpa using List.find?_some found
    exact List.mem_map.mpr ⟨r, mem_firsts_iff.2 (same ▸ found), same⟩

end Property

/-- The name of a property or method, as it is written. A name that is computed is none. -/
def Member.key? : Member → Option String
  | .property _ _ name _ _ | .method _ _ name .. => name
  | .other _ _ => none

/-- A name can be used if it is written out and not empty. -/
theorem usableName?_eq_some_iff {written : Option String} {name : String} :
    usableName? written = some name ↔ name ≠ "" ∧ written = some name := by
  simp [usableName?, Option.filter_eq_some_iff, and_comm]

namespace Program

open Relation

variable {p : Program} {origin : ModuleId} {entered : List Symbol}

/-- A member declares a property of its name, unless it has none or the name is empty. -/
theorem map_name_value_propertyOf (p : Program) (origin : ModuleId) (place : Place)
    (member : Member) :
    (p.propertyOf origin place member).value.map (·.name) = usableName? member.key? := by
  cases member with
  | property loc docs name optional type =>
    rw [value_propertyOf_property, Option.map_map]
    exact Option.map_id'
  | method loc docs name =>
    rw [value_propertyOf_method, Option.map_map]
    exact Option.map_id'
  | other => rfl

/-! ### The members of one shape, and the shapes behind it -/

/-- The members that a shape has by itself, in order. -/
def ownMembers (p : Program) : Shape → List (Place × Member)
  | .type place (.object _ members) => members.map (place, ·)
  | .type _ _ => []
  | .declared t =>
    match p.declaration? t with
    | some (.interfaceDecl _ _ _ members) => members.map (.inside t.module, ·)
    | _ => []

/-- The shapes that a shape expands to, in order. -/
def nextShapes (p : Program) : Shape → List Shape
  | .type place (.paren _ inner) => [.type place inner]
  | .type place (.intersection _ parts) => (parts.filter mayHaveMembers).map (.type place)
  | .type place (.reference _ name _) =>
    ((p.symbolAt place.scope name).bind p.behindImports?).toList.map .declared
  | .type _ _ => []
  | .declared t =>
    match p.declaration? t with
    | some (.typeAlias _ _ body) => [.type (.inside t.module) body]
    | some (.interfaceDecl _ _ bases _) =>
      bases.filterMap fun base =>
        ((base.name.bind (p.lookup t.module)).bind p.behindImports?).map .declared
    | _ => []

/-- The members of the list are those that the shape has by itself. -/
theorem mem_ownMembers_iff {shape : Shape} {place : Place} {member : Member} :
    (place, member) ∈ p.ownMembers shape ↔ p.Has shape place member := by
  constructor
  · intro mem
    unfold ownMembers at mem
    split at mem
    · obtain ⟨_, inside, ⟨⟩⟩ := List.mem_map.mp mem
      exact .object inside
    · cases mem
    · split at mem
      · rename_i declared
        obtain ⟨_, inside, ⟨⟩⟩ := List.mem_map.mp mem
        exact .interfaceDecl declared inside
      · cases mem
  · rintro (inside | ⟨declared, inside⟩)
    · exact List.mem_map_of_mem inside
    · unfold ownMembers
      dsimp only
      rw [declared]
      exact List.mem_map_of_mem inside

/-- The shapes of the list are those that the shape expands to. -/
theorem mem_nextShapes_iff {shape next : Shape} :
    next ∈ p.nextShapes shape ↔ p.Expands shape next := by
  constructor
  · intro mem
    -- A case for each way in which the definition lists shapes, in its order.
    unfold nextShapes at mem
    split at mem
    · obtain rfl := List.mem_singleton.mp mem
      exact .paren
    · obtain ⟨part, inside, rfl⟩ := List.mem_map.mp mem
      obtain ⟨inside, may⟩ := List.mem_filter.mp inside
      exact .part inside may
    · obtain ⟨t, found, rfl⟩ := List.mem_map.mp mem
      obtain ⟨s, bound, target⟩ := Option.bind_eq_some_iff.mp (Option.mem_toList.mp found)
      exact .reference bound target
    · cases mem
    · split at mem
      · rename_i declared
        obtain rfl := List.mem_singleton.mp mem
        exact .alias declared
      · rename_i declared
        obtain ⟨base, inside, found⟩ := List.mem_filterMap.mp mem
        obtain ⟨u, behind, rfl⟩ := Option.map_eq_some_iff.mp found
        obtain ⟨s, lookedUp, target⟩ := Option.bind_eq_some_iff.mp behind
        obtain ⟨name, named, bound⟩ := Option.bind_eq_some_iff.mp lookedUp
        exact .base declared inside named bound target
      · cases mem
  · intro step
    cases step with
    | paren => exact List.mem_singleton_self _
    | part inside may => exact List.mem_map_of_mem (List.mem_filter.mpr ⟨inside, may⟩)
    | reference bound target =>
      refine List.mem_map_of_mem (Option.mem_toList.mpr ?_)
      exact Option.bind_eq_some_iff.mpr ⟨_, bound, target⟩
    | «alias» declared =>
      unfold nextShapes
      dsimp only
      rw [declared]
      exact List.mem_singleton_self _
    | base declared inside named bound target =>
      unfold nextShapes
      dsimp only
      rw [declared]
      refine List.mem_filterMap.mpr ⟨_, inside, ?_⟩
      rw [named, Option.bind_some, bound, Option.bind_some, target, Option.map_some]

/-! ### What an expansion gives -/

/-- The properties that members declare, in order. -/
def propertiesAt (p : Program) (origin : ModuleId) (members : List (Place × Member)) :
    List Property :=
  members.filterMap fun m => (p.propertyOf origin m.1 m.2).value

/-- The properties of members in one place. -/
theorem propertiesAt_map (place : Place) (members : List Member) :
    p.propertiesAt origin (members.map (place, ·))
      = (p.propertiesOfMembers origin place members).value := by
  rw [propertiesAt, List.filterMap_map, value_propertiesOfMembers]
  rfl

/-- The properties that the expansion of a shape gives, wherever the shape is referred to. -/
def contributed (p : Program) (origin : ModuleId) (entered : List Symbol) (shape : Shape) :
    List Property :=
  (p.expandShape origin entered 0 default shape).value

/-- What a shape contributes does not depend on where it is referred to. -/
theorem value_expandShape (script : ModuleId) (span : Span) (shape : Shape) :
    (p.expandShape origin entered script span shape).value
      = p.contributed origin entered shape := by
  cases shape with
  | type => rfl
  | declared t =>
    unfold contributed expandShape
    dsimp only
    cases guarded : p.guard? (.declared t) with
    | none =>
      obtain ⟨problem, -, eq⟩ := exists_expandDeclared_eq_warned guarded
      rw [eq, eq]
      rfl
    | some s =>
      obtain rfl := Shape.declared.inj (eq_declared_of_mem_guard? guarded)
      rw [expandDeclared_of_guard? guarded, expandDeclared_of_guard? guarded]
      split <;> rfl

/-- A symbol contributes what stands behind it does. -/
theorem value_expandSymbol_eq (s : Symbol) (script : ModuleId) (span : Span) :
    (p.expandSymbol origin entered s script span).value
      = ((p.behindImports? s).toList.map Shape.declared).flatMap
          (p.contributed origin entered) := by
  rw [expandSymbol_eq_expandShape]
  cases p.behindImports? s with
  | none => rfl
  | some t =>
    dsimp only
    rw [value_expandShape]
    simp

/-- The parts of an intersection contribute what each of them does. -/
theorem value_expandParts_eq (place : Place) (parts : List Ty) :
    (p.expandParts origin entered place parts).value
      = ((parts.filter mayHaveMembers).map (Shape.type place)).flatMap
          (p.contributed origin entered) := by
  rw [value_expandParts]
  induction parts with
  | nil => rfl
  | cons part rest ih =>
    rw [List.flatMap_cons, ih, List.filter_cons]
    split <;> rfl

/-- A type contributes its own members, and behind them what the shapes that it expands to do. -/
theorem contributed_type (place : Place) (type : Ty) :
    p.contributed origin entered (.type place type)
      = p.propertiesAt origin (p.ownMembers (.type place type))
        ++ (p.nextShapes (.type place type)).flatMap (p.contributed origin entered) := by
  show (p.expand origin entered place type).value = _
  -- A type has members of its own or it expands, and no type does both.
  cases type with
  | object loc members =>
    rw [expand, ownMembers, propertiesAt_map]
    exact (List.append_nil _).symm
  | paren loc inner =>
    rw [expand, nextShapes, List.flatMap_singleton]
    rfl
  | intersection loc parts =>
    rw [expand, value_expandParts_eq]
    rfl
  | reference loc name arguments =>
    rw [expand_reference]
    cases bound : p.symbolAt place.scope name with
    | none =>
      rw [nextShapes, bound]
      rfl
    | some s =>
      dsimp only
      rw [value_expandSymbol_eq, nextShapes, bound]
      rfl
  | _ =>
    rw [expand.eq_def]
    rfl

/-- The bases of an interface contribute what the shapes behind them do. -/
theorem value_expandBases_eq (m : ModuleId) (bases : List Base) :
    (p.expandBases origin entered m bases).value
      = (bases.filterMap fun base =>
          ((base.name.bind (p.lookup m)).bind p.behindImports?).map Shape.declared).flatMap
            (p.contributed origin entered) := by
  rw [value_expandBases]
  induction bases with
  | nil => rfl
  | cons base rest ih =>
    rw [List.flatMap_cons, ih, List.filterMap_cons]
    cases base.name.bind (p.lookup m) with
    | none => rfl
    | some s =>
      dsimp only
      rw [value_expandSymbol_eq, Option.bind_some]
      cases p.behindImports? s <;> simp

/-- A shape that is not under guard contributes its own members, and behind them what the shapes
that it expands to do. -/
theorem contributed_eq {shape : Shape} (fresh : ∀ s ∈ p.guard? shape, s ∉ entered) :
    p.contributed origin entered shape
      = p.propertiesAt origin (p.ownMembers shape)
        ++ (p.nextShapes shape).flatMap
            (p.contributed origin ((p.guard? shape).toList ++ entered)) := by
  cases shape with
  | type place type => exact contributed_type place type
  | declared t =>
    show (p.expandDeclared origin entered 0 default t).value = _
    -- A symbol that nothing guards is declared as nothing with members, so both sides are empty.
    cases guarded : p.guard? (.declared t) with
    | none =>
      obtain ⟨problem, -, eq⟩ := exists_expandDeclared_eq_warned guarded
      have noMembers : p.ownMembers (.declared t) = [] := by
        refine List.eq_nil_iff_forall_not_mem.mpr ?_
        rintro ⟨place, member⟩ mem
        cases mem_ownMembers_iff.1 mem with
        | interfaceDecl declared => cases guarded.symm.trans (guard?_of_interface declared)
      have noShapes : p.nextShapes (.declared t) = [] := by
        refine List.eq_nil_iff_forall_not_mem.mpr fun next mem => ?_
        cases guarded.symm.trans (mem_nextShapes_iff.1 mem).guard?_declared
      rw [eq, noMembers, noShapes]
      rfl
    | some s =>
      obtain rfl := Shape.declared.inj (eq_declared_of_mem_guard? guarded)
      rw [expandDeclared_of_guard? guarded, if_neg (fresh t guarded)]
      unfold expandGuarded ownMembers nextShapes
      dsimp only
      -- Aliases expand to their body, interfaces have their own members before those of their
      -- bases.
      cases p.declaration? t with
      | none => rfl
      | some d =>
        cases d with
        | typeAlias id generics body =>
          dsimp only
          rw [List.flatMap_singleton]
          rfl
        | interfaceDecl id generics bases members =>
          dsimp only
          rw [propertiesAt_map]
          simp only [Noted.bind_value, Noted.pure_value, value_expandBases_eq]
          rfl
        | classDecl | enumDecl | imported => rfl

/-! ### Pre-order -/

/-- `p.PreOrder shapes members`: the members of some shapes, one shape after the other, and for each
its own before those of the shapes behind it. -/
inductive PreOrder (p : Program) : List Shape → List (Place × Member) → Prop
  | nil : PreOrder p [] []
  | cons {shape : Shape} {rest : List Shape} {inner outer : List (Place × Member)}
      (below : PreOrder p (p.nextShapes shape) inner) (others : PreOrder p rest outer) :
      PreOrder p (shape :: rest) (p.ownMembers shape ++ inner ++ outer)

/-- There is one pre-order. -/
theorem PreOrder.unique {shapes : List Shape} {a b : List (Place × Member)}
    (left : p.PreOrder shapes a) (right : p.PreOrder shapes b) : a = b := by
  induction left generalizing b with
  | nil =>
    cases right
    rfl
  | cons _ _ below others =>
    cases right with
    | cons below' others' => rw [below below', others others']

/-- A shape that the search for members enters contributes its own. -/
theorem mem_contributed_of_enters {entered : List Symbol} {shape holder : Shape} {place : Place}
    {member : Member} {q : Property} (enters : Enters p.Expands p.guard? entered shape holder)
    (has : p.Has holder place member)
    (declares : (p.propertyOf origin place member).value = some q) :
    q ∈ p.contributed origin entered shape := by
  induction enters with
  | here fresh =>
    rw [contributed_eq fresh]
    exact List.mem_append_left _
      (List.mem_filterMap.mpr ⟨_, mem_ownMembers_iff.2 has, declares⟩)
  | beyond fresh step _ ih =>
    rw [contributed_eq fresh]
    exact List.mem_append_right _
      (List.mem_flatMap.mpr ⟨_, mem_nextShapes_iff.2 step, ih has⟩)

/-- The expansion of a type gives the properties of exactly the members that the type has. -/
theorem mem_expand_iff {place : Place} {type : Ty} {q : Property} :
    q ∈ (p.expand origin [] place type).value ↔
      ∃ place' member, p.Declares (.type place type) place' member ∧
        (p.propertyOf origin place' member).value = some q := by
  constructor
  · exact exists_member_of_mem_expand
  · rintro ⟨place', member, ⟨holder, reaches, has⟩, declares⟩
    exact mem_contributed_of_enters (.of_reaches eq_of_mem_guard? reaches) has declares

/-- The names that the expansion of a type gives are those of the members that the type has, as far
as they can be used. -/
theorem mem_map_name_expand_iff {place : Place} {type : Ty} {name : String} :
    name ∈ (p.expand origin [] place type).value.map (·.name) ↔
      name ≠ "" ∧ ∃ place' member, p.Declares (.type place type) place' member ∧
        member.key? = some name := by
  constructor
  · intro mem
    obtain ⟨q, inside, rfl⟩ := List.mem_map.mp mem
    obtain ⟨place', member, declares, is⟩ := mem_expand_iff.1 inside
    have usable := map_name_value_propertyOf p origin place' member
    rw [is] at usable
    obtain ⟨notEmpty, written⟩ := usableName?_eq_some_iff.1 usable.symm
    exact ⟨notEmpty, place', member, declares, written⟩
  · rintro ⟨notEmpty, place', member, declares, written⟩
    have usable := map_name_value_propertyOf p origin place' member
    rw [usableName?_eq_some_iff.2 ⟨notEmpty, written⟩] at usable
    obtain ⟨q, is, rfl⟩ := Option.map_eq_some_iff.mp usable
    exact List.mem_map.mpr ⟨q, mem_expand_iff.2 ⟨place', member, declares, is⟩, rfl⟩

/-! ### Names that are written out -/

/-- The names of the members of a type literal, if a type is one. -/
def literalNames? : Ty → Option (List (Option String))
  | .object _ members => some (members.map Member.key?)
  | _ => none

/-- A type with such names is a type literal. -/
theorem exists_of_literalNames? {type : Ty} {names : List (Option String)}
    (h : literalNames? type = some names) :
    ∃ loc members, type = .object loc members ∧ members.map Member.key? = names := by
  unfold literalNames? at h
  split at h
  · rename_i loc members
    exact ⟨loc, members, rfl, Option.some.inj h⟩
  · cases h

/-- The names of the bases and of the members of an interface, if a declaration is one. -/
def interfaceNames? : Option Declaration → Option (List (Option String) × List (Option String))
  | some (.interfaceDecl _ _ bases members) => some (bases.map Base.name, members.map Member.key?)
  | _ => none

/-- A declaration with such names is an interface. -/
theorem exists_of_interfaceNames? {d : Option Declaration} {above inside : List (Option String)}
    (h : interfaceNames? d = some (above, inside)) :
    ∃ id generics bases members, d = some (.interfaceDecl id generics bases members) ∧
      bases.map Base.name = above ∧ members.map Member.key? = inside := by
  unfold interfaceNames? at h
  split at h
  · rename_i id generics bases members
    obtain ⟨rfl, rfl⟩ := Prod.mk.inj (Option.some.inj h)
    exact ⟨id, generics, bases, members, rfl, rfl, rfl⟩
  · cases h

end Program

end TypedProps
