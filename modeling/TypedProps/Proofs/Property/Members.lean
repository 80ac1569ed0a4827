import Mathlib.Logic.Relation
import TypedProps.Component.Discovery
import TypedProps.Proofs.Property.References

/-!
# `TypedProps.Proofs.Property.Members`: where the properties of a component come from

The properties of an object type are declared by members. Members stand in type literals and in
interfaces, and these are reached from the type through parentheses, the parts of intersections, the
references to aliases and interfaces, and the bases of interfaces (`Program.Expands`).

`exists_member_of_mem_propertiesOf` says that no property comes from anywhere else. The expansion
keeps a list of the symbols that it has entered. The list cuts ways off and adds none, so the
statement holds for every list.
-/

set_option autoImplicit false

namespace TypedProps

/-- A function is applied to the value and leaves the notes alone. -/
@[simp] theorem Noted.map_value {α β : Type} (f : α → β) (a : Noted α) :
    (f <$> a).value = f a.value := rfl

/-- Dropping the later properties of each name adds none. -/
theorem Property.mem_of_mem_firsts {q : Property} {list : List Property} (mem : q ∈ firsts list) :
    q ∈ list := by
  induction list with
  | nil => exact mem
  | cons first rest ih =>
    rcases List.mem_cons.mp mem with rfl | mem
    · exact List.mem_cons_self
    · exact List.mem_cons_of_mem _ (ih (List.mem_filter.mp mem).1)

/-- Where no two properties have one name, none is dropped. -/
theorem Property.firsts_eq_self {list : List Property} (distinct : (list.map (·.name)).Nodup) :
    firsts list = list := by
  induction list with
  | nil => rfl
  | cons q rest ih =>
    obtain ⟨new, distinct⟩ := List.nodup_cons.mp distinct
    rw [firsts, ih distinct, List.filter_eq_self.mpr]
    intro r mem
    have other : r.name ≠ q.name := fun same => new (List.mem_map.mpr ⟨r, mem, same⟩)
    exact bne_iff_ne.mpr other

/-- Putting a value under a key adds no other pair. -/
theorem Keyed.mem_put {κ ν : Type} [BEq κ] [LawfulBEq κ] {key k : κ} {value v : ν}
    {pairs : List (κ × ν)} (mem : (k, v) ∈ put key value pairs) :
    (k, v) = (key, value) ∨ (k, v) ∈ pairs := by
  induction pairs with
  | nil => exact Or.inl (List.mem_singleton.mp mem)
  | cons pair rest ih =>
    obtain ⟨k', v'⟩ := pair
    rw [put] at mem
    split at mem
    · -- The key is there already, and the new value takes its place.
      rename_i same
      obtain rfl := eq_of_beq same
      rcases List.mem_cons.mp mem with eq | mem
      · exact Or.inl eq
      · exact Or.inr (List.mem_cons_of_mem _ mem)
    · rcases List.mem_cons.mp mem with eq | mem
      · exact Or.inr (List.mem_cons.mpr (Or.inl eq))
      · exact (ih mem).imp_right (List.mem_cons_of_mem _)

/-- The components of a map are among those from which it is made. -/
theorem ComponentMap.mem_of_mem_ofList {name : String} {c : Component}
    {list : List (String × Component)} (mem : (name, c) ∈ ofList list) : (name, c) ∈ list := by
  have from_fold (list : List (String × Component)) (map : ComponentMap)
      (mem : (name, c) ∈ list.foldl (fun map pair => map.insert pair.1 pair.2) map) :
      (name, c) ∈ map ∨ (name, c) ∈ list := by
    induction list generalizing map with
    | nil => exact Or.inl mem
    | cons pair rest ih =>
      rcases ih _ mem with mem | mem
      · rcases Keyed.mem_put mem with eq | mem
        · exact Or.inr (List.mem_cons.mpr (Or.inl eq))
        · exact Or.inl mem
      · exact Or.inr (List.mem_cons_of_mem _ mem)
  exact (from_fold list [] mem).resolve_left List.not_mem_nil

namespace Program

variable {p : Program}

/-- What may have members: a type at a place, or what a symbol is declared as. -/
inductive Shape where
  | type (place : Place) (type : Ty)
  | declared (s : Symbol)

/-- One step from a shape to one whose members are also its own. -/
inductive Expands (p : Program) : Shape → Shape → Prop
  | paren {place : Place} {loc : Excerpt} {inner : Ty} :
      Expands p (.type place (.paren loc inner)) (.type place inner)
  | part {place : Place} {loc : Excerpt} {parts : List Ty} {part : Ty} (mem : part ∈ parts)
      (may : mayHaveMembers part = true) :
      Expands p (.type place (.intersection loc parts)) (.type place part)
  | reference {place : Place} {loc : Excerpt} {name : EntityName} {arguments : List Ty}
      {s t : Symbol} (bound : p.symbolAt place.scope name = some s)
      (target : p.behindImports? s = some t) :
      Expands p (.type place (.reference loc name arguments)) (.declared t)
  | alias {t : Symbol} {id : Identifier} {generics : List String} {body : Ty}
      (declared : p.declaration? t = some (.typeAlias id generics body)) :
      Expands p (.declared t) (.type (.inside t.module) body)
  | base {s t u : Symbol} {id : Identifier} {generics : List String} {bases : List Base}
      {members : List Member} {base : Base} {name : String}
      (declared : p.declaration? t = some (.interfaceDecl id generics bases members))
      (mem : base ∈ bases) (named : base.name = some name)
      (bound : p.lookup t.module name = some s) (target : p.behindImports? s = some u) :
      Expands p (.declared t) (.declared u)

/-- A shape has a member by itself, at a place. -/
inductive Has (p : Program) : Shape → Place → Member → Prop
  | object {place : Place} {loc : Excerpt} {members : List Member} {member : Member}
      (mem : member ∈ members) : Has p (.type place (.object loc members)) place member
  | interfaceDecl {t : Symbol} {id : Identifier} {generics : List String} {bases : List Base}
      {members : List Member} {member : Member}
      (declared : p.declaration? t = some (.interfaceDecl id generics bases members))
      (mem : member ∈ members) : Has p (.declared t) (.inside t.module) member

/-- A shape has a member, by itself or by way of others. -/
def Declares (p : Program) (shape : Shape) (place : Place) (member : Member) : Prop :=
  ∃ holder, Relation.ReflTransGen p.Expands shape holder ∧ p.Has holder place member

/-- What a shape expands to gives it its members. -/
theorem Declares.head {a b : Shape} {place : Place} {member : Member} (step : p.Expands a b)
    (declares : p.Declares b place member) : p.Declares a place member := by
  obtain ⟨holder, ways, has⟩ := declares
  exact ⟨holder, .head step ways, has⟩

/-! ### What the expansion does -/

/-- The properties that members declare are those of each, in order. -/
theorem value_propertiesOfMembers (origin : ModuleId) (place : Place) (members : List Member) :
    (p.propertiesOfMembers origin place members).value
      = members.filterMap fun member => (p.propertyOf origin place member).value := by
  induction members with
  | nil => rfl
  | cons member rest ih =>
    rw [propertiesOfMembers, List.filterMap_cons]
    simp only [Noted.bind_value, Noted.pure_value, ih]
    cases (p.propertyOf origin place member).value <;> rfl

/-- The members of parts are those of each that may have any. -/
theorem value_expandParts (origin : ModuleId) (entered : List Symbol) (place : Place)
    (parts : List Ty) :
    (p.expandParts origin entered place parts).value
      = parts.flatMap fun part =>
          if mayHaveMembers part then (p.expand origin entered place part).value else [] := by
  induction parts with
  | nil =>
    rw [expandParts]
    rfl
  | cons part rest ih =>
    rw [expandParts, List.flatMap_cons, ← ih]
    split <;> rfl

/-- The members of bases are those of each that is bound. -/
theorem value_expandBases (origin : ModuleId) (entered : List Symbol) (m : ModuleId)
    (bases : List Base) :
    (p.expandBases origin entered m bases).value
      = bases.flatMap fun base =>
          match base.name.bind (p.lookup m) with
          | some s => (p.expandSymbol origin entered s m base.loc).value
          | none => [] := by
  induction bases with
  | nil =>
    rw [expandBases]
    rfl
  | cons base rest ih =>
    rw [expandBases, List.flatMap_cons, ← ih]
    cases base.name with
    | none => rfl
    | some name =>
      dsimp only [Option.bind_some]
      cases p.lookup m name <;> rfl

/-- The members of a symbol are those of the alias or interface behind it, if that is not being
expanded already. -/
theorem value_expandSymbol (origin : ModuleId) (entered : List Symbol) (s : Symbol)
    (script : ModuleId) (span : Span) :
    (p.expandSymbol origin entered s script span).value
      = match p.behindImports? s with
        | none => []
        | some t =>
          if t ∈ entered then []
          else
            match p.declaration? t with
            | some (.typeAlias _ _ body) =>
              (p.expand origin (t :: entered) (.inside t.module) body).value
            | some (.interfaceDecl _ _ bases members) =>
              (p.propertiesOfMembers origin (.inside t.module) members).value
                ++ (p.expandBases origin (t :: entered) t.module bases).value
            | _ => [] := by
  rw [expandSymbol_eq]
  cases p.behindImports? s with
  | none => rfl
  | some t =>
    dsimp only
    unfold expandDeclared
    -- Where nothing is followed there are no members, whether or not the symbol has been entered.
    cases p.declaration? t with
    | none =>
      dsimp only
      split <;> rfl
    | some d =>
      cases d with
      | typeAlias | interfaceDecl | classDecl | enumDecl | imported =>
        dsimp only
        split <;> rfl

/-! ### Members -/

/-- Behind some expansions, a property of what a symbol is declared as comes from a member. -/
theorem declares_of_mem_declared {origin : ModuleId} {t : Symbol} {q : Property}
    {members : List Member} {id : Identifier} {generics : List String} {bases : List Base}
    (declared : p.declaration? t = some (.interfaceDecl id generics bases members))
    (mem : q ∈ (p.propertiesOfMembers origin (.inside t.module) members).value) :
    ∃ place member, p.Declares (.declared t) place member ∧
      (p.propertyOf origin place member).value = some q := by
  rw [value_propertiesOfMembers] at mem
  obtain ⟨member, inside, eq⟩ := List.mem_filterMap.mp mem
  exact ⟨_, member, ⟨_, .refl, .interfaceDecl declared inside⟩, eq⟩

mutual

/-- A property of a type comes from a member that the type has. -/
theorem exists_member_of_mem_expand {origin : ModuleId} {entered : List Symbol} {place : Place}
    {type : Ty} {q : Property} (mem : q ∈ (p.expand origin entered place type).value) :
    ∃ place' member, p.Declares (.type place type) place' member ∧
      (p.propertyOf origin place' member).value = some q := by
  -- A case for each kind of type that is expanded; the way to the member begins with the step taken
  -- there.
  rw [expand.eq_def] at mem
  split at mem
  · rename_i loc members
    rw [value_propertiesOfMembers] at mem
    obtain ⟨member, inside, eq⟩ := List.mem_filterMap.mp mem
    exact ⟨place, member, ⟨_, .refl, .object inside⟩, eq⟩
  · rename_i loc inner
    obtain ⟨place', member, declares, eq⟩ := exists_member_of_mem_expand mem
    exact ⟨place', member, declares.head .paren, eq⟩
  · rename_i loc parts
    rw [value_expandParts] at mem
    obtain ⟨part, inside, mem⟩ := List.mem_flatMap.mp mem
    split at mem
    · rename_i may
      have := List.sizeOf_lt_of_mem inside
      obtain ⟨place', member, declares, eq⟩ := exists_member_of_mem_expand mem
      exact ⟨place', member, declares.head (.part inside may), eq⟩
    · cases mem
  · rename_i loc name arguments
    split at mem
    · rename_i s bound
      obtain ⟨t, target, place', member, declares, eq⟩ := exists_member_of_mem_expandSymbol mem
      exact ⟨place', member, declares.head (.reference bound target), eq⟩
    · cases mem
  · cases mem
termination_by (p.unentered entered, sizeOf type)

/-- A property of a symbol comes from a member of what stands behind it. -/
theorem exists_member_of_mem_expandSymbol {origin : ModuleId} {entered : List Symbol} {s : Symbol}
    {script : ModuleId} {span : Span} {q : Property}
    (mem : q ∈ (p.expandSymbol origin entered s script span).value) :
    ∃ t, p.behindImports? s = some t ∧ ∃ place member, p.Declares (.declared t) place member ∧
      (p.propertyOf origin place member).value = some q := by
  rw [value_expandSymbol] at mem
  split at mem
  · cases mem
  · rename_i t target
    refine ⟨t, target, ?_⟩
    split at mem
    · -- The symbol has been entered already, and this way is cut off.
      cases mem
    · rename_i fresh
      split at mem
      · rename_i id generics body declared
        have := unentered_cons_lt (mem_symbols_of_declaration? declared) fresh
        obtain ⟨place, member, declares, eq⟩ := exists_member_of_mem_expand mem
        exact ⟨place, member, declares.head (.alias declared), eq⟩
      · rename_i id generics bases members declared
        have := unentered_cons_lt (mem_symbols_of_declaration? declared) fresh
        rcases List.mem_append.mp mem with mem | mem
        · exact declares_of_mem_declared declared mem
        · rw [value_expandBases] at mem
          obtain ⟨base, inside, mem⟩ := List.mem_flatMap.mp mem
          split at mem
          · rename_i u named
            obtain ⟨name, named, bound⟩ := Option.bind_eq_some_iff.mp named
            obtain ⟨v, target', place, member, declares, eq⟩ :=
              exists_member_of_mem_expandSymbol mem
            exact ⟨place, member, declares.head (.base declared inside named bound target'), eq⟩
          · cases mem
      · cases mem
termination_by (p.unentered entered, 0)

end

/-- A property of a type, duplicates left out, comes from a member that the type has. -/
theorem exists_member_of_mem_propertiesOf {origin : ModuleId} {place : Place} {type : Ty}
    {q : Property} (mem : q ∈ (p.propertiesOf origin place type).value) :
    ∃ place' member, p.Declares (.type place type) place' member ∧
      (p.propertyOf origin place' member).value = some q :=
  exists_member_of_mem_expand (Property.mem_of_mem_firsts mem)

/-- A property whose type has another tag than that of functions is declared with a type, which is
resolved where the member stands. -/
theorem exists_type_of_propertyOf {origin : ModuleId} {place : Place} {member : Member}
    {q : Property} {type : ResolvedType} {t : Tag}
    (declared : (p.propertyOf origin place member).value = some q)
    (typed : q.type = some type) (mem : t ∈ type.tags) (notFunction : t ≠ .function) :
    ∃ loc docs name optional written, member = .property loc docs name optional (some written) ∧
      (p.resolveType origin place written).value = some type := by
  cases member with
  | property loc docs name optional written =>
    rw [value_propertyOf_property] at declared
    obtain ⟨key, -, rfl⟩ := Option.map_eq_some_iff.mp declared
    obtain ⟨written, rfl, resolved⟩ := Option.bind_eq_some_iff.mp typed
    exact ⟨loc, docs, name, optional, written, rfl, resolved⟩
  | method loc docs name optional generics parameters result =>
    rw [value_propertyOf_method] at declared
    obtain ⟨key, -, rfl⟩ := Option.map_eq_some_iff.mp declared
    obtain rfl := Option.some.inj typed
    exact absurd (List.mem_singleton.mp mem) notFunction
  | other loc docs => cases declared

/-! ### Components -/

/-- One of the types that describe the component under a name, as some items declare it. -/
def DescribedBy (options : Options) (script : ModuleId) (items : List Item) (name : String)
    (type : Ty) : Prop :=
  ∃ v ∈ items.flatMap Item.variables, v.pattern.name = some name ∧
    ∃ init r, v.init = some init ∧
      (Recognized.ofVariable options script v.pattern.type init).value = some r ∧
      (r.sources.props = some type ∨ r.sources.events = some type ∨ r.sources.slots = some type)

/-- The components among some variables are those that each is, in order. -/
theorem value_componentsAmong (options : Options) (origin script : ModuleId)
    (list : List Variable) :
    (p.componentsAmong options origin script list).value
      = list.filterMap fun v => (p.componentOfVariable options origin script v).value := by
  induction list with
  | nil => rfl
  | cons v rest ih =>
    rw [componentsAmong, List.filterMap_cons]
    simp only [Noted.bind_value, Noted.pure_value, ih]
    cases (p.componentOfVariable options origin script v).value <;> rfl

/-- A property in one of the lists of a component is one of the type for the list. -/
theorem mem_propertiesOf_of_mem_propertiesWithout {origin script : ModuleId}
    {excluded : List String} {type : Option Ty} {q : Property}
    (mem : q ∈ (p.propertiesWithout origin script excluded type).value) :
    ∃ written, type = some written ∧
      q ∈ (p.propertiesOf origin ⟨origin, script⟩ written).value := by
  cases type with
  | none => cases mem
  | some written => exact ⟨written, rfl, (List.mem_filter.mp mem).1⟩

/-- A property of a component is one of a type that describes it. -/
theorem exists_describedBy_of_mem_componentsOf {options : Options} {origin script : ModuleId}
    {items : List Item} {name : String} {c : Component} {q : Property}
    (component : (name, c) ∈ (p.componentsOf options origin script items).value)
    (property : q ∈ c.props ∨ q ∈ c.events ∨ q ∈ c.slots) :
    ∃ type, DescribedBy options script items name type ∧
      q ∈ (p.propertiesOf origin ⟨origin, script⟩ type).value := by
  have mem := ComponentMap.mem_of_mem_ofList component
  rw [value_componentsAmong] at mem
  obtain ⟨v, inside, is⟩ := List.mem_filterMap.mp mem
  unfold componentOfVariable at is
  split at is
  · rename_i name' init named initialized
    simp only [Noted.bind_value] at is
    cases recognized : (Recognized.ofVariable options script v.pattern.type init).value with
    | none =>
      rw [recognized] at is
      cases is
    | some r =>
      rw [recognized] at is
      obtain ⟨c', described, eq⟩ := Option.map_eq_some_iff.mp is
      obtain ⟨rfl, rfl⟩ := Prod.mk.inj eq
      -- Whatever role a type has for the variable, it describes the component.
      have by_type {type : Ty} (role : r.sources.props = some type ∨ r.sources.events = some type ∨
          r.sources.slots = some type) : DescribedBy options script items name' type :=
        ⟨v, inside, named, init, r, initialized, recognized, role⟩
      unfold componentOf at described
      split at described
      · cases described
      · rename_i props hasProps
        obtain rfl := Option.some.inj described
        rcases property with mem | mem | mem
        · obtain ⟨type, written, mem⟩ := mem_propertiesOf_of_mem_propertiesWithout mem
          exact ⟨type, by_type (Or.inl (hasProps.trans written)), mem⟩
        · obtain ⟨type, written, mem⟩ := mem_propertiesOf_of_mem_propertiesWithout mem
          exact ⟨type, by_type (Or.inr (Or.inl written)), mem⟩
        · obtain ⟨type, written, mem⟩ := mem_propertiesOf_of_mem_propertiesWithout mem
          exact ⟨type, by_type (Or.inr (Or.inr written)), mem⟩
  · cases is

end Program

end TypedProps
