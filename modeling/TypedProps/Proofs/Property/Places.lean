import TypedProps.Proofs.Property.Members

/-!
# `TypedProps.Proofs.Property.Places`: where diagnostics point to

A diagnostic has a module and a stretch of a script. It is placed if the stretch is taken by a part
of a type or of an expression in that very module (`Program.Placed`). Whatever ways a resolution or
an expansion goes, through imports, aliases and bases of interfaces, it carries along the module in
whose script it reads, so everything it notes is placed (`placedIn_componentsOf`).
-/

set_option autoImplicit false

namespace TypedProps

/-! ### The stretches of a script -/

mutual

/-- The stretches that a type and its parts take. -/
def Ty.spans : Ty → List Span
  | .keyword loc _ | .literal loc _ | .function loc | .mapped loc | .other loc => [loc.span]
  | .array loc inner | .paren loc inner | .optional loc inner | .readonly loc inner =>
    loc.span :: inner.spans
  | .tuple loc parts | .union loc parts | .intersection loc parts | .reference loc _ parts =>
    loc.span :: Ty.spansOfAll parts
  | .object loc members => loc.span :: Member.spansOfAll members

/-- Those of several types. -/
def Ty.spansOfAll : List Ty → List Span
  | [] => []
  | type :: rest => type.spans ++ Ty.spansOfAll rest

/-- Those of a type, if it is written. -/
def Ty.spansOf? : Option Ty → List Span
  | none => []
  | some type => type.spans

/-- The stretches that a member and its types take. -/
def Member.spans : Member → List Span
  | .property loc _ _ _ type | .method loc _ _ _ _ _ type => loc.span :: Ty.spansOf? type
  | .other loc _ => [loc.span]

/-- Those of several members. -/
def Member.spansOfAll : List Member → List Span
  | [] => []
  | member :: rest => member.spans ++ Member.spansOfAll rest

end

/-- The stretches of the type of a pattern. -/
def Pattern.spans (pattern : Pattern) : List Span := Ty.spansOf? pattern.type

mutual

/-- The stretches that an expression and its parts take. -/
def Expr.spans : Expr → List Span
  | .name loc _ | .member loc _ | .string loc _ | .template loc | .other loc => [loc]
  | .call loc callee types arguments =>
    loc :: (callee.spans ++ Ty.spansOfAll types ++ Argument.spansOfAll arguments)
  | .callback loc parameters => loc :: parameters.flatMap Pattern.spans
  | .object loc properties => loc :: ObjectProperty.spansOfAll properties
  | .array loc elements => loc :: Argument.spansOfAll elements
  | .paren loc inner => loc :: inner.spans

/-- The stretches of an argument. -/
def Argument.spans : Argument → List Span
  | .plain value | .spread value => value.spans

/-- Those of several arguments. -/
def Argument.spansOfAll : List Argument → List Span
  | [] => []
  | argument :: rest => argument.spans ++ Argument.spansOfAll rest

/-- The stretches of a property of an object. -/
def ObjectProperty.spans : ObjectProperty → List Span
  | .spread loc | .bare loc _ => [loc]
  | .keyValue loc _ value => loc :: value.spans
  | .method loc _ parameters => loc :: parameters.flatMap Pattern.spans

/-- Those of several properties. -/
def ObjectProperty.spansOfAll : List ObjectProperty → List Span
  | [] => []
  | property :: rest => property.spans ++ ObjectProperty.spansOfAll rest

end

/-- The stretches of a variable. -/
def Variable.spans (v : Variable) : List Span :=
  v.pattern.spans ++ (v.init.map Expr.spans).getD []

/-- The stretches of the declaration of a type. -/
def Declaration.spans : Declaration → List Span
  | .typeAlias _ _ body => body.spans
  | .interfaceDecl _ _ bases members => bases.map Base.loc ++ Member.spansOfAll members
  | .classDecl _ | .enumDecl .. | .imported .. => []

/-- The stretches of a top-level item: those of the type that it declares, or of its variables. -/
def Item.spans (item : Item) : List Span :=
  match item.form with
  | .declaration _ decl =>
    decl.toDeclaration?.toList.flatMap Declaration.spans ++ item.variables.flatMap Variable.spans
  | .defaultExport value => value.toDeclaration?.toList.flatMap Declaration.spans
  | _ => []

/-- The stretches of a module in which types and components are declared. -/
def LoadedModule.spans (m : LoadedModule) : List Span := m.items.flatMap Item.spans

/-- The stretches of the module at a place of a program. -/
def Program.spansOf (p : Program) (id : ModuleId) : List Span :=
  ((p.module? id).map LoadedModule.spans).getD []

/-- A type takes a stretch itself. -/
theorem Ty.span_mem_spans (type : Ty) : type.span ∈ type.spans := by
  cases type <;> rw [Ty.spans] <;> exact List.mem_cons_self

theorem Ty.spans_subset_spansOfAll {type : Ty} {types : List Ty} (mem : type ∈ types) :
    type.spans ⊆ Ty.spansOfAll types := by
  induction types with
  | nil => cases mem
  | cons first rest ih =>
    rw [Ty.spansOfAll]
    rcases List.mem_cons.mp mem with rfl | mem
    · exact List.subset_append_left _ _
    · exact List.Subset.trans (ih mem) (List.subset_append_right _ _)

/-- The stretches of a declaration are those of the item that makes it. -/
theorem LoadedModule.spans_of_mem_declarationsOf {m : LoadedModule} {item : Item} {d : Declaration}
    (mem : d ∈ m.declarationsOf item) : d.spans ⊆ item.spans := by
  unfold declarationsOf at mem
  unfold Item.spans
  split at mem
  · rename_i form
    rw [form]
    exact fun s inside => List.mem_append_left _ (List.mem_flatMap.mpr ⟨d, mem, inside⟩)
  · rename_i form
    rw [form]
    exact fun s inside => List.mem_flatMap.mpr ⟨d, mem, inside⟩
  · obtain ⟨specifier, -, rfl⟩ := List.mem_map.mp mem
    exact List.nil_subset _
  · cases mem

namespace Program

variable {p : Program}

/-- The stretches of a declaration are taken in the module that makes it. -/
theorem spans_of_declaration? {s : Symbol} {d : Declaration} (h : p.declaration? s = some d) :
    d.spans ⊆ p.spansOf s.module := by
  obtain ⟨m, isModule, found⟩ := Option.bind_eq_some_iff.mp h
  obtain ⟨item, isItem, mem⟩ := List.mem_flatMap.mp (List.mem_of_find?_eq_some found)
  unfold spansOf
  rw [isModule]
  exact fun sp inside => List.mem_flatMap.mpr
    ⟨item, isItem, LoadedModule.spans_of_mem_declarationsOf mem inside⟩

/-! ### Diagnostics -/

/-- A diagnostic points to a stretch that is taken in its module. -/
def Placed (p : Program) (d : Diagnostic) : Prop := d.span ∈ p.spansOf d.module

end Program

/-- All that is noted on the way to a value is placed. -/
def Noted.PlacedIn {α : Type} (a : Noted α) (p : Program) : Prop := ∀ d ∈ a.notes, p.Placed d

namespace Noted.PlacedIn

variable {p : Program} {α β : Type}

theorem pure (a : α) : (Pure.pure a : Noted α).PlacedIn p :=
  fun _ mem => absurd mem List.not_mem_nil

theorem bind {a : Noted α} {f : α → Noted β} (first : a.PlacedIn p)
    (next : (f a.value).PlacedIn p) : (a >>= f).PlacedIn p := by
  intro d mem
  rcases List.mem_append.mp mem with mem | mem
  · exact first d mem
  · exact next d mem

theorem note {problem : Problem} {m : ModuleId} {span : Span} (mem : span ∈ p.spansOf m) :
    (Noted.note problem m span).PlacedIn p := by
  intro d inside
  obtain rfl := List.mem_singleton.mp inside
  exact mem

theorem map {a : Noted α} (f : α → β) (all : a.PlacedIn p) : (f <$> a).PlacedIn p :=
  all.bind (.pure _)

/-- What is only noted and answered with a value is placed. -/
theorem warn {problem : Problem} {m : ModuleId} {span : Span} {a : α} (mem : span ∈ p.spansOf m) :
    (do Noted.note problem m span; Pure.pure a : Noted α).PlacedIn p :=
  (note mem).bind (.pure a)

end Noted.PlacedIn

namespace Program

variable {p : Program} {origin : ModuleId}

/-! ### Tags and members -/

mutual

/-- What is noted on the way to the tags of a type is placed. -/
theorem placedIn_tagsOf {entered : List Symbol} {place : Place} {type : Ty}
    (written : type.spans ⊆ p.spansOf place.script) :
    (p.tagsOf origin entered place type).PlacedIn p := by
  -- Only a reference notes anything, at its own stretch; the body of an alias is written elsewhere,
  -- but in the program.
  cases type with
  | keyword | literal | function | object | mapped | other =>
    rw [tagsOf]
    exact .pure _
  | array loc inner =>
    rw [Ty.spans] at written
    rw [tagsOf]
    exact (placedIn_tagsOf (List.subset_of_cons_subset written)).bind (.pure _)
  | paren loc inner | optional loc inner | readonly loc inner =>
    rw [Ty.spans] at written
    rw [tagsOf]
    exact placedIn_tagsOf (List.subset_of_cons_subset written)
  | tuple loc parts | union loc parts | intersection loc parts =>
    rw [Ty.spans] at written
    rw [tagsOf]
    exact (placedIn_allTags (List.subset_of_cons_subset written)).bind (.pure _)
  | reference loc name arguments =>
    rw [Ty.spans] at written
    have here : loc.span ∈ p.spansOf place.script := written List.mem_cons_self
    have inside : Ty.spansOfAll arguments ⊆ p.spansOf place.script :=
      List.subset_of_cons_subset written
    have global : (p.tagsOfGlobal origin entered place name arguments).PlacedIn p := by
      unfold tagsOfGlobal
      split
      · cases arguments with
        | nil => exact .pure _
        | cons argument rest =>
          rw [Ty.spansOfAll] at inside
          exact (placedIn_tagsOf (List.append_subset.mp inside).1).bind (.pure _)
      · exact .pure _
    rw [tagsOf_reference]
    refine .bind ?_ (.pure _)
    unfold tagsOfReferent
    split
    · exact global
    · split
      · rename_i id generics body declared
        split
        · exact .bind (.note here) (.pure _)
        · rename_i fresh
          have := unentered_cons_lt (mem_symbols_of_declaration? declared) fresh
          exact placedIn_tagsOf (spans_of_declaration? declared)
      · exact .pure _
      · exact .pure _
      · exact .pure _
      · exact global
      · exact global
termination_by (p.unentered entered, sizeOf type)

/-- What is noted on the way to the tags of several types is placed. -/
theorem placedIn_allTags {entered : List Symbol} {place : Place} {types : List Ty}
    (written : Ty.spansOfAll types ⊆ p.spansOf place.script) :
    (p.allTags origin entered place types).PlacedIn p := by
  cases types with
  | nil =>
    rw [allTags]
    exact .pure _
  | cons type rest =>
    rw [Ty.spansOfAll] at written
    obtain ⟨first, others⟩ := List.append_subset.mp written
    rw [allTags]
    exact (placedIn_tagsOf first).bind ((placedIn_allTags others).bind (.pure _))
termination_by (p.unentered entered, sizeOf types)

end

/-- What is noted on the way to the property of a member is placed. -/
theorem placedIn_propertyOf {place : Place} {member : Member}
    (written : member.spans ⊆ p.spansOf place.script) :
    (p.propertyOf origin place member).PlacedIn p := by
  unfold propertyOf
  cases member with
  | property loc docs name optional type =>
    rw [Member.spans] at written
    dsimp only
    split
    · exact .pure _
    · cases type with
      | none => exact .bind (.pure _) (.pure _)
      | some type =>
        rw [Ty.spansOf?] at written
        refine .bind ?_ (.pure _)
        unfold resolveType
        refine .bind (placedIn_tagsOf (List.subset_of_cons_subset written)) ?_
        dsimp only
        split
        · exact .pure _
        · split <;> exact .pure _
  | method loc docs name optional generics parameters result =>
    dsimp only
    split <;> exact .pure _
  | other loc docs => exact .pure _

/-- What is noted on the way to the properties of several members is placed. -/
theorem placedIn_propertiesOfMembers {place : Place} {members : List Member}
    (written : Member.spansOfAll members ⊆ p.spansOf place.script) :
    (p.propertiesOfMembers origin place members).PlacedIn p := by
  induction members with
  | nil => exact .pure _
  | cons member rest ih =>
    rw [Member.spansOfAll] at written
    obtain ⟨first, others⟩ := List.append_subset.mp written
    rw [propertiesOfMembers]
    exact (placedIn_propertyOf first).bind ((ih others).bind (.pure _))

mutual

/-- What is noted on the way to the members of a type is placed. -/
theorem placedIn_expand {entered : List Symbol} {place : Place} {type : Ty}
    (written : type.spans ⊆ p.spansOf place.script) :
    (p.expand origin entered place type).PlacedIn p := by
  have here := written type.span_mem_spans
  rw [expand.eq_def]
  split
  · rename_i loc members
    rw [Ty.spans] at written
    exact placedIn_propertiesOfMembers (List.subset_of_cons_subset written)
  · rename_i loc inner
    rw [Ty.spans] at written
    exact placedIn_expand (List.subset_of_cons_subset written)
  · rename_i loc parts
    rw [Ty.spans] at written
    exact placedIn_expandParts (List.subset_of_cons_subset written)
  · rename_i loc name arguments
    split
    · exact placedIn_expandSymbol here
    · exact .warn here
  · exact .warn here
termination_by (p.unentered entered, sizeOf type)

/-- What is noted on the way to the members of the parts of an intersection is placed. -/
theorem placedIn_expandParts {entered : List Symbol} {place : Place} {parts : List Ty}
    (written : Ty.spansOfAll parts ⊆ p.spansOf place.script) :
    (p.expandParts origin entered place parts).PlacedIn p := by
  cases parts with
  | nil =>
    rw [expandParts]
    exact .pure _
  | cons part rest =>
    rw [Ty.spansOfAll] at written
    obtain ⟨first, others⟩ := List.append_subset.mp written
    rw [expandParts]
    split
    · exact .bind (placedIn_expand first) (.bind (placedIn_expandParts others) (.pure _))
    · exact .bind (.note (first part.span_mem_spans))
        (.bind (.pure _) (.bind (placedIn_expandParts others) (.pure _)))
termination_by (p.unentered entered, sizeOf parts)

/-- What is noted on the way to the members of a symbol is placed, if the symbol is referred to from
a stretch of the script. -/
theorem placedIn_expandSymbol {entered : List Symbol} {s : Symbol} {script : ModuleId} {span : Span}
    (here : span ∈ p.spansOf script) :
    (p.expandSymbol origin entered s script span).PlacedIn p := by
  -- A warning is placed where the symbol is referred to; what a declaration adds is placed in its
  -- own script.
  rw [expandSymbol_eq]
  split
  · exact .warn here
  · rename_i t _
    unfold expandDeclared
    split
    · exact .warn here
    · exact .warn here
    · exact .warn here
    · exact .warn here
    · rename_i id generics body declared
      split
      · exact .warn here
      · rename_i fresh
        have := unentered_cons_lt (mem_symbols_of_declaration? declared) fresh
        exact placedIn_expand (spans_of_declaration? declared)
    · rename_i id generics bases members declared
      split
      · exact .warn here
      · rename_i fresh
        have := unentered_cons_lt (mem_symbols_of_declaration? declared) fresh
        obtain ⟨ofBases, ofMembers⟩ := List.append_subset.mp (spans_of_declaration? declared)
        exact (placedIn_propertiesOfMembers ofMembers).bind
          ((placedIn_expandBases ofBases).bind (.pure _))
termination_by (p.unentered entered, 0)

/-- What is noted on the way to the members of the bases of an interface is placed. -/
theorem placedIn_expandBases {entered : List Symbol} {m : ModuleId} {bases : List Base}
    (written : bases.map Base.loc ⊆ p.spansOf m) :
    (p.expandBases origin entered m bases).PlacedIn p := by
  cases bases with
  | nil =>
    rw [expandBases]
    exact .pure _
  | cons base rest =>
    have here : base.loc ∈ p.spansOf m := written List.mem_cons_self
    have others : rest.map Base.loc ⊆ p.spansOf m := List.subset_of_cons_subset written
    rw [expandBases]
    split
    · exact .bind (.note here) (.bind (.pure _) (.bind (placedIn_expandBases others) (.pure _)))
    · split
      · exact .bind (placedIn_expandSymbol here) (.bind (placedIn_expandBases others) (.pure _))
      · exact .bind (.note here) (.bind (.pure _) (.bind (placedIn_expandBases others) (.pure _)))
termination_by (p.unentered entered, bases.length + 1)

end

/-- What is noted on the way to the properties of a type is placed. -/
theorem placedIn_propertiesOf {place : Place} {type : Ty}
    (written : type.spans ⊆ p.spansOf place.script) :
    (p.propertiesOf origin place type).PlacedIn p :=
  (placedIn_expand written).map _

end Program

end TypedProps
