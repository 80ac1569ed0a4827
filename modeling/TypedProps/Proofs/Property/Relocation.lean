import TypedProps.Proofs.Program.Relocation
import TypedProps.Proofs.Property.Places

/-!
# `TypedProps.Proofs.Property.Relocation`: tags and properties of relocated types

Where one program is embedded in another one, a relocated type has the same tags and properties
there, and what is noted on the way to them is the same at the relocated places
(`Relocation.Embeds.tagsOf`, `Relocation.Embeds.propertiesOf`). Tags and properties contain names
and texts, but no modules and no stretches, so the values are equal and not only relocated.

The resolution remembers the symbols that it has entered. A relocation sends no two of them to the
same symbol, so both programs cut off the same ways.
-/

set_option autoImplicit false

namespace TypedProps

namespace Relocation.Embeds

open Program

variable {r : Relocation} {p q : Program}

/-! ### Tags -/

/-- A member of an enumeration is a string wherever it stands. -/
theorem isString_moved (g : Span → Span) (member : EnumMember) :
    (member.moved g).isString = member.isString := by
  obtain ⟨init⟩ := member
  cases init with
  | none => rfl
  | some e => cases e <;> simp [EnumMember.moved, EnumMember.isString, Expr.moved]

theorem enumTag_moved (g : Span → Span) (members : List EnumMember) :
    enumTag (members.map (EnumMember.moved g)) = enumTag members := by
  have same : EnumMember.isString ∘ EnumMember.moved g = EnumMember.isString :=
    funext (isString_moved g)
  unfold enumTag
  rw [List.any_map, same]

mutual

/-- A relocated type has the same tags. -/
theorem tagsOf (embeds : r.Embeds p q) (origin : ModuleId) (entered : List Symbol) (place : Place)
    (type : Ty) :
    p.tagsOf (r.module origin) (entered.map r.symbol) (r.place place) (type.moved r.span)
      = r.noted (q.tagsOf origin entered place type) := by
  cases type with
  | keyword | literal | function | object | mapped | other =>
    rw [Ty.moved, Program.tagsOf, Program.tagsOf]
    rfl
  | array loc inner =>
    rw [Ty.moved, Program.tagsOf, Program.tagsOf, tagsOf embeds origin entered place inner]
    simp
  | paren loc inner | optional loc inner | readonly loc inner =>
    rw [Ty.moved, Program.tagsOf, Program.tagsOf, tagsOf embeds origin entered place inner]
  | tuple loc parts | union loc parts | intersection loc parts =>
    rw [Ty.moved, Program.tagsOf, Program.tagsOf, allTags embeds origin entered place parts]
    simp
  | reference loc name arguments =>
    have global : p.tagsOfGlobal (r.module origin) (entered.map r.symbol) (r.place place) name
          (Ty.movedAll r.span arguments)
        = r.noted (q.tagsOfGlobal origin entered place name arguments) := by
      unfold tagsOfGlobal
      split
      · cases arguments with
        | nil =>
          rw [Ty.movedAll]
          rfl
        | cons argument rest =>
          rw [Ty.movedAll]
          show (p.tagsOf _ _ _ (argument.moved r.span) >>= _) = _
          rw [tagsOf embeds origin entered place argument]
          simp
      · rfl
    have referred (target : Option Symbol) :
        p.tagsOfReferent (r.module origin) (entered.map r.symbol) (r.place place)
            (loc.moved r.span) name (Ty.movedAll r.span arguments) (target.map r.symbol)
          = r.noted (q.tagsOfReferent origin entered place loc name arguments target) := by
      cases target with
      | none => exact global
      | some s =>
        rw [Option.map_some, tagsOfReferent.eq_def, tagsOfReferent.eq_def]
        dsimp only
        rw [embeds.declaration?]
        cases declared : q.declaration? s with
        | none => exact global
        | some d =>
          cases d with
          | typeAlias id generics body =>
            -- The alias is entered here exactly if the relocated one is entered there.
            by_cases again : s ∈ entered
            · simp [declaration, again]
            · have := unentered_cons_lt (mem_symbols_of_declaration? declared) again
              have behind := tagsOf embeds origin (s :: entered) (.inside s.module) body
              rw [List.map_cons] at behind
              simpa [declaration, again] using behind
          | interfaceDecl => rfl
          | classDecl id =>
            simp [declaration]
          | enumDecl id members =>
            simp [declaration, enumTag_moved]
          | imported => exact global
    rw [Ty.moved, tagsOf_reference, tagsOf_reference, r.place_scope, embeds.referent, referred]
    simp only [noted_bind]
    rfl
termination_by (q.unentered entered, sizeOf type)

/-- Relocated types have the same tags. -/
theorem allTags (embeds : r.Embeds p q) (origin : ModuleId) (entered : List Symbol)
    (place : Place) (types : List Ty) :
    p.allTags (r.module origin) (entered.map r.symbol) (r.place place) (Ty.movedAll r.span types)
      = r.noted (q.allTags origin entered place types) := by
  cases types with
  | nil =>
    rw [Ty.movedAll, Program.allTags, Program.allTags]
    rfl
  | cons type rest =>
    rw [Ty.movedAll, Program.allTags, Program.allTags, tagsOf embeds origin entered place type,
      allTags embeds origin entered place rest]
    simp
termination_by (q.unentered entered, sizeOf types)

end

/-! ### Properties -/

theorem isSelfDescribing_moved (g : Span → Span) (type : Ty) (tags : List Tag) :
    isSelfDescribing (type.moved g) tags = isSelfDescribing type tags := by
  unfold isSelfDescribing
  -- Only keywords are told from other types.
  split <;> cases type <;> simp_all [Ty.moved]

/-- The type of a member is resolved alike. -/
theorem resolveType (embeds : r.Embeds p q) (origin : ModuleId) (place : Place) (type : Ty) :
    p.resolveType (r.module origin) (r.place place) (type.moved r.span)
      = r.noted (q.resolveType origin place type) := by
  -- A resolution starts with nothing entered, in both programs.
  have tags := embeds.tagsOf origin [] place type
  rw [List.map_nil] at tags
  unfold Program.resolveType
  rw [tags, noted_bind]
  congr 1
  funext tags
  simp only [isSelfDescribing_moved, r.place_scope, module_beq, Ty.text_moved]
  split
  · rfl
  · split <;> rfl

/-- A relocated member declares the same property. -/
theorem propertyOf (embeds : r.Embeds p q) (origin : ModuleId) (place : Place) (member : Member) :
    p.propertyOf (r.module origin) (r.place place) (member.moved r.span)
      = r.noted (q.propertyOf origin place member) := by
  unfold Program.propertyOf
  cases member with
  | property loc docs name optional type =>
    rw [Member.moved]
    dsimp only
    cases usableName? name with
    | none => rfl
    | some name =>
      cases type with
      | none =>
        rw [Ty.moved?]
        rfl
      | some type =>
        rw [Ty.moved?]
        dsimp only
        rw [embeds.resolveType]
        simp
  | method loc docs name optional generics parameters result =>
    have signature : signatureText parameters (Ty.moved? r.span result)
        = signatureText parameters result := by
      cases result <;> rw [Ty.moved?]
      simp [signatureText]
    rw [Member.moved]
    dsimp only
    cases usableName? name with
    | none => rfl
    | some name => simp [signature]
  | other loc docs =>
    rw [Member.moved]
    rfl

/-- Relocated members declare the same properties. -/
theorem propertiesOfMembers (embeds : r.Embeds p q) (origin : ModuleId) (place : Place)
    (members : List Member) :
    p.propertiesOfMembers (r.module origin) (r.place place) (Member.movedAll r.span members)
      = r.noted (q.propertiesOfMembers origin place members) := by
  induction members with
  | nil =>
    rw [Member.movedAll]
    rfl
  | cons member rest ih =>
    rw [Member.movedAll, Program.propertiesOfMembers, Program.propertiesOfMembers,
      embeds.propertyOf, ih]
    simp

/-- What stands behind a relocated symbol is relocated. -/
theorem behindImports? (embeds : r.Embeds p q) (s : Symbol) :
    p.behindImports? (r.symbol s) = (q.behindImports? s).map r.symbol := by
  unfold Program.behindImports?
  rw [embeds.declaration?, embeds.aliased?]
  cases q.declaration? s with
  | none => rfl
  | some d => cases d <;> rfl

theorem mayHaveMembers_moved (g : Span → Span) (type : Ty) :
    mayHaveMembers (type.moved g) = mayHaveMembers type := by
  cases type <;> rw [Ty.moved] <;> rfl

theorem noted_warned (problem : Problem) (script : ModuleId) (span : Span) :
    r.noted (warned problem script span) = warned problem (r.module script) (r.span span) := rfl

mutual

/-- A relocated type has the same members. -/
theorem expand (embeds : r.Embeds p q) (origin : ModuleId) (entered : List Symbol) (place : Place)
    (type : Ty) :
    p.expand (r.module origin) (entered.map r.symbol) (r.place place) (type.moved r.span)
      = r.noted (q.expand origin entered place type) := by
  cases type with
  | keyword | literal | array | tuple | function | optional | readonly | mapped | union | other =>
    rw [Ty.moved, Program.expand.eq_def, Program.expand.eq_def]
    rfl
  | object loc members =>
    rw [Ty.moved, Program.expand, Program.expand, embeds.propertiesOfMembers]
  | paren loc inner =>
    rw [Ty.moved, Program.expand, Program.expand, expand embeds origin entered place inner]
  | intersection loc parts =>
    rw [Ty.moved, Program.expand, Program.expand, expandParts embeds origin entered place parts]
  | reference loc name arguments =>
    rw [Ty.moved, Program.expand, Program.expand, r.place_scope, embeds.symbolAt]
    cases q.symbolAt place.scope name with
    | none => rfl
    | some s => exact expandSymbol embeds origin entered s place.script loc.span
termination_by (q.unentered entered, sizeOf type)

/-- The parts of a relocated intersection have the same members. -/
theorem expandParts (embeds : r.Embeds p q) (origin : ModuleId) (entered : List Symbol)
    (place : Place) (parts : List Ty) :
    p.expandParts (r.module origin) (entered.map r.symbol) (r.place place)
        (Ty.movedAll r.span parts)
      = r.noted (q.expandParts origin entered place parts) := by
  cases parts with
  | nil =>
    rw [Ty.movedAll, Program.expandParts, Program.expandParts]
    rfl
  | cons part rest =>
    rw [Ty.movedAll, Program.expandParts, Program.expandParts, mayHaveMembers_moved,
      expandParts embeds origin entered place rest]
    split
    · rw [expand embeds origin entered place part]
      simp
    · simp
termination_by (q.unentered entered, sizeOf parts)

/-- A relocated symbol has the same members. -/
theorem expandSymbol (embeds : r.Embeds p q) (origin : ModuleId) (entered : List Symbol)
    (s : Symbol) (script : ModuleId) (span : Span) :
    p.expandSymbol (r.module origin) (entered.map r.symbol) (r.symbol s) (r.module script)
        (r.span span)
      = r.noted (q.expandSymbol origin entered s script span) := by
  rw [expandSymbol_eq, expandSymbol_eq, embeds.behindImports?]
  cases q.behindImports? s with
  | none => rfl
  | some t =>
    show p.expandDeclared _ _ _ _ (r.symbol t) = r.noted (q.expandDeclared _ _ _ _ t)
    unfold expandDeclared
    rw [embeds.declaration?]
    cases declared : q.declaration? t with
    | none => rfl
    | some d =>
      cases d with
      | classDecl | enumDecl | imported => rfl
      | typeAlias id generics body =>
        by_cases again : t ∈ entered
        · simp [declaration, again, noted_warned]
        · have := unentered_cons_lt (mem_symbols_of_declaration? declared) again
          have behind := expand embeds origin (t :: entered) (.inside t.module) body
          rw [List.map_cons] at behind
          simpa [declaration, again] using behind
      | interfaceDecl id generics bases members =>
        by_cases again : t ∈ entered
        · simp [declaration, again, noted_warned]
        · have := unentered_cons_lt (mem_symbols_of_declaration? declared) again
          have own := embeds.propertiesOfMembers origin (.inside t.module) members
          have others := expandBases embeds origin (t :: entered) t.module bases
          rw [List.map_cons] at others
          rw [r.place_inside] at own
          simp [declaration, again, own, others]
termination_by (q.unentered entered, 0)

/-- The bases of a relocated interface have the same members. -/
theorem expandBases (embeds : r.Embeds p q) (origin : ModuleId) (entered : List Symbol)
    (m : ModuleId) (bases : List Base) :
    p.expandBases (r.module origin) (entered.map r.symbol) (r.module m)
        (bases.map (Base.moved r.span))
      = r.noted (q.expandBases origin entered m bases) := by
  cases bases with
  | nil =>
    rw [List.map_nil, Program.expandBases, Program.expandBases]
    rfl
  | cons base rest =>
    rw [List.map_cons, Program.expandBases, Program.expandBases,
      expandBases embeds origin entered m rest]
    obtain ⟨loc, name⟩ := base
    cases name with
    | none => simp [Base.moved]
    | some name =>
      simp only [Base.moved, embeds.lookup]
      cases q.lookup m name with
      | none => simp
      | some s =>
        have behind := expandSymbol embeds origin entered s m loc
        simp [behind]
termination_by (q.unentered entered, bases.length + 1)

end

/-- A relocated type has the same properties. -/
theorem propertiesOf (embeds : r.Embeds p q) (origin : ModuleId) (place : Place) (type : Ty) :
    p.propertiesOf (r.module origin) (r.place place) (type.moved r.span)
      = r.noted (q.propertiesOf origin place type) := by
  have members := embeds.expand origin [] place type
  rw [List.map_nil] at members
  unfold Program.propertiesOf
  rw [members, noted_map]

end Relocation.Embeds

end TypedProps
