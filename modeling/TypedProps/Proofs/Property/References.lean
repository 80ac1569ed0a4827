import TypedProps.Property.Extraction

/-!
# `TypedProps.Proofs.Property.References`: what a reference contributes

What a type name stands for, and the tags and the members of references, as equations. A reference
has the tags of what it refers to (`tagsOf_reference`), its members are those of the symbol that is
bound to it (`expand_reference`), and a symbol has the members of what stands behind all imports
(`expandSymbol_eq`). The definitions say the same interleaved with the reasons why following
references ends. Whatever is proved about references starts from these equations.
-/

set_option autoImplicit false

namespace TypedProps.Program

variable {p : Program}

/-! ### Names -/

/-- A type name stands for what its module binds to it or, if it is qualified, for an export of a
module that is imported as a whole. -/
theorem symbolAt_eq_some_iff {m : ModuleId} {name : EntityName} {s : Symbol} :
    p.symbolAt m name = some s ↔
      (name.more = [] ∧ p.lookup m name.first = some s) ∨
      ∃ member id source typeOnly, name.more = [member] ∧
        p.declaration? ⟨m, name.first⟩
          = some (.imported id (some source) .everything typeOnly) ∧
        (p.resolveExport maxHops source member false).symbol = some s := by
  constructor
  · intro bound
    unfold symbolAt at bound
    split at bound
    · exact Or.inl ⟨‹_›, bound⟩
    · rename_i member qualified
      split at bound
      · rename_i id source typeOnly whole
        exact Or.inr ⟨member, id, source, typeOnly, qualified, whole, bound⟩
      · cases bound
    · cases bound
  · rintro (⟨isPlain, bound⟩ | ⟨member, id, source, typeOnly, qualified, whole, answered⟩)
    · rw [symbolAt, isPlain]
      exact bound
    · rw [symbolAt, qualified]
      simp only [whole]
      exact answered

/-! ### Tags -/

/-- The tags of a name under which nothing is declared, with what is noted on the way to them. -/
def tagsOfGlobal (p : Program) (origin : ModuleId) (entered : List Symbol) (place : Place)
    (name : EntityName) (arguments : List Ty) : Noted (List Tag) :=
  if name.isGlobalArray then
    match arguments with
    | argument :: _ => do pure [.array (← p.tagsOf origin entered place argument)]
    | [] => pure [.array []]
  else pure [name.globalTag]

/-- The tags of a reference to a symbol, with what is noted on the way to them. -/
def tagsOfReferent (p : Program) (origin : ModuleId) (entered : List Symbol) (place : Place)
    (loc : Excerpt) (name : EntityName) (arguments : List Ty) : Option Symbol → Noted (List Tag)
  | none => p.tagsOfGlobal origin entered place name arguments
  | some s =>
    match p.declaration? s with
    | some (.typeAlias _ _ body) =>
      if s ∈ entered then do
        Noted.note (.recursiveAlias s.name) place.script loc.span
        pure []
      else p.tagsOf origin (s :: entered) (.inside s.module) body
    | some (.interfaceDecl ..) => pure [.object]
    | some (.classDecl _) => pure [.named name.text (place.scope == origin)]
    | some (.enumDecl _ members) => pure [enumTag members]
    | some (.imported ..) | none => p.tagsOfGlobal origin entered place name arguments

/-- A reference has the tags of what it refers to. -/
theorem tagsOf_reference (origin : ModuleId) (entered : List Symbol) (place : Place)
    (loc : Excerpt) (name : EntityName) (arguments : List Ty) :
    p.tagsOf origin entered place (.reference loc name arguments)
      = p.tagsOfReferent origin entered place loc name arguments (p.referent place.scope name).1
          >>= fun tags =>
            pure (if (p.referent place.scope name).2 then tags.map Tag.erased else tags) := by
  rw [tagsOf.eq_def]
  dsimp only
  cases (p.referent place.scope name).1 with
  | none => cases arguments <;> rfl
  | some s =>
    -- One case for each declaration, in the order of the definition.
    unfold tagsOfReferent
    dsimp only
    split
    · rename_i declared
      rw [declared]
      dsimp only
      split <;> rfl
    · rename_i declared
      rw [declared]
    · rename_i declared
      rw [declared]
    · rename_i declared
      rw [declared]
    · rename_i declared
      rw [declared]
      cases arguments <;> rfl
    · rename_i declared
      rw [declared]
      cases arguments <;> rfl

/-! ### Members -/

/-- A property member declares a property with the type that is resolved for it, if it has a usable
name. -/
theorem value_propertyOf_property (p : Program) (origin : ModuleId) (place : Place) (loc : Excerpt)
    (docs : List String) (key : Option String) (optional : Bool) (written : Option Ty) :
    (p.propertyOf origin place (.property loc docs key optional written)).value
      = (usableName? key).map fun name =>
          let type := written.bind fun type => (p.resolveType origin place type).value
          ⟨name, type, !optional && !(type.map (·.contains .undefined)).getD false, none,
            Doc.cleanAll docs⟩ := by
  unfold propertyOf
  dsimp only
  cases usableName? key with
  | none => rfl
  | some name => cases written <;> rfl

/-- A method declares a property that is a function, if it has a usable name. -/
theorem value_propertyOf_method (p : Program) (origin : ModuleId) (place : Place) (loc : Excerpt)
    (docs : List String) (key : Option String) (optional : Bool) (generics : List String)
    (parameters : List String) (result : Option Ty) :
    (p.propertyOf origin place
        (.method loc docs key optional generics parameters result)).value
      = (usableName? key).map fun name =>
          ⟨name, some ⟨[.function], some (if place.scope == origin then
            signatureText parameters result else Tag.function.typeText)⟩, !optional, none,
            Doc.cleanAll docs⟩ := by
  unfold propertyOf
  dsimp only
  cases usableName? key <;> rfl

/-- The symbol that stands behind a symbol, if that is an import. -/
def behindImports? (p : Program) (s : Symbol) : Option Symbol :=
  match p.declaration? s with
  | some (.imported ..) => p.aliased? s
  | _ => some s

/-- What is followed of a symbol is what stands behind all imports. -/
theorem ite_imported_eq (p : Program) (s : Symbol) :
    (if (match p.declaration? s with
        | some (.imported ..) => true
        | _ => false) = true then p.aliased? s else some s) = p.behindImports? s := by
  unfold behindImports?
  split <;> simp_all

/-- A problem is noted, and there are no properties. -/
def warned (problem : Problem) (script : ModuleId) (span : Span) : Noted (List Property) := do
  Noted.note problem script span
  pure []

/-- The members of what a symbol is declared as. -/
def expandDeclared (p : Program) (origin : ModuleId) (entered : List Symbol) (script : ModuleId)
    (span : Span) (t : Symbol) : Noted (List Property) :=
  match p.declaration? t with
  | none => warned (.undeclared t.name) script span
  | some (.classDecl _) | some (.enumDecl ..) => warned (.memberless t.name) script span
  | some (.imported ..) => warned (.unresolvedImport t.name) script span
  | some (.typeAlias _ _ body) =>
    if t ∈ entered then warned (.recursiveMembers t.name) script span
    else p.expand origin (t :: entered) (.inside t.module) body
  | some (.interfaceDecl _ _ bases members) =>
    if t ∈ entered then warned (.recursiveMembers t.name) script span
    else do
      let own ← p.propertiesOfMembers origin (.inside t.module) members
      pure (own ++ (← p.expandBases origin (t :: entered) t.module bases))

/-- A symbol has the members of what stands behind it. -/
theorem expandSymbol_eq (origin : ModuleId) (entered : List Symbol) (s : Symbol)
    (script : ModuleId) (span : Span) :
    p.expandSymbol origin entered s script span
      = match p.behindImports? s with
        | none => warned (.unresolvedImport s.name) script span
        | some t => p.expandDeclared origin entered script span t := by
  have resolved := ite_imported_eq p s
  rw [expandSymbol.eq_def]
  dsimp only
  split
  · rename_i nothing
    have behind : p.behindImports? s = none := resolved.symm.trans nothing
    rw [behind]
    rfl
  · rename_i t found
    have behind : p.behindImports? s = some t := resolved.symm.trans found
    rw [behind]
    unfold expandDeclared
    dsimp only
    -- One case for each declaration, and the two agree in all of them.
    split <;> rename_i declared <;> rw [declared] <;> rfl

/-- A reference has the members of the symbol that is bound to it. -/
theorem expand_reference (origin : ModuleId) (entered : List Symbol) (place : Place)
    (loc : Excerpt) (name : EntityName) (arguments : List Ty) :
    p.expand origin entered place (.reference loc name arguments)
      = match p.symbolAt place.scope name with
        | some s => p.expandSymbol origin entered s place.script loc.span
        | none => warned (.unknownType name.text) place.script loc.span := by
  rw [expand.eq_def]
  rfl

end TypedProps.Program
