import TypedProps.Proofs.Tags.Constructors

/-!
# `TypedProps.Proofs.Tags.Followed`: which type names are followed to a declaration

A type name leads to a declaration by way of imports and re-exports. The resolution follows it as
long as the search stays within a bound on lookups. `Program.Follows` says so with the search of
`Program.Walk`, which counts its lookups and knows no bound, and `typeDeclared?_eq_some_iff` says
that this is what the resolution does.

A qualified name is an export of a module that is imported as a whole. The search for the export and
the walk that begins there have a bound each.
-/

set_option autoImplicit false

namespace TypedProps.Program

variable {p : Program}

/-- A lookup finds a symbol exactly by a search whose cost is within the budget. -/
theorem resolveExport_eq_some_iff {budget : Nat} {w : Way} {name : String} {s : Symbol} :
    (p.resolveExport budget w.target name false).symbol = some s ↔
      ∃ trail n, p.Search [w] name (some trail) n ∧ n ≤ budget ∧ trail.symbol = s := by
  rw [(resolveExport_target budget w name false).1]
  constructor
  · intro answered
    rcases search_or_exhausted (p := p) budget [w] name with ⟨answer, n, le, search⟩ | out
    · rw [(resolveWays_of_search search le false).symbol_eq] at answered
      obtain ⟨trail, rfl, same⟩ := Option.map_eq_some_iff.mp answered
      exact ⟨trail, n, search, le, same⟩
    · rw [(out false).1] at answered
      cases answered
  · rintro ⟨trail, n, search, le, rfl⟩
    exact (resolveWays_of_search search le false).symbol_eq

/-- `p.Follows m name s`: in the scope of a module, a type name leads to a symbol, and the search
for it stays within the bound. -/
inductive Follows (p : Program) (m : ModuleId) : EntityName → Symbol → Prop
  | plain {name : EntityName} {rest : Trail} {n : Nat} (plain : name.more = [])
      (walk : p.Walk ⟨m, name.first⟩ rest n) (le : n ≤ maxHops) : Follows p m name rest.symbol
  | member {name : EntityName} {member : String} {id : Identifier} {source : ModuleId}
      {typeOnly : Bool} {first rest : Trail} {k n : Nat} (qualified : name.more = [member])
      (whole : p.declaration? ⟨m, name.first⟩
        = some (.imported id (some source) .everything typeOnly))
      (search : p.Search [⟨importHop m typeOnly, source⟩] member (some first) k)
      (le : k ≤ maxHops) (walk : p.Walk first.symbol rest n) (le' : n ≤ maxHops) :
      Follows p m name rest.symbol

/-- What a type name refers to is what stands behind the symbol that is bound to it. -/
theorem referent_eq_some_iff {m : ModuleId} {name : EntityName} {t : Symbol} :
    (p.referent m name).1 = some t ↔
      ∃ s, p.symbolAt m name = some s ∧ p.behindImports? s = some t := by
  unfold referent
  cases bound : p.symbolAt m name with
  | none => simp
  | some s =>
    simp only [Option.some.injEq, exists_eq_left']
    unfold behindImports?
    cases p.declaration? s with
    | none => rfl
    | some d =>
      cases d with
      | imported id source what typeOnly =>
        dsimp only
        cases p.aliased? s <;> simp
      | typeAlias | interfaceDecl | classDecl | enumDecl => rfl

/-- A declared type stands behind a symbol exactly if a walk within the bound leads there. -/
theorem behindImports?_eq_some_iff {s t : Symbol} {d : Declaration}
    (declared : p.declaration? t = some d)
    (isType : ∀ id source what typeOnly, d ≠ .imported id source what typeOnly) :
    p.behindImports? s = some t ↔
      ∃ rest n, p.Walk s rest n ∧ n ≤ maxHops ∧ rest.symbol = t := by
  by_cases imported : ∃ id source what typeOnly,
      p.declaration? s = some (.imported id source what typeOnly)
  · obtain ⟨id, source, what, typeOnly, imported⟩ := imported
    have behind : p.behindImports? s = p.aliased? s := by
      unfold behindImports?
      rw [imported]
    rw [behind, aliased?_eq_some_iff]
    constructor
    · rintro ⟨-, rest, n, walk, same, le⟩
      exact ⟨rest, n, walk, le, same⟩
    · rintro ⟨rest, n, walk, le, same⟩
      refine ⟨?_, rest, n, walk, same, le⟩
      cases walk with
      | here stops =>
        -- The import of a whole module is no declared type.
        obtain rfl : s = t := same
        rw [imported] at declared
        exact absurd (Option.some.inj declared).symm (isType _ _ _ _)
      | next isImport _ _ => rw [isImport]; rfl
  · have behind : p.behindImports? s = some s := by
      unfold behindImports?
      split
      · rename_i id source what typeOnly found
        exact absurd ⟨id, source, what, typeOnly, found⟩ imported
      · rfl
    have stops : p.importOf? s = none :=
      importOf?_eq_none_iff.2 fun id source inner typeOnly found =>
        imported ⟨id, source, _, typeOnly, found⟩
    rw [behind]
    constructor
    · intro same
      exact ⟨_, 0, .here stops, Nat.zero_le _, Option.some.inj same⟩
    · rintro ⟨rest, n, walk, -, same⟩
      cases walk with
      | here => exact congrArg some same
      | next isImport _ _ => rw [stops] at isImport; cases isImport

/-- A walk to a declared symbol begins at one. -/
theorem Walk.lookup_eq_some {m : ModuleId} {name : String} {rest : Trail} {n : Nat}
    {d : Declaration} (walk : p.Walk ⟨m, name⟩ rest n)
    (declared : p.declaration? rest.symbol = some d) : p.lookup m name = some ⟨m, name⟩ := by
  cases walk with
  | here => exact Option.map_eq_some_iff.mpr ⟨d, declared, rfl⟩
  | next imported _ _ =>
    obtain ⟨_, _, _, found, -⟩ := importOf?_eq_some_iff.1 imported
    exact Option.map_eq_some_iff.mpr ⟨_, found, rfl⟩

/-- A name is followed to a symbol that is declared, and no import, exactly if it refers to it. -/
theorem follows_iff {m : ModuleId} {name : EntityName} {s : Symbol} {d : Declaration}
    (declared : p.declaration? s = some d)
    (isType : ∀ id source what typeOnly, d ≠ .imported id source what typeOnly) :
    p.Follows m name s ↔ (p.referent m name).1 = some s := by
  -- The name is bound first, and what it is bound to is followed then, with a bound of its own.
  simp only [referent_eq_some_iff, behindImports?_eq_some_iff declared isType]
  constructor
  · intro follows
    cases follows with
    | plain isPlain walk le =>
      exact ⟨⟨m, name.first⟩,
        symbolAt_eq_some_iff.2 (Or.inl ⟨isPlain, walk.lookup_eq_some declared⟩),
        _, _, walk, le, rfl⟩
    | @member member id source typeOnly _ _ _ _ qualified whole search le walk le' =>
      have answered := resolveExport_eq_some_iff.2 ⟨_, _, search, le, rfl⟩
      exact ⟨_, symbolAt_eq_some_iff.2
        (Or.inr ⟨member, id, source, typeOnly, qualified, whole, answered⟩), _, _, walk, le', rfl⟩
  · rintro ⟨first, bound, rest, n, walk, le, rfl⟩
    rcases symbolAt_eq_some_iff.1 bound with
      ⟨isPlain, bound⟩ | ⟨member, id, source, typeOnly, qualified, whole, answered⟩
    · obtain ⟨-, -, rfl⟩ := Option.map_eq_some_iff.mp bound
      exact .plain isPlain walk le
    · obtain ⟨trail, k, search, le', rfl⟩ :=
        resolveExport_eq_some_iff (w := ⟨importHop m typeOnly, source⟩).mp answered
      exact .member qualified whole search le' walk le

/-- A type name is taken for a declared type exactly if it is followed to one. -/
theorem typeDeclared?_eq_some_iff {m : ModuleId} {name : EntityName} {s : Symbol}
    {d : Declaration} :
    p.typeDeclared? m name = some (s, d) ↔
      p.Follows m name s ∧ p.declaration? s = some d ∧
        ∀ id source what typeOnly, d ≠ .imported id source what typeOnly := by
  constructor
  · intro found
    obtain ⟨referent, declared⟩ := declaration?_of_typeDeclared? found
    have isType (id : Identifier) (source : Option ModuleId) (what : ImportedName)
        (typeOnly : Bool) : d ≠ .imported id source what typeOnly := by
      rintro rfl
      exact typeDeclared?_ne_imported found
    exact ⟨(follows_iff declared isType).mpr referent, declared, isType⟩
  · rintro ⟨follows, declared, isType⟩
    rw [typeDeclared?, (follows_iff declared isType).mp follows, Option.bind_some, declared]
    cases d with
    | imported id source what typeOnly => exact absurd rfl (isType id source what typeOnly)
    | typeAlias | interfaceDecl | classDecl | enumDecl => rfl

end TypedProps.Program
