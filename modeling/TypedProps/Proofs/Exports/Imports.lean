import TypedProps.Proofs.Exports.Budget

/-!
# `TypedProps.Proofs.Exports.Imports`: following imports

An import of one name is followed by looking the name up, and the import found there is followed in
turn, until a symbol is reached that is no such import.

* `Program.Leads` follows imports with the reference resolution of exports, `Program.Walk` with the
  plain search and its cost. `Walk.leads` carries the one over to the other.
* `follow_eq_some_iff` and `marked_of_walk` say what `Program.follow` and `Program.marked` compute:
  the walk whose cost is within the budget, and the marks on its trail that are kept.
* `exists_rounds` is about the two functions as loops. Each round takes at least one lookup from the
  budget, so the test by which they are seen to end never fails, and both make the same rounds.
-/

set_option autoImplicit false

namespace TypedProps.Program

variable {p : Program}

/-- The ways that open behind a symbol that is an import of one name, and the name to look up along
them. An import from a module that is not there opens no way. -/
def importOf? (p : Program) (s : Symbol) : Option (List Way × String) :=
  match p.declaration? s with
  | some (.imported _ source (.named name) typeOnly) =>
    some (source.toList.map fun m => ⟨⟨.importBinding, s.module, typeOnly⟩, m⟩, name)
  | _ => none

/-- A symbol is an import of one name exactly if it is declared as such; its module is the only
way. -/
theorem importOf?_eq_some_iff {s : Symbol} {ways : List Way} {name : String} :
    p.importOf? s = some (ways, name) ↔
      ∃ id source typeOnly, p.declaration? s = some (.imported id source (.named name) typeOnly) ∧
        ways = source.toList.map fun m => ⟨⟨.importBinding, s.module, typeOnly⟩, m⟩ := by
  unfold importOf?
  constructor
  · intro imported
    split at imported
    · rename_i declared
      obtain ⟨rfl, rfl⟩ := Prod.mk.inj (Option.some.inj imported)
      exact ⟨_, _, _, declared, rfl⟩
    · cases imported
  · rintro ⟨id, source, typeOnly, declared, rfl⟩
    rw [declared]

/-- What is declared as anything else is no import of one name. -/
theorem importOf?_eq_none_iff {s : Symbol} :
    p.importOf? s = none ↔ ∀ id source name typeOnly,
      p.declaration? s ≠ some (.imported id source (.named name) typeOnly) := by
  rw [Option.eq_none_iff_forall_ne_some]
  constructor
  · intro stops id source name typeOnly declared
    exact stops _ (importOf?_eq_some_iff.2 ⟨id, source, typeOnly, declared, rfl⟩)
  · rintro other ⟨ways, name⟩ imported
    obtain ⟨id, source, typeOnly, declared, -⟩ := importOf?_eq_some_iff.1 imported
    exact other id source name typeOnly declared

/-- The hop by which a symbol is the import of a whole module, if it is one. -/
def wholeImport (p : Program) (s : Symbol) : List Hop :=
  match p.declaration? s with
  | some (.imported _ _ .everything typeOnly) => [⟨.importBinding, s.module, typeOnly⟩]
  | _ => []

/-- `p.Leads s trail`: following imports from a symbol, each by the reference resolution, leads
along a trail to a symbol that is no import of one name. -/
inductive Leads (p : Program) : Symbol → Trail → Prop
  | here {s : Symbol} (stops : p.importOf? s = none) : Leads p s ⟨s, p.wholeImport s⟩
  | next {s : Symbol} {ways : List Way} {name : String} {trail rest : Trail}
      (imported : p.importOf? s = some (ways, name))
      (found : p.reference [] ways name = some trail) (others : Leads p trail.symbol rest) :
      Leads p s (rest.after trail.hops)

/-- `p.Walk s trail spent`: following imports from a symbol, each by the plain search, leads along a
trail to a symbol that is no import of one name, after `spent` lookups in all. -/
inductive Walk (p : Program) : Symbol → Trail → Nat → Prop
  | here {s : Symbol} (stops : p.importOf? s = none) : Walk p s ⟨s, p.wholeImport s⟩ 0
  | next {s : Symbol} {ways : List Way} {name : String} {trail rest : Trail} {n k : Nat}
      (imported : p.importOf? s = some (ways, name))
      (search : p.Search ways name (some trail) n) (others : Walk p trail.symbol rest k) :
      Walk p s (rest.after trail.hops) (n + k)

/-- Following imports has one outcome: at each import the reference decides where it goes on. -/
theorem Leads.unique {s : Symbol} {a b : Trail} (left : p.Leads s a) (right : p.Leads s b) :
    a = b := by
  induction left generalizing b with
  | here stops =>
    cases right with
    | here => rfl
    | next imported _ _ => simp [stops] at imported
  | next imported found _ ih =>
    cases right with
    | here stops => simp [imported] at stops
    | next imported' found' others =>
      obtain ⟨rfl, rfl⟩ := Prod.mk.inj (Option.some.inj (imported.symm.trans imported'))
      obtain rfl := Option.some.inj (found.symm.trans found')
      rw [ih others]

/-- Following imports ends at a symbol that is no import of one name. -/
theorem Leads.importOf?_symbol {s : Symbol} {trail : Trail} (leads : p.Leads s trail) :
    p.importOf? trail.symbol = none := by
  induction leads with
  | here stops => exact stops
  | next _ _ _ ih => exact ih

namespace Walk

/-- A walk goes where the reference leads. -/
theorem leads {s : Symbol} {trail : Trail} {n : Nat} (walk : p.Walk s trail n) :
    p.Leads s trail := by
  induction walk with
  | here stops => exact .here stops
  | next imported search _ ih => exact .next imported (search.reference_eq .nil) ih

/-- What a walk costs is determined. -/
theorem unique {s : Symbol} {a b : Trail} {n k : Nat} (left : p.Walk s a n)
    (right : p.Walk s b k) : n = k := by
  induction left generalizing b k with
  | here stops =>
    cases right with
    | here => rfl
    | next imported _ _ => simp [stops] at imported
  | next imported search _ ih =>
    cases right with
    | here stops => simp [imported] at stops
    | next imported' search' others =>
      obtain ⟨rfl, rfl⟩ := Prod.mk.inj (Option.some.inj (imported.symm.trans imported'))
      obtain ⟨same, rfl⟩ := search.unique search'
      obtain rfl := Option.some.inj same
      rw [ih others]

/-- A trail has no more lookups than the walk along it. -/
theorem lookups_le {s : Symbol} {trail : Trail} {n : Nat} (walk : p.Walk s trail n) :
    trail.lookups ≤ n := by
  induction walk with
  | @here s stops =>
    simp only [Trail.lookups, wholeImport]
    split <;> simp [Hop.isLookup]
  | @next s ways name trail rest n k imported search _ ih =>
    obtain ⟨w, mem, hops, eq⟩ := search.exists_hops_eq
    have length_le := search.length_hops_le
    -- The first hop is the import itself, which is no lookup.
    have first : w.hop.isLookup = false := by
      obtain ⟨_, _, _, -, rfl⟩ := importOf?_eq_some_iff.1 imported
      obtain ⟨m, -, rfl⟩ := List.mem_map.mp mem
      rfl
    have tail_le : hops.countP Hop.isLookup ≤ hops.length := List.countP_le_length
    rw [eq, List.length_cons] at length_le
    simp only [Trail.lookups, Trail.hops_after, List.countP_append, eq] at ih ⊢
    rw [List.countP_cons_of_neg (by simp [first])]
    omega

end Walk

/-! ### The functions without their tests -/

/-- The flag with which a lookup begins changes neither its answer nor its cost. -/
theorem resolveWays_congr (budget : Nat) (ways : List Way) (name : String) (a b : Bool) :
    (p.resolveWays budget ways name a).symbol = (p.resolveWays budget ways name b).symbol ∧
      (p.resolveWays budget ways name a).left = (p.resolveWays budget ways name b).left := by
  rcases search_or_exhausted (p := p) budget ways name with ⟨answer, n, le, search⟩ | out
  · have left := resolveWays_of_search search le a
    have right := resolveWays_of_search search le b
    exact ⟨left.symbol_eq.trans right.symbol_eq.symm, left.left_eq.trans right.left_eq.symm⟩
  · exact ⟨(out a).1.trans (out b).1.symm, (out a).2.trans (out b).2.symm⟩

/-- The same for a lookup in one module. -/
theorem resolveExport_congr (budget : Nat) (m : ModuleId) (name : String) (a b : Bool) :
    (p.resolveExport budget m name a).symbol = (p.resolveExport budget m name b).symbol ∧
      (p.resolveExport budget m name a).left = (p.resolveExport budget m name b).left := by
  -- A way without a mark turns the lookup into one along ways.
  have single (c : Bool) :=
    resolveWays_singleton (p := p) budget ⟨⟨.starExport, m, false⟩, m⟩ name c
  have unmarked (c : Bool) : (c || (⟨.starExport, m, false⟩ : Hop).kept) = c := by simp [Hop.kept]
  obtain ⟨symbol_a, left_a, -⟩ := single a
  obtain ⟨symbol_b, left_b, -⟩ := single b
  rw [unmarked] at symbol_a left_a symbol_b left_b
  obtain ⟨symbol_eq, left_eq⟩ := resolveWays_congr (p := p) budget [⟨⟨.starExport, m, false⟩, m⟩]
    name a b
  exact ⟨symbol_a.trans (symbol_eq.trans symbol_b.symm), left_a.trans (left_eq.trans left_b.symm)⟩

/-- A lookup in the target of a way is the lookup along that way, whatever the flag. -/
theorem resolveExport_target (budget : Nat) (w : Way) (name : String) (typeOnly : Bool) :
    (p.resolveExport budget w.target name typeOnly).symbol
        = (p.resolveWays budget [w] name false).symbol ∧
      (p.resolveExport budget w.target name typeOnly).left
        = (p.resolveWays budget [w] name false).left := by
  obtain ⟨symbol_eq, left_eq⟩ := resolveExport_congr (p := p) budget w.target name typeOnly
    (false || w.hop.kept)
  obtain ⟨symbol_eq', left_eq', -⟩ := resolveWays_singleton (p := p) budget w name false
  exact ⟨symbol_eq.trans symbol_eq', left_eq.trans left_eq'⟩

/-- A search with an answer has looked something up. -/
theorem Search.pos {ways : List Way} {name : String} {trail : Trail} {n : Nat}
    (search : p.Search ways name (some trail) n) : 0 < n := by
  cases search <;> omega

/-- A lookup with an answer has less left than it began with. -/
theorem left_resolveWays_lt {budget : Nat} {ways : List Way} {name : String} {typeOnly : Bool}
    {t : Symbol} (answered : (p.resolveWays budget ways name typeOnly).symbol = some t) :
    (p.resolveWays budget ways name typeOnly).left < budget := by
  rcases search_or_exhausted (p := p) budget ways name with ⟨answer, n, le, search⟩ | out
  · have reports := resolveWays_of_search search le typeOnly
    rw [reports.symbol_eq] at answered
    obtain ⟨trail, rfl, -⟩ := Option.map_eq_some_iff.mp answered
    have := search.pos
    rw [reports.left_eq]
    omega
  · rw [(out typeOnly).1] at answered
    cases answered

/-- A symbol that is no import of one name is where following ends. -/
theorem follow_of_importOf?_eq_none {s : Symbol} (stops : p.importOf? s = none) (budget : Nat) :
    p.follow budget s = some s := by
  rw [follow]
  cases declared : p.declaration? s with
  | none => rfl
  | some d =>
    cases d with
    | imported id source what typeOnly =>
      cases what with
      | named name => exact absurd declared (importOf?_eq_none_iff.1 stops _ _ _ _)
      | everything => rfl
    | typeAlias | interfaceDecl | classDecl | enumDecl => rfl

/-- Following an import is looking its name up and following what is found with the lookups that are
left. -/
theorem follow_of_importOf? {s : Symbol} {ways : List Way} {name : String}
    (imported : p.importOf? s = some (ways, name)) (budget : Nat) :
    p.follow budget s = (p.resolveWays budget ways name false).symbol.bind
      (p.follow (p.resolveWays budget ways name false).left) := by
  obtain ⟨id, source, typeOnly, declared, rfl⟩ := importOf?_eq_some_iff.1 imported
  rw [follow, declared]
  cases source with
  | none => simp [resolveWays, Outcome.done]
  | some m =>
    obtain ⟨symbol_eq, left_eq⟩ := resolveExport_target (p := p) budget
      ⟨⟨.importBinding, s.module, typeOnly⟩, m⟩ name false
    simp only [Option.toList_some, List.map_cons, List.map_nil, symbol_eq, left_eq]
    cases answer : (p.resolveWays budget [⟨⟨.importBinding, s.module, typeOnly⟩, m⟩] name
        false).symbol with
    | none => rfl
    | some t =>
      -- Fewer lookups are left, so the loop goes on.
      simp only [if_pos (left_resolveWays_lt answer), Option.bind_some]

/-- Following leads to a symbol exactly by a walk whose cost is within the budget. -/
theorem follow_eq_some_iff {budget : Nat} {s t : Symbol} :
    p.follow budget s = some t ↔ ∃ trail n, p.Walk s trail n ∧ trail.symbol = t ∧ n ≤ budget := by
  constructor
  · intro followed
    -- What is found is followed with fewer lookups.
    induction budget using Nat.strong_induction_on generalizing s with
    | _ budget ih =>
      cases imported : p.importOf? s with
      | none =>
        rw [follow_of_importOf?_eq_none imported] at followed
        obtain rfl := Option.some.inj followed
        exact ⟨_, 0, .here imported, rfl, Nat.zero_le _⟩
      | some pair =>
        obtain ⟨ways, name⟩ := pair
        rw [follow_of_importOf? imported, Option.bind_eq_some_iff] at followed
        obtain ⟨u, answered, followed⟩ := followed
        obtain ⟨rest, k, walk, rfl, le⟩ := ih _ (left_resolveWays_lt answered) followed
        rcases search_or_exhausted (p := p) budget ways name with ⟨answer, n, le', search⟩ | out
        · have reports := resolveWays_of_search search le' false
          rw [reports.symbol_eq] at answered
          obtain ⟨trail, rfl, rfl⟩ := Option.map_eq_some_iff.mp answered
          rw [reports.left_eq] at le
          exact ⟨_, n + k, .next imported search walk, rfl, by omega⟩
        · rw [(out false).1] at answered
          cases answered
  · rintro ⟨trail, n, walk, rfl, le⟩
    induction walk generalizing budget with
    | here stops => exact follow_of_importOf?_eq_none stops budget
    | next imported search _ ih =>
      have reports := resolveWays_of_search search (Nat.le_trans (Nat.le_add_right _ _) le) false
      rw [follow_of_importOf? imported, reports.symbol_eq, reports.left_eq]
      exact ih (by omega)

/-- A symbol is the alias of another one exactly if it is an import of one name from which a walk
whose cost is within the bound leads there. -/
theorem aliased?_eq_some_iff {s t : Symbol} :
    p.aliased? s = some t ↔ (p.importOf? s).isSome ∧
      ∃ trail n, p.Walk s trail n ∧ trail.symbol = t ∧ n ≤ maxHops := by
  rw [aliased?, Option.filter_eq_some_iff, follow_eq_some_iff]
  constructor
  · rintro ⟨⟨trail, n, walk, rfl, le⟩, differs⟩
    refine ⟨?_, trail, n, walk, rfl, le⟩
    cases walk with
    | here stops => simp at differs
    | next imported _ _ => rw [imported]; rfl
  · rintro ⟨isSome, trail, n, walk, rfl, le⟩
    refine ⟨⟨trail, n, walk, rfl, le⟩, ?_⟩
    -- The end is no import of one name, so it is not where following began.
    have stops := walk.leads.importOf?_symbol
    have : trail.symbol ≠ s := by
      rintro rfl
      simp [stops] at isSome
    simpa using this

/-! ### Marks -/

/-- At a symbol that is no import of one name, only the mark of the import of a whole module
counts. -/
theorem marked_of_importOf?_eq_none {s : Symbol} (stops : p.importOf? s = none) (budget : Nat) :
    p.marked budget s = (p.wholeImport s).any Hop.kept := by
  rw [marked]
  unfold wholeImport
  cases declared : p.declaration? s with
  | none => rfl
  | some d =>
    cases d with
    | imported id source what typeOnly =>
      cases what with
      | named name => exact absurd declared (importOf?_eq_none_iff.1 stops _ _ _ _)
      | everything => cases source <;> simp [Hop.kept]
    | typeAlias | interfaceDecl | classDecl | enumDecl => rfl

/-- The flag of an import that is found is the one of its lookup or that of what is found. -/
theorem marked_of_importOf? {s t : Symbol} {ways : List Way} {name : String} {budget : Nat}
    (imported : p.importOf? s = some (ways, name))
    (answered : (p.resolveWays budget ways name false).symbol = some t) :
    p.marked budget s = ((p.resolveWays budget ways name false).typeOnly ||
      p.marked (p.resolveWays budget ways name false).left t) := by
  obtain ⟨id, source, typeOnly, declared, rfl⟩ := importOf?_eq_some_iff.1 imported
  rw [marked, declared]
  cases source with
  | none => simp [resolveWays, Outcome.done] at answered
  | some m =>
    have kept : (⟨.importBinding, s.module, typeOnly⟩ : Hop).kept = typeOnly := by simp [Hop.kept]
    obtain ⟨symbol_eq, left_eq, flag_eq⟩ := resolveWays_singleton (p := p) budget
      ⟨⟨.importBinding, s.module, typeOnly⟩, m⟩ name false
    simp only [Option.toList_some, List.map_cons, List.map_nil] at answered ⊢
    rw [kept, Bool.false_or] at symbol_eq left_eq flag_eq
    have flag_eq := flag_eq (by rw [answered]; rfl)
    simp only [symbol_eq, left_eq, flag_eq, answered, if_pos (left_resolveWays_lt answered)]

/-- Along a walk whose cost is within the budget, the flag gathers the marks that are kept. -/
theorem marked_of_walk {s : Symbol} {trail : Trail} {n : Nat} (walk : p.Walk s trail n)
    {budget : Nat} (enough : n ≤ budget) : p.marked budget s = trail.hops.any Hop.kept := by
  -- Each import adds the marks of its own lookup to those found behind it.
  induction walk generalizing budget with
  | here stops => exact marked_of_importOf?_eq_none stops budget
  | next imported search _ ih =>
    have reports := resolveWays_of_search search (Nat.le_trans (Nat.le_add_right _ _) enough) false
    rw [marked_of_importOf? imported reports.symbol_eq, reports.typeOnly_eq _ rfl, reports.left_eq,
      ih (by omega)]
    simp

/-! ### The functions as loops -/

/-- One round of the loops that follow imports, from a symbol with a budget to the next one with
what is left: the symbol is an import of one name, and the name leads to the next symbol. `typeOnly`
is the flag of the lookup. -/
def Round (p : Program) (x y : Symbol × Nat) (typeOnly : Bool) : Prop :=
  ∃ id m name mark, p.declaration? x.1 = some (.imported id (some m) (.named name) mark) ∧
    (p.resolveExport x.2 m name mark).symbol = some y.1 ∧
    (p.resolveExport x.2 m name mark).left = y.2 ∧
    (p.resolveExport x.2 m name mark).typeOnly = typeOnly

/-- A number of rounds, and whether one of their flags is set. -/
inductive Rounds (p : Program) : Symbol × Nat → Nat → Symbol × Nat → Bool → Prop
  | zero {x : Symbol × Nat} : Rounds p x 0 x false
  | next {x y z : Symbol × Nat} {k : Nat} {typeOnly typeOnly' : Bool}
      (round : p.Round x y typeOnly) (others : Rounds p y k z typeOnly') :
      Rounds p x (k + 1) z (typeOnly || typeOnly')

/-- A round is a lookup along the ways of the import. -/
theorem round_iff {x y : Symbol × Nat} {typeOnly : Bool} :
    p.Round x y typeOnly ↔ ∃ ways name, p.importOf? x.1 = some (ways, name) ∧
      (p.resolveWays x.2 ways name false).symbol = some y.1 ∧
      (p.resolveWays x.2 ways name false).left = y.2 ∧
      (p.resolveWays x.2 ways name false).typeOnly = typeOnly := by
  have single (m : ModuleId) (name : String) (mark : Bool) := resolveWays_singleton (p := p) x.2
    ⟨⟨.importBinding, x.1.module, mark⟩, m⟩ name false
  have kept (mark : Bool) : (false || (⟨.importBinding, x.1.module, mark⟩ : Hop).kept) = mark := by
    simp [Hop.kept]
  constructor
  · rintro ⟨id, m, name, mark, declared, answered, left, flag⟩
    obtain ⟨symbol_eq, left_eq, flag_eq⟩ := single m name mark
    rw [kept] at symbol_eq left_eq flag_eq
    have answered' := symbol_eq.symm.trans answered
    have imported := importOf?_eq_some_iff.2 ⟨id, some m, mark, declared, rfl⟩
    refine ⟨_, name, imported, answered', left_eq.symm.trans left, ?_⟩
    exact (flag_eq (by rw [answered']; rfl)).symm.trans flag
  · rintro ⟨ways, name, imported, answered, left, flag⟩
    obtain ⟨id, source, mark, declared, rfl⟩ := importOf?_eq_some_iff.1 imported
    cases source with
    | none => simp [resolveWays, Outcome.done] at answered
    | some m =>
      simp only [Option.toList_some, List.map_cons, List.map_nil] at answered left flag
      obtain ⟨symbol_eq, left_eq, flag_eq⟩ := single m name mark
      rw [kept] at symbol_eq left_eq flag_eq
      exact ⟨id, m, name, mark, declared, symbol_eq.trans answered, left_eq.trans left,
        (flag_eq (by rw [answered]; rfl)).trans flag⟩

/-- Both loops end after the same rounds, of which there are no more than the budget has lookups.
The one answers with the symbol it has come to, unless that is still an import of one name, the
other with the flags it has met. -/
theorem exists_rounds (budget : Nat) (s : Symbol) :
    ∃ k ≤ budget, ∃ last typeOnly, p.Rounds (s, budget) k last typeOnly ∧
      (∀ y flag, ¬ p.Round last y flag) ∧
      p.follow budget s = (if (p.importOf? last.1).isSome then none else some last.1) ∧
      p.marked budget s = (typeOnly || p.marked last.2 last.1) := by
  induction budget using Nat.strong_induction_on generalizing s with
  | _ budget ih =>
    cases imported : p.importOf? s with
    | none =>
      refine ⟨0, Nat.zero_le _, (s, budget), false, .zero, fun y flag round => ?_, ?_, ?_⟩
      · obtain ⟨ways, name, imported', -⟩ := round_iff.1 round
        simp [imported] at imported'
      · rw [follow_of_importOf?_eq_none imported, imported]
        rfl
      · rw [Bool.false_or]
    | some pair =>
      obtain ⟨ways, name⟩ := pair
      cases answer : (p.resolveWays budget ways name false).symbol with
      | none =>
        -- The lookup fails, and both loops stop at the import.
        refine ⟨0, Nat.zero_le _, (s, budget), false, .zero, fun y flag round => ?_, ?_, ?_⟩
        · obtain ⟨ways', name', imported', answered, -⟩ := round_iff.1 round
          obtain ⟨rfl, rfl⟩ := Prod.mk.inj (Option.some.inj (imported.symm.trans imported'))
          simp [answer] at answered
        · rw [follow_of_importOf? imported, answer, imported]
          rfl
        · rw [Bool.false_or]
      | some t =>
        -- One round, and then those that what is left allows.
        have less := left_resolveWays_lt answer
        obtain ⟨k, le, last, typeOnly, rounds, stops, followed, flag⟩ := ih _ less t
        have round : p.Round (s, budget) (t, (p.resolveWays budget ways name false).left)
            (p.resolveWays budget ways name false).typeOnly :=
          round_iff.2 ⟨ways, name, imported, answer, rfl, rfl⟩
        refine ⟨k + 1, by omega, last, _, .next round rounds, stops, ?_, ?_⟩
        · rw [follow_of_importOf? imported, answer, Option.bind_some, followed]
        · rw [marked_of_importOf? imported answer, flag, Bool.or_assoc]

end TypedProps.Program
