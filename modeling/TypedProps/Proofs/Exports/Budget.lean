import TypedProps.Proofs.Exports.Search

/-!
# `TypedProps.Proofs.Exports.Budget`: lookups with a budget

`Program.resolveExport` stops when its budget is used up, and all branches of a lookup draw on one
budget. The theorems here say what that comes to.

* `resolveWays_of_search`: a search whose cost is within the budget is carried out in full. The
  answer is the one of the search, the cost is what is taken from the budget, and the flag gathers
  the marks that the resolver keeps, from the trail and from nowhere else.
* `search_or_exhausted`: a lookup that is not such a search has no answer, and nothing of its budget
  is left. So running out in one branch never lets a later branch decide.

`resolveWays` puts the two functions of the resolver into one: a lookup along some ways, of which an
export from another module has one and a module that is passed on as a whole has many.
-/

set_option autoImplicit false

namespace TypedProps.Program

variable {p : Program}

/-- Looks a name up along some ways; the first that leads to a symbol decides. -/
def resolveWays (p : Program) : (budget : Nat) → List Way → String → Bool → Outcome budget
  | budget, [], _, typeOnly => .done budget none typeOnly
  | budget, w :: rest, name, typeOnly =>
    let first := p.resolveExport budget w.target name (typeOnly || w.hop.kept)
    if first.symbol.isSome then first
    else .widen first.left_le (resolveWays p first.left rest name typeOnly)

/-- The first way decides if it leads to a symbol. -/
theorem resolveWays_cons_of_isSome {budget : Nat} {w : Way} {name : String} {typeOnly : Bool}
    (answered : (p.resolveExport budget w.target name (typeOnly || w.hop.kept)).symbol.isSome)
    (rest : List Way) :
    p.resolveWays budget (w :: rest) name typeOnly
      = p.resolveExport budget w.target name (typeOnly || w.hop.kept) := by
  rw [resolveWays]
  exact if_pos answered

/-- If the first way leads to no symbol, the others are looked along with what it has left. -/
theorem resolveWays_cons_of_eq_none {budget : Nat} {w : Way} {name : String} {typeOnly : Bool}
    (unanswered : (p.resolveExport budget w.target name (typeOnly || w.hop.kept)).symbol = none)
    (rest : List Way) :
    p.resolveWays budget (w :: rest) name typeOnly
      = .widen (p.resolveExport budget w.target name (typeOnly || w.hop.kept)).left_le
          (p.resolveWays (p.resolveExport budget w.target name (typeOnly || w.hop.kept)).left rest
            name typeOnly) := by
  rw [resolveWays]
  exact if_neg (by simp [unanswered])

/-! ### One lookup of the resolver -/

/-- Two outcomes that agree, except that the flags may differ when there is no answer. -/
def Outcome.Agrees {budget : Nat} (a b : Outcome budget) : Prop :=
  a.symbol = b.symbol ∧ a.left = b.left ∧ (b.symbol.isSome → a.typeOnly = b.typeOnly)

/-- An outcome agrees with itself. -/
theorem Outcome.Agrees.refl {budget : Nat} (a : Outcome budget) : a.Agrees a :=
  ⟨rfl, rfl, fun _ => rfl⟩

/-- Outcomes still agree as parts of a lookup with more hops. -/
theorem Outcome.Agrees.widen {small large : Nat} {a b : Outcome small} (le : small ≤ large)
    (agrees : a.Agrees b) : (Outcome.widen le a).Agrees (.widen le b) := agrees

/-- Looking along a single way is looking the name up in its target. -/
theorem resolveWays_singleton (budget : Nat) (w : Way) (name : String) (typeOnly : Bool) :
    (p.resolveExport budget w.target name (typeOnly || w.hop.kept)).Agrees
      (p.resolveWays budget [w] name typeOnly) := by
  cases answer : (p.resolveExport budget w.target name (typeOnly || w.hop.kept)).symbol with
  | some s =>
    rw [resolveWays_cons_of_isSome (by simp [answer])]
    exact .refl _
  | none =>
    rw [resolveWays_cons_of_eq_none answer, resolveWays]
    exact ⟨answer, rfl, fun absent => by simp [Outcome.widen, Outcome.done] at absent⟩

/-- Along ways without marks that are kept, `resolveAny` looks up as `resolveWays` does. -/
theorem resolveAny_map_target {ways : List Way} (unmarked : ∀ w ∈ ways, w.hop.kept = false)
    (budget : Nat) (name : String) (typeOnly : Bool) :
    p.resolveAny budget (ways.map Way.target) name typeOnly
      = p.resolveWays budget ways name typeOnly := by
  induction ways generalizing budget with
  | nil => rw [List.map_nil, resolveAny, resolveWays]
  | cons w rest ih =>
    have head : w.hop.kept = false := unmarked w List.mem_cons_self
    have tail := ih fun w' mem => unmarked w' (List.mem_cons_of_mem _ mem)
    rw [List.map_cons, resolveAny, resolveWays, head, Bool.or_false]
    simp only [tail]

/-- Without a budget there is no lookup. -/
theorem resolveExport_zero (m : ModuleId) (name : String) (typeOnly : Bool) :
    p.resolveExport 0 m name typeOnly = .done 0 none typeOnly := by
  rw [resolveExport]

/-- A lookup of a name that the module binds takes one from the budget. -/
theorem resolveExport_succ_of_declared {m : ModuleId} {name : String} {symbol : Option Symbol}
    {hop : Hop} (found : p.finding m name = .declared symbol hop) (left : Nat) (typeOnly : Bool) :
    p.resolveExport (left + 1) m name typeOnly
      = .widen (Nat.le_succ left) (.done left symbol typeOnly) := by
  unfold finding at found
  rw [resolveExport]
  cases there : p.module? m with
  | none => simp [there] at found
  | some module =>
    simp only [there, ← module.map_fst_written? name] at found ⊢
    -- Only what the module binds itself is declared there; a name that it takes from elsewhere is
    -- found otherwise.
    cases written : module.written? name with
    | none =>
      simp only [written] at found
      split at found <;> cases found
    | some pair =>
      obtain ⟨entry, mark⟩ := pair
      cases entry with
      | own own =>
        simp only [written, Finding.declared.injEq] at found
        obtain ⟨rfl, -⟩ := found
        rfl
      | reexport source inner marked => simp [written] at found

/-- A lookup that goes on elsewhere takes one from the budget, and is then the lookup along the ways
by which it goes on. -/
theorem resolveExport_succ_of_elsewhere {m : ModuleId} {name inner : String} {ways : List Way}
    (found : p.finding m name = .elsewhere ways inner) (left : Nat) (typeOnly : Bool) :
    (p.resolveExport (left + 1) m name typeOnly).Agrees
      (.widen (Nat.le_succ left) (p.resolveWays left ways inner typeOnly)) := by
  unfold finding at found
  rw [resolveExport]
  cases there : p.module? m with
  | none =>
    simp only [there, Finding.elsewhere.injEq] at found
    obtain ⟨rfl, rfl⟩ := found
    exact .refl _
  | some module =>
    simp only [there, ← module.map_fst_written? name] at found ⊢
    cases written : module.written? name with
    | none =>
      simp only [written, Option.map_none] at found ⊢
      split at found
      · rename_i isDefault
        obtain ⟨rfl, rfl⟩ := Finding.elsewhere.inj found
        rw [if_pos isDefault]
        exact .refl _
      · -- The resolver has no marks on stars, and would not keep them.
        rename_i notDefault
        obtain ⟨rfl, rfl⟩ := Finding.elsewhere.inj found
        have unmarked : ∀ w ∈ module.writtenStars.map fun s => (⟨⟨.starExport, m, s.2⟩, s.1⟩ : Way),
            w.hop.kept = false := by
          intro w mem
          obtain ⟨s, -, rfl⟩ := List.mem_map.mp mem
          simp [Hop.kept]
        have targets : module.starTargets = (module.writtenStars.map fun s =>
            (⟨⟨.starExport, m, s.2⟩, s.1⟩ : Way)).map Way.target := by
          rw [← module.map_fst_writtenStars, List.map_map]
          rfl
        rw [if_neg notDefault, targets, resolveAny_map_target unmarked]
        exact .refl _
    | some pair =>
      obtain ⟨entry, mark⟩ := pair
      cases entry with
      | own own => simp [written] at found
      | reexport source inner' marked =>
        simp only [written, Finding.elsewhere.injEq] at found
        obtain ⟨rfl, rfl⟩ := found
        obtain ⟨item, -, e, mem, entry⟩ := LoadedModule.exists_of_written? written
        obtain rfl := LoadedModule.typeOnly_of_mem_writtenExports mem entry
        -- The mark of the entry is the one on the single way behind it.
        cases source with
        | none =>
          refine ⟨rfl, rfl, fun absent => ?_⟩
          simp [resolveWays, Outcome.widen, Outcome.done] at absent
        | some next =>
          have single := resolveWays_singleton (p := p) left ⟨⟨.reexport, m, mark⟩, next⟩ inner'
            typeOnly
          have kept : (⟨.reexport, m, mark⟩ : Hop).kept = mark := by simp [Hop.kept]
          rw [kept] at single
          exact single.widen _

/-! ### Searches within the budget -/

/-- The outcome of a lookup that is a search: its answer, its cost, and the marks on its trail that
are kept. -/
structure Outcome.Reports {budget : Nat} (o : Outcome budget) (typeOnly : Bool)
    (answer : Option Trail) (spent : Nat) : Prop where
  symbol_eq : o.symbol = answer.map Trail.symbol
  left_eq : o.left = budget - spent
  typeOnly_eq : ∀ trail, answer = some trail → o.typeOnly = (typeOnly || trail.hops.any Hop.kept)

/-- A name that a module binds is exported by a hop whose mark is not kept. -/
theorem kept_eq_false_of_declared {m : ModuleId} {name : String} {symbol : Option Symbol}
    {hop : Hop} (found : p.finding m name = .declared symbol hop) : hop.kept = false := by
  unfold finding at found
  split at found
  · cases found
  · split at found
    · obtain ⟨-, rfl⟩ := Finding.declared.inj found
      simp [Hop.kept]
    · cases found
    · split at found <;> cases found

/-- Behind a way that led nowhere, the outcome is the one along the other ways. -/
theorem Outcome.Reports.cons {budget : Nat} {w : Way} {rest : List Way} {name : String}
    {typeOnly : Bool} {answer : Option Trail} {c k : Nat}
    (unanswered : (p.resolveExport budget w.target name (typeOnly || w.hop.kept)).symbol = none)
    (spent : (p.resolveExport budget w.target name (typeOnly || w.hop.kept)).left = budget - c)
    (others : (p.resolveWays (p.resolveExport budget w.target name (typeOnly || w.hop.kept)).left
      rest name typeOnly).Reports typeOnly answer k) :
    (p.resolveWays budget (w :: rest) name typeOnly).Reports typeOnly answer (c + k) := by
  rw [resolveWays_cons_of_eq_none unanswered]
  refine ⟨others.symbol_eq, others.left_eq.trans ?_, others.typeOnly_eq⟩
  rw [spent]
  omega

/-- A search whose cost is within the budget is carried out in full. -/
theorem resolveWays_of_search {ways : List Way} {name : String} {answer : Option Trail} {n : Nat}
    (search : p.Search ways name answer n) {budget : Nat} (enough : n ≤ budget) (typeOnly : Bool) :
    (p.resolveWays budget ways name typeOnly).Reports typeOnly answer n := by
  -- The flag gathers the marks on the way to a lookup, the budget is what is left there.
  induction search generalizing budget typeOnly with
  | nil =>
    rw [resolveWays]
    exact ⟨rfl, rfl, fun trail absent => by cases absent⟩
  | @declared w rest name s hop found =>
    obtain ⟨left, rfl⟩ := Nat.exists_eq_add_of_le' enough
    have first := resolveExport_succ_of_declared found left (typeOnly || w.hop.kept)
    rw [resolveWays_cons_of_isSome (by rw [first]; rfl), first]
    refine ⟨rfl, rfl, fun trail eq => ?_⟩
    obtain rfl := Option.some.inj eq
    simp [Outcome.widen, Outcome.done, kept_eq_false_of_declared found]
  | @undeclared w rest name hop answer n found others ih =>
    obtain ⟨left, rfl⟩ : ∃ left, budget = left + 1 := ⟨budget - 1, by omega⟩
    have first := resolveExport_succ_of_declared found left (typeOnly || w.hop.kept)
    have spent : (p.resolveExport (left + 1) w.target name (typeOnly || w.hop.kept)).left
        = left + 1 - 1 := by
      rw [first]
      rfl
    rw [Nat.add_comm n 1]
    exact .cons (by rw [first]; rfl) spent (ih (by omega) typeOnly)
  | @through w rest next name inner trail n found inside ih =>
    obtain ⟨left, rfl⟩ : ∃ left, budget = left + 1 := ⟨budget - 1, by omega⟩
    obtain ⟨symbol_eq, left_eq, flag_eq⟩ :=
      resolveExport_succ_of_elsewhere found left (typeOnly || w.hop.kept)
    have le : n ≤ left := Nat.le_of_succ_le_succ enough
    obtain ⟨symbol_eq', left_eq', flag_eq'⟩ := ih le (typeOnly || w.hop.kept)
    have answered : (p.resolveExport (left + 1) w.target name
        (typeOnly || w.hop.kept)).symbol = some trail.symbol := symbol_eq.trans symbol_eq'
    -- The first way answers, so the others are not tried.
    rw [resolveWays_cons_of_isSome (by rw [answered]; rfl)]
    refine ⟨answered, ?_, fun trail' eq => ?_⟩
    · have : left - n = left + 1 - (n + 1) := by omega
      exact (left_eq.trans left_eq').trans this
    · obtain rfl := Option.some.inj eq
      have isSome : (p.resolveWays left next inner (typeOnly || w.hop.kept)).symbol.isSome := by
        rw [symbol_eq']
        rfl
      rw [flag_eq isSome]
      show (p.resolveWays left next inner (typeOnly || w.hop.kept)).typeOnly = _
      rw [flag_eq' trail rfl]
      simp [Bool.or_assoc]
  | @abandoned w rest next name inner answer n k found inside others ih ihOthers =>
    obtain ⟨left, rfl⟩ : ∃ left, budget = left + 1 := ⟨budget - 1, by omega⟩
    obtain ⟨symbol_eq, left_eq, -⟩ :=
      resolveExport_succ_of_elsewhere found left (typeOnly || w.hop.kept)
    have le : n ≤ left := by omega
    obtain ⟨symbol_eq', left_eq', -⟩ := ih le (typeOnly || w.hop.kept)
    have spent : (p.resolveExport (left + 1) w.target name (typeOnly || w.hop.kept)).left
        = left + 1 - (n + 1) := by
      have : left - n = left + 1 - (n + 1) := by omega
      exact (left_eq.trans left_eq').trans this
    -- The marks inside are forgotten: the others begin with the flag of the start.
    exact .cons (symbol_eq.trans symbol_eq') spent (ihOthers (by omega) typeOnly)

/-! ### Running out -/

/-- A lookup without an answer that has used up its budget. -/
def Outcome.Exhausted {budget : Nat} (o : Outcome budget) : Prop := o.symbol = none ∧ o.left = 0

/-- Behind a way that led nowhere, running out along the others is running out. -/
theorem Outcome.Exhausted.cons {budget : Nat} {w : Way} {rest : List Way} {name : String}
    {typeOnly : Bool}
    (unanswered : (p.resolveExport budget w.target name (typeOnly || w.hop.kept)).symbol = none)
    (others : (p.resolveWays (p.resolveExport budget w.target name (typeOnly || w.hop.kept)).left
      rest name typeOnly).Exhausted) :
    (p.resolveWays budget (w :: rest) name typeOnly).Exhausted := by
  rw [resolveWays_cons_of_eq_none unanswered]
  exact others

/-- Without a budget, looking along ways finds nothing. -/
theorem resolveWays_exhausted_of_eq_zero {budget : Nat} (zero : budget = 0) (ways : List Way)
    (name : String) (typeOnly : Bool) : (p.resolveWays budget ways name typeOnly).Exhausted := by
  subst zero
  induction ways with
  | nil =>
    rw [resolveWays]
    exact ⟨rfl, rfl⟩
  | cons w rest ih =>
    have first := resolveExport_zero (p := p) w.target name (typeOnly || w.hop.kept)
    refine .cons (by rw [first]; rfl) ?_
    rw [first]
    exact ih

/-- A lookup is a search whose cost is within the budget, or it runs out. -/
theorem search_or_exhausted (budget : Nat) (ways : List Way) (name : String) :
    (∃ answer n, n ≤ budget ∧ p.Search ways name answer n) ∨
      ∀ typeOnly, (p.resolveWays budget ways name typeOnly).Exhausted := by
  -- Each lookup takes one from the budget, so what follows a lookup has a smaller one.
  induction budget using Nat.strong_induction_on generalizing ways name with
  | _ budget ih =>
    cases ways with
    | nil => exact Or.inl ⟨none, 0, Nat.zero_le _, .nil⟩
    | cons w rest =>
      cases budget with
      | zero => exact Or.inr fun typeOnly => resolveWays_exhausted_of_eq_zero rfl _ _ _
      | succ left =>
        cases found : p.finding w.target name with
        | declared symbol hop =>
          cases symbol with
          | some s => exact Or.inl ⟨_, 1, Nat.succ_pos left, .declared found⟩
          | none =>
            rcases ih left (Nat.lt_succ_self left) rest name with ⟨answer, n, le, others⟩ | out
            · exact Or.inl ⟨answer, n + 1, Nat.succ_le_succ le, .undeclared found others⟩
            · refine Or.inr fun typeOnly => ?_
              have first := resolveExport_succ_of_declared found left (typeOnly || w.hop.kept)
              refine .cons (by rw [first]; rfl) ?_
              rw [first]
              exact out typeOnly
        | elsewhere next inner =>
          rcases ih left (Nat.lt_succ_self left) next inner with ⟨answer, n, le, inside⟩ | out
          · cases answer with
            | some trail => exact Or.inl ⟨_, n + 1, Nat.succ_le_succ le, .through found inside⟩
            | none =>
              rcases ih (left - n) (by omega) rest name with ⟨answer, k, le', others⟩ | out
              · exact Or.inl ⟨answer, n + 1 + k, by omega, .abandoned found inside others⟩
              · refine Or.inr fun typeOnly => ?_
                obtain ⟨symbol_eq, left_eq, -⟩ :=
                  resolveExport_succ_of_elsewhere found left (typeOnly || w.hop.kept)
                obtain ⟨symbol_eq', left_eq', -⟩ :=
                  resolveWays_of_search inside le (typeOnly || w.hop.kept)
                refine .cons (symbol_eq.trans symbol_eq') ?_
                rw [left_eq.trans left_eq']
                exact out typeOnly
          · -- What runs out inside leaves nothing for the other ways.
            refine Or.inr fun typeOnly => ?_
            obtain ⟨symbol_eq, left_eq, -⟩ :=
              resolveExport_succ_of_elsewhere found left (typeOnly || w.hop.kept)
            obtain ⟨symbol_eq', left_eq'⟩ := out (typeOnly || w.hop.kept)
            exact .cons (symbol_eq.trans symbol_eq')
              (resolveWays_exhausted_of_eq_zero (left_eq.trans left_eq') _ _ _)

end TypedProps.Program
