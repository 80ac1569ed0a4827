import TypedProps.Proofs.Exports.Imports
import TypedProps.Proofs.Program.Scripts

/-!
# `TypedProps.Proofs.Exports.Aliases`: what an import is an alias of

`Program.aliased?` and `Program.isTypeOnly` against the reference resolution.

* `aliased?_sound`: both end, and the alias of an import is exactly the symbol to which the
  reference leads. The bound can hide a symbol, and it never puts another one in its place.
* `aliased?_iff_within`: the alias is found exactly if the lookups of the trail and those in
  abandoned branches together are within the bound. The length of the trail alone decides nothing:
  `aliased?_layered_eq_none` has a trail of two lookups that is missed.
* `isTypeOnly_iff_keepsMark`: an import is type-only exactly if a hop of its trail is written so and
  the hop is an import or the export of a name from another module. Marks on exports of a module's
  own names and on modules that are passed on as a whole do not count, as
  `isTypeOnly_marked_list_eq_false` shows.
-/

set_option autoImplicit false

namespace TypedProps.Program

/-! ### Hops -/

/-- The hop of an import in a module. -/
def importHop (m : ModuleId) (typeOnly : Bool) : Hop := ⟨.importBinding, m, typeOnly⟩

/-- The hop of an export of a module's own name. -/
def ownHop (m : ModuleId) (typeOnly : Bool) : Hop := ⟨.ownExport, m, typeOnly⟩

/-- The hop of a module that passes another one on as a whole. -/
def starHop (m : ModuleId) (typeOnly : Bool) : Hop := ⟨.starExport, m, typeOnly⟩

variable {p : Program}

/-- Whether a symbol is declared as a class. -/
def isClass (p : Program) (s : Symbol) : Bool :=
  match p.declaration? s with
  | some (.classDecl _) => true
  | _ => false

/-! ### Soundness and termination -/

/-- The loops of `aliased?` and `isTypeOnly` make the same rounds, at most `maxHops` of them, and
stop. If the first one then has an alias, it is the symbol to which the reference leads, and only
that one; it is another symbol than the import, and has no alias of its own. -/
theorem aliased?_sound (p : Program) (s : Symbol) :
    (∃ k ≤ maxHops, ∃ last typeOnly, p.Rounds (s, maxHops) k last typeOnly ∧
      (∀ y flag, ¬ p.Round last y flag) ∧
      p.aliased? s
        = (if (p.importOf? last.1).isSome ∨ last.1 = s then none else some last.1) ∧
      p.isTypeOnly s = (typeOnly || p.marked last.2 last.1)) ∧
    ∀ t, p.aliased? s = some t →
      (∃ trail, p.Leads s trail ∧ trail.symbol = t) ∧
      (∀ trail, p.Leads s trail → trail.symbol = t) ∧ t ≠ s ∧ p.aliased? t = none := by
  constructor
  · obtain ⟨k, le, last, typeOnly, rounds, stops, followed, flag⟩ := p.exists_rounds maxHops s
    refine ⟨k, le, last, typeOnly, rounds, stops, ?_, flag⟩
    rw [aliased?, followed]
    -- The last symbol is the answer, unless it is still an import or where the loop began.
    by_cases imported : (p.importOf? last.1).isSome
    · simp [imported]
    · rw [if_neg imported]
      by_cases same : last.1 = s
      · simp [same]
      · simp [imported, same, Option.filter]
  · intro t aliased
    obtain ⟨isSome, trail, n, walk, rfl, -⟩ := aliased?_eq_some_iff.1 aliased
    refine ⟨⟨trail, walk.leads, rfl⟩, fun other leads => by rw [leads.unique walk.leads], ?_, ?_⟩
    · -- The import has something behind it, and its alias has not.
      rintro same
      have stops := walk.leads.importOf?_symbol
      rw [same] at stops
      simp [stops] at isSome
    · rw [Option.eq_none_iff_forall_ne_some]
      intro u again
      have isSome' := (aliased?_eq_some_iff.1 again).1
      simp [walk.leads.importOf?_symbol] at isSome'

/-! ### Completeness -/

/-- The search along a trail is within the bound: its own lookups and those in the branches that it
abandons on the way. -/
def Within (p : Program) (s : Symbol) (trail : Trail) : Prop :=
  ∃ abandoned, p.Walk s trail (trail.lookups + abandoned) ∧ trail.lookups + abandoned ≤ maxHops

/-- If the reference leads from an import to a symbol, the symbol is found exactly if the search for
it is within the bound, and nothing is found otherwise. -/
theorem aliased?_iff_within {s : Symbol} {trail : Trail} (named : (p.importOf? s).isSome)
    (leads : p.Leads s trail) :
    (p.aliased? s = some trail.symbol ↔ p.Within s trail) ∧
      (p.aliased? s = none ↔ ¬ p.Within s trail) := by
  have found : p.aliased? s = some trail.symbol ↔ p.Within s trail := by
    rw [aliased?_eq_some_iff]
    constructor
    · rintro ⟨-, trail', n, walk, -, le⟩
      obtain rfl := walk.leads.unique leads
      obtain ⟨abandoned, rfl⟩ := Nat.exists_eq_add_of_le walk.lookups_le
      exact ⟨abandoned, walk, le⟩
    · rintro ⟨abandoned, walk, le⟩
      exact ⟨named, trail, _, walk, rfl, le⟩
  refine ⟨found, ?_⟩
  -- Nothing else can be found.
  rw [← found]
  constructor
  · intro missed aliased
    rw [missed] at aliased
    cases aliased
  · intro missed
    rw [Option.eq_none_iff_forall_ne_some]
    intro t aliased
    -- An alias would be the symbol of the trail.
    obtain ⟨-, trail', n, walk, rfl, -⟩ := aliased?_eq_some_iff.1 aliased
    rw [walk.leads.unique leads] at aliased
    exact missed aliased

/-- A search that leads from an import to a symbol that is none is a walk. -/
theorem Walk.of_search {s : Symbol} {ways : List Way} {name : String} {trail : Trail} {n : Nat}
    (imported : p.importOf? s = some (ways, name)) (search : p.Search ways name (some trail) n)
    (stops : p.importOf? trail.symbol = none) (notWhole : p.wholeImport trail.symbol = []) :
    p.Walk s trail n := by
  have walk := Walk.next imported search (.here stops)
  rw [notWhole] at walk
  simpa [Trail.after] using walk

/-- A module passes on an empty one, for types only, and then the one that has the class. -/
def detourFiles : Sources := .ofList [
  ("/main.ts", .text "import { X } from './index'\n"),
  ("/index.ts", .text "export type * from './empty'\nexport * from './x'\n"),
  ("/empty.ts", .text ""),
  ("/x.ts", .text "export class X {}\n")]

/-- The trail through `detourFiles`, whose modules are numbered in the order of the files. -/
def detourTrail : Trail := ⟨⟨3, "X"⟩, [importHop 0 false, starHop 1 false, ownHop 3 false]⟩

/-- Two of the three lookups of this walk are on its trail. -/
theorem exists_walk_detourTrail :
    ∃ p, load detourFiles "/main.ts" = .ok p ∧ (p.importOf? ⟨0, "X"⟩).isSome ∧
      p.Walk ⟨0, "X"⟩ detourTrail 3 := by
  have loads : loadsWith detourFiles "/main.ts" (fun p => decide
      (p.importOf? ⟨0, "X"⟩ = some ([⟨importHop 0 false, 1⟩], "X") ∧
        p.finding 1 "X" = .elsewhere [⟨starHop 1 true, 2⟩, ⟨starHop 1 false, 3⟩] "X" ∧
        p.finding 2 "X" = .elsewhere [] "X" ∧
        p.finding 3 "X" = .declared (some ⟨3, "X"⟩) (ownHop 3 false) ∧
        p.importOf? ⟨3, "X"⟩ = none ∧ p.wholeImport ⟨3, "X"⟩ = [])) = true := by
    refine loadsWith_of_written (by repeat constructor) ?_
    decide +kernel
  obtain ⟨p, loaded, facts⟩ := exists_of_loadsWith loads
  obtain ⟨imported, index, empty, x, stops, notWhole⟩ := of_decide_eq_true facts
  have inside : p.Search [⟨starHop 1 true, 2⟩, ⟨starHop 1 false, 3⟩] "X"
      (some ⟨⟨3, "X"⟩, [starHop 1 false, ownHop 3 false]⟩) 2 :=
    .abandoned empty .nil (.declared x)
  have search : p.Search [⟨importHop 0 false, 1⟩] "X" (some detourTrail) 3 := .through index inside
  exact ⟨p, loaded, by rw [imported]; rfl, .of_search imported search stops notWhole⟩

/-- The search through `detourFiles` is within the bound. -/
theorem aliased?_iff_within_detour :
    ∃ p, load detourFiles "/main.ts" = .ok p ∧ (p.importOf? ⟨0, "X"⟩).isSome ∧
      p.Leads ⟨0, "X"⟩ detourTrail ∧ p.Within ⟨0, "X"⟩ detourTrail ∧
      (p.aliased? ⟨0, "X"⟩ = some ⟨3, "X"⟩ ↔ p.Within ⟨0, "X"⟩ detourTrail) ∧
      (p.aliased? ⟨0, "X"⟩ = none ↔ ¬ p.Within ⟨0, "X"⟩ detourTrail) := by
  obtain ⟨p, loaded, named, walk⟩ := exists_walk_detourTrail
  have within : p.Within ⟨0, "X"⟩ detourTrail := ⟨1, walk, by decide⟩
  exact ⟨p, loaded, named, walk.leads, within, aliased?_iff_within named walk.leads⟩

/-- A module that passes others on, in this order. -/
def starsTo (names : List String) : Content :=
  .text (String.join (names.map fun name => "export * from './" ++ name ++ "'\n"))

/-- Four empty modules below three, which are below two: an acyclic graph in whose first branches a
search makes 32 lookups. -/
def layeredFiles : Sources := .ofList [
  ("/main.ts", .text "import { X } from './index'\n"),
  ("/index.ts", starsTo ["a", "b", "x"]),
  ("/a.ts", starsTo ["c", "d", "e"]), ("/b.ts", starsTo ["c", "d", "e"]),
  ("/x.ts", .text "export class X {}\n"),
  ("/c.ts", starsTo ["f", "g", "h", "i"]), ("/d.ts", starsTo ["f", "g", "h", "i"]),
  ("/e.ts", starsTo ["f", "g", "h", "i"]),
  ("/f.ts", .text ""), ("/g.ts", .text ""), ("/h.ts", .text ""), ("/i.ts", .text "")]

/-- The ways by which a module passes others on without a mark. -/
def starWays (m : ModuleId) (targets : List ModuleId) : List Way :=
  targets.map fun t => ⟨starHop m false, t⟩

/-- If the name is in none of some modules, and finding that out takes `n` lookups for each,
searching them takes as many together. -/
theorem Search.of_forall_none {name : String} {n : Nat} {ways : List Way}
    (inside : ∀ w ∈ ways, ∃ next, p.finding w.target name = .elsewhere next name ∧
      p.Search next name none n) : p.Search ways name none (ways.length * (n + 1)) := by
  induction ways with
  | nil =>
    rw [List.length_nil, Nat.zero_mul]
    exact .nil
  | cons w rest ih =>
    obtain ⟨next, found, search⟩ := inside w List.mem_cons_self
    have others := ih fun w' mem => inside w' (List.mem_cons_of_mem _ mem)
    rw [List.length_cons, Nat.succ_mul, Nat.add_comm]
    exact .abandoned found search others

/-- The trail through `layeredFiles` to the class. -/
def layeredTrail : Trail := ⟨⟨4, "X"⟩, [importHop 0 false, starHop 1 false, ownHop 4 false]⟩

/-- The walk to the class of `layeredFiles` takes two lookups more than the bound allows. -/
theorem exists_walk_layeredTrail :
    ∃ p, load layeredFiles "/main.ts" = .ok p ∧ (p.importOf? ⟨0, "X"⟩).isSome ∧
      p.isClass ⟨4, "X"⟩ ∧ p.Walk ⟨0, "X"⟩ layeredTrail 34 := by
  have loads : loadsWith layeredFiles "/main.ts" (fun p => decide
      (p.importOf? ⟨0, "X"⟩ = some ([⟨importHop 0 false, 1⟩], "X") ∧
        p.finding 1 "X" = .elsewhere (starWays 1 [2, 3, 4]) "X" ∧
        (∀ m ∈ ([2, 3] : List ModuleId), p.finding m "X" = .elsewhere (starWays m [5, 6, 7]) "X") ∧
        (∀ m ∈ ([5, 6, 7] : List ModuleId),
          p.finding m "X" = .elsewhere (starWays m [8, 9, 10, 11]) "X") ∧
        (∀ m ∈ ([8, 9, 10, 11] : List ModuleId), p.finding m "X" = .elsewhere [] "X") ∧
        p.finding 4 "X" = .declared (some ⟨4, "X"⟩) (ownHop 4 false) ∧
        p.importOf? ⟨4, "X"⟩ = none ∧ p.wholeImport ⟨4, "X"⟩ = [] ∧
        p.isClass ⟨4, "X"⟩)) = true := by
    refine loadsWith_of_written (by repeat constructor) ?_
    decide +kernel
  obtain ⟨p, loaded, facts⟩ := exists_of_loadsWith loads
  obtain ⟨imported, index, upper, lower, empty, x, stops, notWhole, isClass⟩ :=
    of_decide_eq_true facts
  -- From the empty modules upwards: four lookups below each of the three, fifteen below each of
  -- the two.
  have below (m : ModuleId) : p.Search (starWays m [8, 9, 10, 11]) "X" none 4 := by
    refine Search.of_forall_none (n := 0) fun w mem => ?_
    obtain ⟨t, inside, rfl⟩ := List.mem_map.mp mem
    exact ⟨_, empty t inside, .nil⟩
  have middle (m : ModuleId) : p.Search (starWays m [5, 6, 7]) "X" none 15 := by
    refine Search.of_forall_none (n := 4) fun w mem => ?_
    obtain ⟨t, inside, rfl⟩ := List.mem_map.mp mem
    exact ⟨_, lower t inside, below t⟩
  have inside : p.Search (starWays 1 [2, 3, 4]) "X"
      (some ⟨⟨4, "X"⟩, [starHop 1 false, ownHop 4 false]⟩) 33 :=
    .abandoned (upper 2 (by decide)) (middle 2)
      (.abandoned (upper 3 (by decide)) (middle 3) (.declared x))
  have search : p.Search [⟨importHop 0 false, 1⟩] "X" (some layeredTrail) 34 :=
    .through index inside
  exact ⟨p, loaded, by rw [imported]; rfl, isClass, .of_search imported search stops notWhole⟩

/-- A trail of two lookups leads to the class, and the class is not found. -/
theorem aliased?_layered_eq_none :
    ∃ p, load layeredFiles "/main.ts" = .ok p ∧ (p.importOf? ⟨0, "X"⟩).isSome ∧
      p.Leads ⟨0, "X"⟩ layeredTrail ∧ layeredTrail.lookups = 2 ∧ p.isClass layeredTrail.symbol ∧
      p.aliased? ⟨0, "X"⟩ = none := by
  obtain ⟨p, loaded, named, isClass, walk⟩ := exists_walk_layeredTrail
  refine ⟨p, loaded, named, walk.leads, by decide, isClass, ?_⟩
  rw [Option.eq_none_iff_forall_ne_some]
  intro t aliased
  obtain ⟨-, trail, n, walk', -, le⟩ := aliased?_eq_some_iff.1 aliased
  have : n = 34 := walk'.unique walk
  have : maxHops = 32 := rfl
  omega

/-! ### Type-only imports -/

/-- An import that has an alias is type-only exactly if its trail keeps a mark. That is the same as
a mark on the trail, except where all marks are among those that are lost. -/
theorem isTypeOnly_iff_keepsMark {s t : Symbol} (aliased : p.aliased? s = some t) :
    ∃ trail, p.Leads s trail ∧ (∀ other, p.Leads s other → other = trail) ∧
      p.Within s trail ∧ trail.symbol = t ∧ (p.isTypeOnly s = true ↔ trail.KeepsMark) ∧
      ((p.isTypeOnly s = true ↔ trail.Marked) ↔ (trail.LosesMark → trail.KeepsMark)) := by
  obtain ⟨-, trail, n, walk, rfl, le⟩ := aliased?_eq_some_iff.1 aliased
  obtain ⟨abandoned, rfl⟩ := Nat.exists_eq_add_of_le walk.lookups_le
  have flag : p.isTypeOnly s = true ↔ trail.KeepsMark := by
    rw [isTypeOnly, marked_of_walk walk le, trail.any_kept_iff]
  refine ⟨trail, walk.leads, fun other leads => leads.unique walk.leads, ⟨abandoned, walk, le⟩,
    rfl, flag, ?_⟩
  rw [flag, trail.marked_iff]
  constructor
  · intro same lost
    exact same.mpr (Or.inr lost)
  · intro kept
    exact ⟨Or.inl, fun marked => marked.elim id kept⟩

/-- The mark on the way that `detourFiles` abandons does not count. -/
theorem isTypeOnly_iff_keepsMark_detour :
    ∃ p, load detourFiles "/main.ts" = .ok p ∧ p.aliased? ⟨0, "X"⟩ = some ⟨3, "X"⟩ ∧
      ∃ trail, p.Leads ⟨0, "X"⟩ trail ∧ (∀ other, p.Leads ⟨0, "X"⟩ other → other = trail) ∧
        p.Within ⟨0, "X"⟩ trail ∧ trail.symbol = ⟨3, "X"⟩ ∧
        (p.isTypeOnly ⟨0, "X"⟩ = true ↔ trail.KeepsMark) ∧
        ((p.isTypeOnly ⟨0, "X"⟩ = true ↔ trail.Marked) ↔ (trail.LosesMark → trail.KeepsMark)) := by
  obtain ⟨p, loaded, named, walk⟩ := exists_walk_detourTrail
  have aliased : p.aliased? ⟨0, "X"⟩ = some ⟨3, "X"⟩ :=
    aliased?_eq_some_iff.2 ⟨named, _, _, walk, rfl, by decide⟩
  exact ⟨p, loaded, aliased, isTypeOnly_iff_keepsMark aliased⟩

/-- A module imports a class and exports it for types only. -/
def listedFiles : Sources := .ofList [
  ("/main.ts", .text "import { Model } from './types'\n"),
  ("/types.ts", .text "import { Model } from './model'\nexport type { Model }\n"),
  ("/model.ts", .text "export class Model {}\n")]

/-- The trail through `listedFiles` to the class, with one mark. -/
def listedTrail : Trail :=
  ⟨⟨2, "Model"⟩, [importHop 0 false, ownHop 1 true, importHop 1 false, ownHop 2 false]⟩

/-- The walk to the class of `listedFiles` takes two lookups. -/
theorem exists_walk_listedTrail :
    ∃ p, load listedFiles "/main.ts" = .ok p ∧ (p.importOf? ⟨0, "Model"⟩).isSome ∧
      p.Walk ⟨0, "Model"⟩ listedTrail 2 := by
  have loads : loadsWith listedFiles "/main.ts" (fun p => decide
      (p.importOf? ⟨0, "Model"⟩ = some ([⟨importHop 0 false, 1⟩], "Model") ∧
        p.finding 1 "Model" = .declared (some ⟨1, "Model"⟩) (ownHop 1 true) ∧
        p.importOf? ⟨1, "Model"⟩ = some ([⟨importHop 1 false, 2⟩], "Model") ∧
        p.finding 2 "Model" = .declared (some ⟨2, "Model"⟩) (ownHop 2 false) ∧
        p.importOf? ⟨2, "Model"⟩ = none ∧ p.wholeImport ⟨2, "Model"⟩ = [])) = true := by
    refine loadsWith_of_written (by repeat constructor) ?_
    decide +kernel
  obtain ⟨p, loaded, facts⟩ := exists_of_loadsWith loads
  obtain ⟨imported, types, imported', model, stops, notWhole⟩ := of_decide_eq_true facts
  have behind : p.Walk ⟨1, "Model"⟩ ⟨⟨2, "Model"⟩, [importHop 1 false, ownHop 2 false]⟩ 1 :=
    .of_search imported' (.declared model) stops notWhole
  exact ⟨p, loaded, by rw [imported]; rfl, .next imported (.declared types) behind⟩

/-- A mark on an export of a module's own names is lost. -/
theorem isTypeOnly_marked_list_eq_false :
    ∃ p, load listedFiles "/main.ts" = .ok p ∧ p.aliased? ⟨0, "Model"⟩ = some ⟨2, "Model"⟩ ∧
      p.Leads ⟨0, "Model"⟩ listedTrail ∧ ownHop 1 true ∈ listedTrail.hops ∧
      p.isTypeOnly ⟨0, "Model"⟩ = false := by
  obtain ⟨p, loaded, named, walk⟩ := exists_walk_listedTrail
  have le : 2 ≤ maxHops := by decide
  have aliased : p.aliased? ⟨0, "Model"⟩ = some ⟨2, "Model"⟩ :=
    aliased?_eq_some_iff.2 ⟨named, _, _, walk, rfl, le⟩
  refine ⟨p, loaded, aliased, walk.leads, by decide, ?_⟩
  rw [isTypeOnly, marked_of_walk walk le]
  decide

end TypedProps.Program
