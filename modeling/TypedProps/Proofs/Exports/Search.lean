import Mathlib.Data.Finset.Card
import Mathlib.Data.Finset.Prod
import Mathlib.Data.Finset.Range
import TypedProps.Program.Exports

/-!
# `TypedProps.Proofs.Exports.Search`: what an export leads to

The lookups of `Program.resolveExport` have a budget and a flag. This module says what they look for
without either.

* `Program.finding` is one lookup in one module: the name is bound there, or the lookup goes on in
  other modules, one `Way` for each.
* `Program.reference` is the resolution of an export as the language has it: ways are tried in
  source order, an entry for a name hides the modules that are passed on as a whole, and a module
  that is on the path already is not entered again for the same name. It is total on every graph of
  modules.
* `Program.Search` is the plain depth-first search: it never asks where it has been, and counts its
  lookups. A search that runs in a circle has no derivation.

The answer of both is a `Trail`: the symbol, and the hops that lead to it with the type-only marks
that are written on them. The resolver drops some of these marks (`Hop.kept`), a trail drops none.

`Search.reference_eq` is the main fact: where the plain search ends, it finds what the reference
finds. The invariant of its induction is about cost. Every key on the path has a search of its own
that contains the present one and therefore costs more, so no key is met twice.
-/

set_option autoImplicit false

namespace TypedProps

/-- The forms of a hop on the way from an import to a declaration. -/
inductive HopKind where
  /-- The import that binds a name. -/
  | importBinding
  /-- The export of a name that the module itself binds. -/
  | ownExport
  /-- The export of a name from another module. -/
  | reexport
  /-- The export of everything from another module. -/
  | starExport
deriving DecidableEq, Repr

/-- A hop, the module in which it is written, and whether it is written type-only. -/
structure Hop where
  kind : HopKind
  module : ModuleId
  typeOnly : Bool
deriving DecidableEq, Repr

namespace Hop

/-- Whether a hop carries a mark that the resolver keeps: those on imports and on names exported
from another module. -/
def kept (h : Hop) : Bool := h.typeOnly && (h.kind == .importBinding || h.kind == .reexport)

/-- Whether a hop is made by looking an export up. Only imports are not. -/
def isLookup (h : Hop) : Bool := h.kind != .importBinding

end Hop

/-- A hop into another module. -/
structure Way where
  hop : Hop
  target : ModuleId
deriving DecidableEq, Repr

/-- What an import leads to, and the hops that lead there. -/
structure Trail where
  symbol : Symbol
  hops : List Hop
deriving DecidableEq, Repr

namespace Trail

/-- The same trail behind some hops. -/
def after (hops : List Hop) (t : Trail) : Trail := ⟨t.symbol, hops ++ t.hops⟩

/-- Hops in front of a trail do not change where it leads. -/
@[simp] theorem symbol_after (hops : List Hop) (t : Trail) : (t.after hops).symbol = t.symbol := rfl

/-- Hops in front of a trail come first. -/
@[simp] theorem hops_after (hops : List Hop) (t : Trail) :
    (t.after hops).hops = hops ++ t.hops := rfl

/-- How many lookups a trail consists of. -/
def lookups (t : Trail) : Nat := t.hops.countP Hop.isLookup

/-- A mark stands on a trail. -/
def Marked (t : Trail) : Prop := ∃ hop ∈ t.hops, hop.typeOnly = true

/-- A mark stands on an import or on the export of a name from another module. -/
def KeepsMark (t : Trail) : Prop :=
  ∃ hop ∈ t.hops, hop.typeOnly = true ∧ (hop.kind = .importBinding ∨ hop.kind = .reexport)

/-- A mark stands on the export of a module's own name or of a whole module. -/
def LosesMark (t : Trail) : Prop :=
  ∃ hop ∈ t.hops, hop.typeOnly = true ∧ (hop.kind = .ownExport ∨ hop.kind = .starExport)

/-- Every mark is of one of the two sorts. -/
theorem marked_iff (t : Trail) : t.Marked ↔ t.KeepsMark ∨ t.LosesMark := by
  constructor
  · rintro ⟨hop, mem, typeOnly⟩
    cases kind : hop.kind with
    | importBinding => exact Or.inl ⟨hop, mem, typeOnly, Or.inl kind⟩
    | reexport => exact Or.inl ⟨hop, mem, typeOnly, Or.inr kind⟩
    | ownExport => exact Or.inr ⟨hop, mem, typeOnly, Or.inl kind⟩
    | starExport => exact Or.inr ⟨hop, mem, typeOnly, Or.inr kind⟩
  · rintro (⟨hop, mem, typeOnly, -⟩ | ⟨hop, mem, typeOnly, -⟩)
    · exact ⟨hop, mem, typeOnly⟩
    · exact ⟨hop, mem, typeOnly⟩

/-- The resolver keeps a mark exactly if one of the sort that it keeps is there. -/
theorem any_kept_iff (t : Trail) : t.hops.any Hop.kept = true ↔ t.KeepsMark := by
  simp [KeepsMark, Hop.kept]

end Trail

namespace LoadedModule

/-! ### Exports with the marks that are written on them -/

/-- What an item exports by name, each with whether it is written type-only. -/
def writtenExports (m : LoadedModule) (item : Item) : List (NamedExport × Bool) :=
  match item.form with
  | .exportList typeOnly specifiers _ =>
    (m.exportsOf item).zip (specifiers.map fun s => typeOnly || s.typeOnly)
  | _ => (m.exportsOf item).map fun e => (e, false)

/-- What a module exports under a name, and whether it is written type-only. -/
def written? (m : LoadedModule) (name : String) : Option (ExportEntry × Bool) :=
  let found := (m.items.flatMap m.writtenExports).filter (·.1.name == name)
  ((found.filter (·.1.override)).getLast?.or found.head?).map fun e => (e.1.entry, e.2)

/-- The modules all of whose exports this one passes on, each with whether that is written
type-only. -/
def writtenStars (m : LoadedModule) : List (ModuleId × Bool) :=
  m.items.filterMap fun item =>
    match item.form with
    | .exportAll typeOnly source => (m.target source).map (·, typeOnly)
    | _ => none

/-- Without its marks, what an item exports is the export table's share of it. -/
theorem map_fst_writtenExports (m : LoadedModule) (item : Item) :
    (m.writtenExports item).map Prod.fst = m.exportsOf item := by
  unfold writtenExports
  split
  · rename_i typeOnly specifiers source form
    refine List.map_fst_zip ?_
    simp [exportsOf, form]
  · simp [List.map_map, Function.comp_def]

/-- Without its mark, what a module exports under a name is the entry of its export table. -/
theorem map_fst_written? (m : LoadedModule) (name : String) :
    (m.written? name).map Prod.fst = m.exported? name := by
  -- The name is looked up in the same table, once with marks and once without.
  have table : m.items.flatMap m.exportsOf
      = (m.items.flatMap m.writtenExports).map Prod.fst := by
    rw [List.map_flatMap]
    exact List.flatMap_congr fun item _ => (m.map_fst_writtenExports item).symm
  unfold written? exported?
  rw [table]
  simp only [List.filter_map, List.getLast?_map, List.head?_map, Option.map_or, Option.map_map,
    Function.comp_def]

/-- The mark of a name exported from another module is the one in its entry. -/
theorem typeOnly_of_mem_writtenExports {m : LoadedModule} {item : Item} {e : NamedExport}
    {mark : Bool} {source : Option ModuleId} {inner : String} {typeOnly : Bool}
    (mem : (e, mark) ∈ m.writtenExports item) (entry : e.entry = .reexport source inner typeOnly) :
    mark = typeOnly := by
  unfold writtenExports at mem
  split at mem
  · -- In a list, entry and mark are made from the same specifier.
    rename_i all specifiers from? form
    simp only [exportsOf, form, List.zip_map', List.mem_map, Prod.mk.injEq] at mem
    obtain ⟨specifier, -, rfl, rfl⟩ := mem
    cases from? <;> simp_all
  · rename_i notList
    -- Only lists export names from other modules.
    simp only [List.mem_map, Prod.mk.injEq] at mem
    obtain ⟨e', mem', rfl, -⟩ := mem
    unfold exportsOf at mem'
    split at mem'
    · obtain ⟨d, -, rfl⟩ := List.mem_map.mp mem'
      simp at entry
    · obtain ⟨d, -, rfl⟩ := List.mem_map.mp mem'
      simp at entry
    · rename_i form
      exact absurd form (notList _ _ _)
    · simp at mem'

/-- What a module exports under a name is written by one of its items. -/
theorem exists_of_written? {m : LoadedModule} {name : String} {entry : ExportEntry} {mark : Bool}
    (h : m.written? name = some (entry, mark)) :
    ∃ item ∈ m.items, ∃ e, (e, mark) ∈ m.writtenExports item ∧ e.entry = entry := by
  unfold written? at h
  simp only [Option.map_eq_some_iff, Option.or_eq_some_iff] at h
  obtain ⟨⟨e, mark'⟩, found, same⟩ := h
  obtain ⟨rfl, rfl⟩ := Prod.mk.inj same
  have mem : (e, mark') ∈ m.items.flatMap m.writtenExports := by
    rcases found with last | ⟨-, first⟩
    · exact List.mem_of_mem_filter (List.mem_of_mem_filter (List.mem_of_getLast? last))
    · exact List.mem_of_mem_filter (List.mem_of_head? first)
  obtain ⟨item, itemMem, eMem⟩ := List.mem_flatMap.mp mem
  exact ⟨item, itemMem, e, eMem, rfl⟩

/-- Without its marks, the list of modules that are passed on is the one of the export table. -/
theorem map_fst_writtenStars (m : LoadedModule) :
    m.writtenStars.map Prod.fst = m.starTargets := by
  unfold writtenStars starTargets
  rw [List.map_filterMap]
  congr 1
  funext item
  cases item.form <;> simp [Function.comp_def]

end LoadedModule

namespace Program

/-! ### One lookup -/

/-- What one lookup of an export finds. -/
inductive Finding where
  /-- The name is one that the module itself binds, or should bind. -/
  | declared (symbol : Option Symbol) (hop : Hop)
  /-- The lookup goes on in other modules, in this order and under this name. -/
  | elsewhere (ways : List Way) (name : String)
deriving DecidableEq, Repr

/-- One lookup of the export `name` in a module. `default` is not among what is passed on as a
whole. -/
def finding (p : Program) (m : ModuleId) (name : String) : Finding :=
  match p.module? m with
  | none => .elsewhere [] name
  | some module =>
    match module.written? name with
    | some (.own own, mark) => .declared (p.lookup m own) ⟨.ownExport, m, mark⟩
    | some (.reexport source inner _, mark) =>
      .elsewhere (source.toList.map fun t => ⟨⟨.reexport, m, mark⟩, t⟩) inner
    | none =>
      if name == "default" then .elsewhere [] name
      else .elsewhere (module.writtenStars.map fun s => ⟨⟨.starExport, m, s.2⟩, s.1⟩) name

/-- The names under which the modules of a program look further for what they export. -/
def innerNames (p : Program) : List String :=
  p.modules.flatMap fun m => m.items.flatMap fun item => (m.exportsOf item).filterMap fun e =>
    match e.entry with
    | .reexport _ inner _ => some inner
    | .own _ => none

/-- A lookup goes on under its own name or an inner name, and nowhere from a module that is not
there. -/
theorem finding_elsewhere {p : Program} {m : ModuleId} {name inner : String} {ways : List Way}
    (h : p.finding m name = .elsewhere ways inner) :
    (ways = [] ∧ inner = name) ∨
      (m < p.modules.length ∧ (inner = name ∨ inner ∈ p.innerNames)) := by
  unfold finding at h
  split at h
  · -- There is no such module, so no way opens.
    left
    simpa [eq_comm] using h
  · rename_i module found
    right
    refine ⟨(List.getElem?_eq_some_iff.mp found).1, ?_⟩
    split at h
    · simp at h
    · rename_i source inner' typeOnly mark written
      obtain ⟨-, rfl⟩ := Finding.elsewhere.inj h
      right
      obtain ⟨item, itemMem, e, eMem, entry⟩ := LoadedModule.exists_of_written? written
      have eMem' : e ∈ module.exportsOf item := by
        rw [← module.map_fst_writtenExports item]
        exact List.mem_map_of_mem eMem
      simp only [innerNames, List.mem_flatMap, List.mem_filterMap]
      exact ⟨module, List.mem_of_getElem? found, item, itemMem, e, eMem', by rw [entry]⟩
    · left
      split at h <;> simp_all

/-! ### The resolution of an export -/

/-- A name that is looked up in a module. -/
abbrev Key := ModuleId × String

/-- The keys of a program, with `name` among their names, that are not on a path. -/
def unvisited (p : Program) (path : List Key) (name : String) : Finset Key :=
  (Finset.range p.modules.length ×ˢ insert name p.innerNames.toFinset) \ path.toFinset

/-- Going on from a key adds none to those not visited, whichever known name is looked up next. -/
theorem unvisited_cons_subset {p : Program} {path : List Key} {m : ModuleId} {name inner : String}
    (known : inner = name ∨ inner ∈ p.innerNames) :
    p.unvisited ((m, name) :: path) inner ⊆ p.unvisited path name := by
  intro key h
  simp only [unvisited, Finset.mem_sdiff, Finset.mem_product, Finset.mem_insert, List.mem_toFinset,
    List.mem_cons, not_or] at h ⊢
  obtain ⟨⟨inside, named⟩, -, fresh⟩ := h
  refine ⟨⟨inside, ?_⟩, fresh⟩
  rcases named with named | named
  · rw [named]
    exact known
  · exact Or.inr named

/-- Going on from a key of the program that is not on the path leaves fewer keys to visit. -/
theorem card_unvisited_cons_lt {p : Program} {path : List Key} {m : ModuleId}
    {name inner : String} (inside : m < p.modules.length) (fresh : (m, name) ∉ path)
    (known : inner = name ∨ inner ∈ p.innerNames) :
    (p.unvisited ((m, name) :: path) inner).card < (p.unvisited path name).card := by
  -- The key itself is what is lost.
  refine Finset.card_lt_card ⟨unvisited_cons_subset known, fun all => ?_⟩
  have mem : (m, name) ∈ p.unvisited path name := by
    simp [unvisited, inside, fresh]
  simpa [unvisited] using all mem

/-- The resolution of an export along some ways: the first of them that leads to a symbol decides.
`path` holds what is being looked up already, and none of it is entered again. -/
def reference (p : Program) (path : List Key) (ways : List Way) (name : String) : Option Trail :=
  match ways with
  | [] => none
  | w :: rest =>
    let here : Option Trail :=
      if _fresh : (w.target, name) ∈ path then none
      else
        match _found : p.finding w.target name with
        | .declared symbol hop => symbol.map fun s => ⟨s, [w.hop, hop]⟩
        | .elsewhere next inner =>
          (reference p ((w.target, name) :: path) next inner).map (Trail.after [w.hop])
    here.or (reference p path rest name)
termination_by ((p.unvisited path name).card, ways.length)
decreasing_by
  · rcases finding_elsewhere _found with ⟨rfl, rfl⟩ | ⟨inside, known⟩
    · exact Prod.Lex.right' _ (Finset.card_le_card (unvisited_cons_subset (Or.inl rfl)))
        (Nat.succ_pos _)
    · exact Prod.Lex.left _ _ (card_unvisited_cons_lt inside _fresh known)
  · exact Prod.Lex.right _ (Nat.lt_succ_self _)

/-- Along no way, nothing is found. -/
@[simp] theorem reference_nil (p : Program) (path : List Key) (name : String) :
    p.reference path [] name = none := by
  rw [reference]

/-- A way to a module that binds the name decides, if the name stands for a symbol there. -/
theorem reference_cons_of_declared {p : Program} {path : List Key} {w : Way} {rest : List Way}
    {name : String} {symbol : Option Symbol} {hop : Hop} (fresh : (w.target, name) ∉ path)
    (found : p.finding w.target name = .declared symbol hop) :
    p.reference path (w :: rest) name
      = (symbol.map fun s => ⟨s, [w.hop, hop]⟩).or (p.reference path rest name) := by
  rw [reference, dif_neg fresh]
  split <;> simp_all

/-- A way through a module decides, if it leads to a symbol from there. -/
theorem reference_cons_of_elsewhere {p : Program} {path : List Key} {w : Way}
    {rest next : List Way} {name inner : String} (fresh : (w.target, name) ∉ path)
    (found : p.finding w.target name = .elsewhere next inner) :
    p.reference path (w :: rest) name
      = ((p.reference ((w.target, name) :: path) next inner).map (Trail.after [w.hop])).or
          (p.reference path rest name) := by
  rw [reference, dif_neg fresh]
  split <;> simp_all

/-! ### The plain search -/

/-- `p.Search ways name found spent`: the depth-first search for `name` along some ways ends with
the answer `found` after `spent` lookups. -/
inductive Search (p : Program) : List Way → String → Option Trail → Nat → Prop
  | nil {name : String} : Search p [] name none 0
  /-- The first way leads to a module that binds the name. -/
  | declared {w : Way} {rest : List Way} {name : String} {s : Symbol} {hop : Hop}
      (found : p.finding w.target name = .declared (some s) hop) :
      Search p (w :: rest) name (some ⟨s, [w.hop, hop]⟩) 1
  /-- The first way leads to a module that exports the name and does not bind it. -/
  | undeclared {w : Way} {rest : List Way} {name : String} {hop : Hop} {answer : Option Trail}
      {n : Nat} (found : p.finding w.target name = .declared none hop)
      (others : Search p rest name answer n) : Search p (w :: rest) name answer (n + 1)
  /-- The first way leads on to a symbol. -/
  | through {w : Way} {rest next : List Way} {name inner : String} {trail : Trail} {n : Nat}
      (found : p.finding w.target name = .elsewhere next inner)
      (inside : Search p next inner (some trail) n) :
      Search p (w :: rest) name (some (trail.after [w.hop])) (n + 1)
  /-- The first way leads nowhere. -/
  | abandoned {w : Way} {rest next : List Way} {name inner : String} {answer : Option Trail}
      {n k : Nat} (found : p.finding w.target name = .elsewhere next inner)
      (inside : Search p next inner none n) (others : Search p rest name answer k) :
      Search p (w :: rest) name answer (n + 1 + k)

namespace Search

variable {p : Program}

/-- The answer of a search and what it costs are determined. -/
theorem unique {ways : List Way} {name : String} {a b : Option Trail} {n k : Nat}
    (left : p.Search ways name a n) (right : p.Search ways name b k) : a = b ∧ n = k := by
  -- The finding at the first way decides which rule applies, so both end by the same one.
  induction left generalizing b k with
  | nil =>
    cases right
    exact ⟨rfl, rfl⟩
  | declared found =>
    cases right with
    | declared found' =>
      rw [found] at found'
      obtain ⟨same, rfl⟩ := Finding.declared.inj found'
      obtain rfl := Option.some.inj same
      exact ⟨rfl, rfl⟩
    | undeclared found' _ => simp [found] at found'
    | through found' _ => simp [found] at found'
    | abandoned found' _ _ => simp [found] at found'
  | undeclared found _ ih =>
    cases right with
    | declared found' => simp [found] at found'
    | undeclared _ others =>
      obtain ⟨rfl, rfl⟩ := ih others
      exact ⟨rfl, rfl⟩
    | through found' _ => simp [found] at found'
    | abandoned found' _ _ => simp [found] at found'
  | through found _ ih =>
    cases right with
    | declared found' => simp [found] at found'
    | undeclared found' _ => simp [found] at found'
    | through found' inside =>
      rw [found] at found'
      obtain ⟨rfl, rfl⟩ := Finding.elsewhere.inj found'
      obtain ⟨same, rfl⟩ := ih inside
      obtain rfl := Option.some.inj same
      exact ⟨rfl, rfl⟩
    | abandoned found' inside _ =>
      rw [found] at found'
      obtain ⟨rfl, rfl⟩ := Finding.elsewhere.inj found'
      exact absurd (ih inside).1 (by simp)
  | abandoned found _ _ ih ihOthers =>
    cases right with
    | declared found' => simp [found] at found'
    | undeclared found' _ => simp [found] at found'
    | through found' inside =>
      rw [found] at found'
      obtain ⟨rfl, rfl⟩ := Finding.elsewhere.inj found'
      exact absurd (ih inside).1 (by simp)
    | abandoned found' inside others =>
      rw [found] at found'
      obtain ⟨rfl, rfl⟩ := Finding.elsewhere.inj found'
      obtain ⟨-, rfl⟩ := ih inside
      obtain ⟨rfl, rfl⟩ := ihOthers others
      exact ⟨rfl, rfl⟩

/-- A trail begins with the hop of one of the ways. -/
theorem exists_hops_eq {ways : List Way} {name : String} {trail : Trail} {n : Nat}
    (search : p.Search ways name (some trail) n) :
    ∃ w ∈ ways, ∃ hops, trail.hops = w.hop :: hops := by
  generalize answered : some trail = answer at search
  induction search with
  | nil => cases answered
  | declared =>
    cases answered
    exact ⟨_, List.mem_cons_self, _, rfl⟩
  | undeclared _ _ ih =>
    obtain ⟨w, mem, hops, eq⟩ := ih answered
    exact ⟨w, List.mem_cons_of_mem _ mem, hops, eq⟩
  | through =>
    cases answered
    exact ⟨_, List.mem_cons_self, _, rfl⟩
  | abandoned _ _ _ _ ih =>
    obtain ⟨w, mem, hops, eq⟩ := ih answered
    exact ⟨w, List.mem_cons_of_mem _ mem, hops, eq⟩

/-- Behind its first hop, a trail has at most one hop for each lookup of the search. -/
theorem length_hops_le {ways : List Way} {name : String} {trail : Trail} {n : Nat}
    (search : p.Search ways name (some trail) n) : trail.hops.length ≤ n + 1 := by
  generalize answered : some trail = answer at search
  induction search generalizing trail with
  | nil => cases answered
  | declared =>
    cases answered
    exact Nat.le_refl 2
  | undeclared _ _ ih =>
    have := ih answered
    omega
  | through _ _ ih =>
    cases answered
    have := ih rfl
    simp only [Trail.hops_after, List.length_append, List.length_singleton]
    omega
  | abandoned _ _ _ _ ih =>
    have := ih answered
    omega

end Search

/-- `p.Costs key n`: the search that begins with looking up a key ends after `n` lookups. -/
def Costs (p : Program) (key : Key) (n : Nat) : Prop :=
  ∃ hop answer, p.Search [⟨hop, key.1⟩] key.2 answer n

/-- All keys on a path cost more than `n` lookups. -/
def Dearer (p : Program) (path : List Key) (n : Nat) : Prop :=
  ∀ key ∈ path, ∃ c, n < c ∧ p.Costs key c

namespace Dearer

variable {p : Program} {path : List Key} {n k : Nat}

/-- The empty path has no key. -/
theorem nil : p.Dearer [] n := by
  intro key mem
  cases mem

/-- Keys that cost more than a search cost more than a cheaper one. -/
theorem mono (dearer : p.Dearer path n) (le : k ≤ n) : p.Dearer path k := by
  intro key mem
  obtain ⟨c, less, cost⟩ := dearer key mem
  exact ⟨c, Nat.lt_of_le_of_lt le less, cost⟩

/-- A key joins the path of the search that it begins. -/
theorem cons {key : Key} (cost : p.Costs key (n + 1)) (dearer : p.Dearer path n) :
    p.Dearer (key :: path) n := by
  intro other mem
  rcases List.mem_cons.mp mem with rfl | mem
  · exact ⟨n + 1, Nat.lt_succ_self n, cost⟩
  · exact dearer other mem

end Dearer

namespace Search

variable {p : Program}

/-- A single way may be given another hop: that changes neither whether a search ends nor what it
costs. -/
theorem with_hop {hop : Hop} {m : ModuleId} {name : String} {answer : Option Trail} {n : Nat}
    (search : p.Search [⟨hop, m⟩] name answer n) (other : Hop) :
    ∃ answer', p.Search [⟨other, m⟩] name answer' n := by
  cases search with
  | declared found => exact ⟨_, .declared found⟩
  | undeclared found others => exact ⟨_, .undeclared found others⟩
  | through found inside => exact ⟨_, .through found inside⟩
  | abandoned found inside others => exact ⟨_, .abandoned found inside others⟩

/-- What a key costs is determined. -/
theorem cost_unique {key : Key} {n k : Nat} (left : p.Costs key n) (right : p.Costs key k) :
    n = k := by
  obtain ⟨hop, answer, search⟩ := left
  obtain ⟨hop', answer', search'⟩ := right
  obtain ⟨answer'', search''⟩ := search.with_hop hop'
  exact (search''.unique search').2

/-- A key that costs `n` is not on a path all of whose keys cost more. -/
theorem fresh_of_costs {path : List Key} {key : Key} {n : Nat} (cost : p.Costs key n)
    (dearer : p.Dearer path n) : key ∉ path := by
  intro mem
  obtain ⟨c, less, cost'⟩ := dearer key mem
  have := cost_unique cost cost'
  omega

/-- Where the plain search ends, it finds what the reference finds, on every path whose keys cost
more than the search. -/
theorem reference_eq {path : List Key} {ways : List Way} {name : String} {answer : Option Trail}
    {n : Nat} (search : p.Search ways name answer n) (dearer : p.Dearer path n) :
    p.reference path ways name = answer := by
  induction search generalizing path with
  | nil => exact reference_nil p path _
  | @declared w rest name s hop found =>
    have cost : p.Costs (w.target, name) 1 := ⟨w.hop, _, .declared found⟩
    rw [reference_cons_of_declared (fresh_of_costs cost dearer) found]
    rfl
  | @undeclared w rest name hop answer n found others ih =>
    have cost : p.Costs (w.target, name) 1 := ⟨w.hop, _, .undeclared found .nil⟩
    have fresh := fresh_of_costs cost (dearer.mono (by omega))
    rw [reference_cons_of_declared fresh found]
    exact ih (dearer.mono (by omega))
  | @through w rest next name inner trail n found inside ih =>
    -- The key joins the path: its own search costs one lookup more than the one inside.
    have cost : p.Costs (w.target, name) (n + 1) := ⟨w.hop, _, .through found inside⟩
    have inner := ih (.cons cost (dearer.mono (by omega)))
    rw [reference_cons_of_elsewhere (fresh_of_costs cost dearer) found, inner]
    rfl
  | @abandoned w rest next name inner answer n k found inside others ih ihOthers =>
    have cost : p.Costs (w.target, name) (n + 1) := ⟨w.hop, _, .abandoned found inside .nil⟩
    have fresh := fresh_of_costs cost (dearer.mono (by omega))
    have inner := ih (.cons cost (dearer.mono (by omega)))
    rw [reference_cons_of_elsewhere fresh found, inner]
    exact ihOthers (dearer.mono (by omega))

end Search

end Program

end TypedProps
