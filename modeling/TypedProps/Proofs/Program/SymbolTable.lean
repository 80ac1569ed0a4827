import Mathlib.Data.List.Forall2
import TypedProps.Program.Basic

/-!
# `TypedProps.Proofs.Program.SymbolTable`: symbols by number

A symbol is a name in a module, and what it stands for is the first declaration of the name there. A
table may keep this instead: the modules are indexed in turn, a name is given the next number where
it is bound first, and the number leads back to that place (`SymbolTable.entries`). A place is an
item and, for an import, one of its specifiers (`Site`).

* `LoadedModule.declarationAt?_of_find?`: the place that is kept for a name is that of its first
  declaration.
* `SymbolTable.Covers`: every number leads back to its name, and every name that is bound has a
  number. Indexing one more module keeps this (`Covers.add`), so it holds of the table of a program
  (`Program.covers_table`).
-/

set_option autoImplicit false

namespace TypedProps

/-- Where a name is bound in its module: at an item or, with what the import says, at a specifier of
one. -/
inductive Site where
  | statement (item : Nat)
  | defaultExport (item : Nat)
  | specifier (item place : Nat) (source : Option ModuleId) (what : ImportedName) (typeOnly : Bool)
deriving DecidableEq, Repr, Inhabited

namespace Site

/-- The place of the item. -/
def item : Site → Nat
  | .statement item | .defaultExport item | .specifier item .. => item

/-- The place among the specifiers of the item. -/
def place : Site → Nat
  | .statement _ | .defaultExport _ => 0
  | .specifier _ place .. => place

/-- One site stands in front of another one of the same module. -/
def Before (a b : Site) : Prop := a.item < b.item ∨ a.item = b.item ∧ a.place < b.place

end Site

/-! ### Sites of a module -/

namespace LoadedModule

/-- The names that the item at a place binds, and where. -/
def bindingsOf (m : LoadedModule) (index : Nat) (item : Item) : List (String × Site) :=
  match item.form with
  | .declaration _ decl =>
    decl.toDeclaration?.toList.map fun d => (d.identifier.name, .statement index)
  | .defaultExport value =>
    value.toDeclaration?.toList.map fun d => (d.identifier.name, .defaultExport index)
  | .importDecl typeOnly specifiers source =>
    specifiers.zipIdx.map fun s => (s.1.binding.name,
      .specifier index s.2 (m.target source) s.1.imported (typeOnly || s.1.typeOnly))
  | _ => []

/-- The names that a module binds, and where, in source order. -/
def bindings (m : LoadedModule) : List (String × Site) :=
  m.items.zipIdx.flatMap fun i => m.bindingsOf i.2 i.1

/-- The declaration that stands at a site. -/
def declarationAt? (m : LoadedModule) : Site → Option Declaration
  | .statement item =>
    match m.items[item]?.map Item.form with
    | some (.declaration _ decl) => decl.toDeclaration?
    | _ => none
  | .defaultExport item =>
    match m.items[item]?.map Item.form with
    | some (.defaultExport value) => value.toDeclaration?
    | _ => none
  | .specifier item place source what typeOnly =>
    match m.items[item]?.map Item.form with
    | some (.importDecl _ specifiers _) =>
      specifiers[place]?.map fun s => .imported s.binding source what typeOnly
    | _ => none

variable {m : LoadedModule} {name : String} {site : Site} {d : Declaration}

/-- `m.Declares binding d`: a name is bound where the declaration `d` of this name stands. -/
def Declares (m : LoadedModule) (binding : String × Site) (d : Declaration) : Prop :=
  binding.1 = d.identifier.name ∧ m.declarationAt? binding.2 = some d

/-- An item binds the names that it declares. -/
theorem declares_bindingsOf {index : Nat} {item : Item} (here : m.items[index]? = some item) :
    List.Forall₂ m.Declares (m.bindingsOf index item) (m.declarationsOf item) := by
  obtain ⟨start, docs, form⟩ := item
  cases form with
  | declaration exported decl =>
    show List.Forall₂ _ (decl.toDeclaration?.toList.map _) decl.toDeclaration?.toList
    cases found : decl.toDeclaration? with
    | none => exact .nil
    | some d => exact .cons ⟨rfl, by simp [declarationAt?, here, found]⟩ .nil
  | defaultExport value =>
    show List.Forall₂ _ (value.toDeclaration?.toList.map _) value.toDeclaration?.toList
    cases found : value.toDeclaration? with
    | none => exact .nil
    | some d => exact .cons ⟨rfl, by simp [declarationAt?, here, found]⟩ .nil
  | importDecl typeOnly specifiers source =>
    show List.Forall₂ _ (specifiers.zipIdx.map _) (specifiers.map _)
    -- Both lists go through the specifiers, one of them with their places.
    nth_rewrite 2 [← List.zipIdx_map_fst 0 specifiers]
    rw [List.map_map, List.forall₂_map_left_iff, List.forall₂_map_right_iff, List.forall₂_same]
    intro s mem
    have named := List.mem_zipIdx_iff_getElem?.mp mem
    exact ⟨rfl, by simp [declarationAt?, here, named]⟩
  | exportList | exportAll | exportAllAs | other => exact .nil

/-- A module binds the names that it declares, in the same order. -/
theorem declares_bindings (m : LoadedModule) :
    List.Forall₂ m.Declares m.bindings m.declarations := by
  have each (items : List (Item × Nat)) (mem : ∀ i ∈ items, m.items[i.2]? = some i.1) :
      List.Forall₂ m.Declares (items.flatMap fun i => m.bindingsOf i.2 i.1)
        ((items.map Prod.fst).flatMap m.declarationsOf) := by
    induction items with
    | nil => exact .nil
    | cons i rest ih =>
      rw [List.map_cons, List.flatMap_cons, List.flatMap_cons]
      exact List.rel_append (declares_bindingsOf (mem i List.mem_cons_self))
        (ih fun j later => mem j (List.mem_cons_of_mem _ later))
  have all := each m.items.zipIdx fun i mem => List.mem_zipIdx_iff_getElem?.mp mem
  rwa [List.zipIdx_map_fst] at all

/-- What is first bound under a name stands where its first declaration does. -/
theorem find?_of_declares {bindings : List (String × Site)} {declarations : List Declaration}
    (declares : List.Forall₂ m.Declares bindings declarations) (name : String) :
    declarations.find? (·.identifier.name == name)
      = (bindings.find? (·.1 == name)).bind fun b => m.declarationAt? b.2 := by
  induction declares with
  | nil => rfl
  | @cons b d bindings declarations first _ ih =>
    obtain ⟨named, stands⟩ := first
    rw [List.find?_cons, List.find?_cons, named]
    cases d.identifier.name == name with
    | true => exact stands.symm
    | false => exact ih

theorem declaration?_eq (m : LoadedModule) (name : String) :
    m.declaration? name = (m.bindings.find? (·.1 == name)).bind fun b => m.declarationAt? b.2 :=
  find?_of_declares m.declares_bindings name

/-- What is bound is declared. -/
theorem exists_declares {b : String × Site} (mem : b ∈ m.bindings) : ∃ d, m.Declares b d := by
  have among {bindings : List (String × Site)} {declarations : List Declaration}
      (declares : List.Forall₂ m.Declares bindings declarations) (mem : b ∈ bindings) :
      ∃ d, m.Declares b d := by
    induction declares with
    | nil => cases mem
    | cons first _ ih =>
      rcases List.mem_cons.mp mem with rfl | mem
      · exact ⟨_, first⟩
      · exact ih mem
  exact among m.declares_bindings mem

/-- What stands at a site is bound there. -/
theorem exists_binding (stands : m.declarationAt? site = some d) :
    ∃ b ∈ m.bindings, b.1 = d.identifier.name ∧ b.2.item = site.item ∧ b.2.place = site.place := by
  have bound {index : Nat} {item : Item} {b : String × Site} (here : m.items[index]? = some item)
      (mem : b ∈ m.bindingsOf index item) : b ∈ m.bindings :=
    List.mem_flatMap.mpr ⟨(item, index), List.mem_zipIdx_iff_getElem?.mpr here, mem⟩
  -- Each kind of site is found by its index, and the item there binds what is declared.
  cases site with
  | statement index =>
    rw [declarationAt?] at stands
    split at stands
    · rename_i exported decl form
      obtain ⟨⟨start, docs, _⟩, here, rfl⟩ := Option.map_eq_some_iff.mp form
      refine ⟨(d.identifier.name, .statement index), bound here ?_, rfl, rfl, rfl⟩
      simp [bindingsOf, stands]
    · cases stands
  | defaultExport index =>
    rw [declarationAt?] at stands
    split at stands
    · rename_i value form
      obtain ⟨⟨start, docs, _⟩, here, rfl⟩ := Option.map_eq_some_iff.mp form
      refine ⟨(d.identifier.name, .defaultExport index), bound here ?_, rfl, rfl, rfl⟩
      simp [bindingsOf, stands]
    · cases stands
  | specifier index place source what typeOnly =>
    rw [declarationAt?] at stands
    split at stands
    · rename_i marked specifiers path form
      obtain ⟨⟨start, docs, _⟩, here, rfl⟩ := Option.map_eq_some_iff.mp form
      obtain ⟨s, named, rfl⟩ := Option.map_eq_some_iff.mp stands
      refine ⟨_, bound here (List.mem_map.mpr
        ⟨(s, place), List.mem_zipIdx_iff_getElem?.mpr named, rfl⟩), rfl, rfl, rfl⟩
    · cases stands

/-- The bindings of an item stand there, one after the other. -/
theorem pairwise_bindingsOf (m : LoadedModule) (index : Nat) (item : Item) :
    (∀ b ∈ m.bindingsOf index item, b.2.item = index) ∧
      (m.bindingsOf index item).Pairwise fun a b => a.2.Before b.2 := by
  obtain ⟨start, docs, form⟩ := item
  cases form with
  | declaration exported decl =>
    show (∀ b ∈ decl.toDeclaration?.toList.map _, _) ∧ (decl.toDeclaration?.toList.map _).Pairwise _
    cases decl.toDeclaration? <;> simp [Site.item]
  | defaultExport value =>
    show (∀ b ∈ value.toDeclaration?.toList.map _, _)
      ∧ (value.toDeclaration?.toList.map _).Pairwise _
    cases value.toDeclaration? <;> simp [Site.item]
  | importDecl typeOnly specifiers source =>
    refine ⟨?_, ?_⟩
    · intro b mem
      obtain ⟨s, -, rfl⟩ := List.mem_map.mp mem
      rfl
    · show (specifiers.zipIdx.map _).Pairwise _
      rw [List.pairwise_map]
      have places := List.pairwise_lt_range' (s := 0) (n := specifiers.length)
      rw [← List.zipIdx_map_snd, List.pairwise_map] at places
      exact places.imp fun earlier => .inr ⟨rfl, earlier⟩
  | exportList | exportAll | exportAllAs | other => exact ⟨nofun, .nil⟩

/-- The bindings of a module are listed in source order. -/
theorem pairwise_bindings (m : LoadedModule) :
    m.bindings.Pairwise fun a b => a.2.Before b.2 := by
  have indices := List.pairwise_lt_range' (s := 0) (n := m.items.length)
  rw [← List.zipIdx_map_snd, List.pairwise_map] at indices
  refine List.pairwise_flatMap.mpr ⟨fun i _ => (m.pairwise_bindingsOf i.2 i.1).2, ?_⟩
  refine indices.imp fun {i j} earlier a ina b inb => .inl ?_
  rw [(m.pairwise_bindingsOf i.2 i.1).1 a ina, (m.pairwise_bindingsOf j.2 j.1).1 b inb]
  exact earlier

/-- No declaration of a name stands in front of where the name is bound first. -/
theorem not_before_of_find? (first : m.bindings.find? (·.1 == name) = some (name, site))
    {other : Site} (stands : m.declarationAt? other = some d) (named : d.identifier.name = name) :
    ¬ other.Before site := by
  obtain ⟨b, mem, bound, item, place⟩ := exists_binding stands
  obtain ⟨-, before, after, split, none⟩ := List.find?_eq_some_iff_append.mp first
  have ordered := m.pairwise_bindings
  rw [split] at mem ordered
  have behind : b.2 = site ∨ site.Before b.2 := by
    rcases List.mem_append.mp mem with earlier | later
    · exact absurd (none b earlier) (by simp [bound, named])
    · rcases List.mem_cons.mp later with rfl | later
      · exact .inl rfl
      · exact .inr (List.rel_of_pairwise_cons (List.pairwise_append.mp ordered).2.1 later)
  rcases behind with same | later
  · rw [same] at item place
    rintro (lt | ⟨eq, lt⟩) <;> omega
  · rintro (lt | ⟨eq, lt⟩) <;> rcases later with gt | ⟨same, gt⟩ <;> omega

end LoadedModule

/-! ### The table -/

/-- What the table keeps under a number. -/
structure TableEntry where
  module : ModuleId
  name : String
  site : Site
deriving DecidableEq, Repr, Inhabited

/-- A module while it is indexed. Its numbers begin at `base`. -/
structure Indexer where
  module : ModuleId
  base : Nat
  entries : List TableEntry
  /-- The number of each name that is bound so far. -/
  scope : List (String × Nat)

namespace Indexer

/-- Gives a name the next number, unless it has one. -/
def bind (ix : Indexer) (binding : String × Site) : Indexer :=
  if (ix.scope.lookup binding.1).isSome then ix
  else { ix with
    entries := ix.entries ++ [⟨ix.module, binding.1, binding.2⟩]
    scope := (binding.1, ix.base + ix.entries.length) :: ix.scope }

/-- Indexes a module. -/
def run (m : LoadedModule) (id : ModuleId) (base : Nat) : Indexer :=
  m.bindings.foldl bind ⟨id, base, [], []⟩

end Indexer

/-- The symbols of the modules that are indexed so far. -/
structure SymbolTable where
  entries : List TableEntry
  /-- The numbers of the names that each module binds. -/
  scopes : List (List (String × Nat))

namespace SymbolTable

/-- Indexes one more module. -/
def add (t : SymbolTable) (m : LoadedModule) : SymbolTable :=
  let ix := Indexer.run m t.scopes.length t.entries.length
  ⟨t.entries ++ ix.entries, t.scopes ++ [ix.scope]⟩

/-- The number of a symbol. -/
def number? (t : SymbolTable) (s : Symbol) : Option Nat :=
  t.scopes[s.module]?.bind (·.lookup s.name)

end SymbolTable

/-- The table of a program. -/
def Program.table (p : Program) : SymbolTable := p.modules.foldl SymbolTable.add ⟨[], []⟩

/-! ### Indexing one module -/

theorem getElem?_concat_eq_some_iff {α : Type} {list : List α} {a b : α} {k : Nat} :
    (list ++ [a])[k]? = some b ↔ list[k]? = some b ∨ k = list.length ∧ a = b := by
  rw [List.getElem?_append]
  split
  · simp
    omega
  · rename_i past
    rw [List.getElem?_eq_none (Nat.not_lt.mp past)]
    cases at_end : k - list.length with
    | zero =>
      have last : k = list.length := by omega
      simp [last]
    | succ j =>
      have beyond : k ≠ list.length := by omega
      simp [beyond]

namespace Indexer

variable {ix : Indexer} {bindings : List (String × Site)}

/-- `ix.Indexed bindings`: the names that have been bound have one number each, which leads back to
where they were bound first. -/
structure Indexed (ix : Indexer) (bindings : List (String × Site)) : Prop where
  numbered : ∀ k e, ix.entries[k]? = some e → ix.scope.lookup e.name = some (ix.base + k)
  entered : ∀ name n, ix.scope.lookup name = some n → ∃ k site, n = ix.base + k ∧
    ix.entries[k]? = some ⟨ix.module, name, site⟩ ∧
    bindings.find? (·.1 == name) = some (name, site)
  found : ∀ b ∈ bindings, (ix.scope.lookup b.1).isSome

theorem bind_of_isSome {b : String × Site} (known : (ix.scope.lookup b.1).isSome) :
    ix.bind b = ix := if_pos known

theorem bind_of_none {b : String × Site} (new : ix.scope.lookup b.1 = none) :
    ix.bind b = { ix with
      entries := ix.entries ++ [⟨ix.module, b.1, b.2⟩]
      scope := (b.1, ix.base + ix.entries.length) :: ix.scope } :=
  if_neg (by simp [new])

/-- A name that has a number keeps it. -/
theorem Indexed.bind_of_isSome (indexed : ix.Indexed bindings) {b : String × Site}
    (known : (ix.scope.lookup b.1).isSome) : (ix.bind b).Indexed (bindings ++ [b]) := by
  rw [Indexer.bind_of_isSome known]
  refine ⟨indexed.numbered, ?_, ?_⟩
  · intro name n looked
    obtain ⟨k, site, eq, entry, first⟩ := indexed.entered name n looked
    exact ⟨k, site, eq, entry, by rw [List.find?_append, first]; rfl⟩
  · intro c mem
    rcases List.mem_append.mp mem with mem | mem
    · exact indexed.found c mem
    · obtain rfl := List.mem_singleton.mp mem
      exact known

/-- A name that is bound first is given a number. -/
theorem Indexed.bind_of_none (indexed : ix.Indexed bindings) {b : String × Site}
    (new : ix.scope.lookup b.1 = none) : (ix.bind b).Indexed (bindings ++ [b]) := by
  obtain ⟨numbered, entered, found⟩ := indexed
  rw [Indexer.bind_of_none new]
  have apart {name : String} {n : Nat} (looked : ix.scope.lookup name = some n) :
      (name == b.1) = false := by
    rw [beq_eq_false_iff_ne]
    rintro rfl
    cases new.symm.trans looked
  refine ⟨?numbered, ?entered, ?found⟩
  case numbered =>
    intro k e entry
    rw [List.lookup_cons]
    rcases getElem?_concat_eq_some_iff.1 entry with old | ⟨rfl, rfl⟩
    · rw [apart (numbered k e old)]
      exact numbered k e old
    · rw [beq_self_eq_true]
  case entered =>
    intro name n looked
    rw [List.lookup_cons] at looked
    split at looked
    · rename_i same
      obtain rfl := beq_iff_eq.mp same
      obtain rfl := Option.some.inj looked
      -- No binding before has the name, since it would have been given a number.
      have unbound : bindings.find? (·.1 == b.1) = none := by
        rw [List.find?_eq_none]
        intro c mem same
        rw [← beq_iff_eq.mp same] at new
        exact absurd (found c mem) (by simp [new])
      refine ⟨ix.entries.length, b.2, rfl, getElem?_concat_eq_some_iff.2 (.inr ⟨rfl, rfl⟩), ?_⟩
      rw [List.find?_append, unbound]
      simp
    · obtain ⟨k, site, eq, entry, first⟩ := entered name n looked
      exact ⟨k, site, eq, getElem?_concat_eq_some_iff.2 (.inl entry),
        by rw [List.find?_append, first]; rfl⟩
  case found =>
    intro c mem
    rw [List.lookup_cons]
    split
    · rfl
    · rename_i other
      rcases List.mem_append.mp mem with mem | mem
      · exact found c mem
      · obtain rfl := List.mem_singleton.mp mem
        cases (beq_self_eq_true c.1).symm.trans other

theorem Indexed.bind (indexed : ix.Indexed bindings) (b : String × Site) :
    (ix.bind b).Indexed (bindings ++ [b]) := by
  cases known : ix.scope.lookup b.1 with
  | some n => exact indexed.bind_of_isSome (by simp [known])
  | none => exact indexed.bind_of_none known

theorem module_base_bind (ix : Indexer) (b : String × Site) :
    (ix.bind b).module = ix.module ∧ (ix.bind b).base = ix.base := by
  unfold bind
  split <;> exact ⟨rfl, rfl⟩

/-- Binding names one after the other keeps what holds so far. -/
theorem Indexed.foldl (indexed : ix.Indexed bindings) (more : List (String × Site)) :
    (more.foldl Indexer.bind ix).Indexed (bindings ++ more) ∧
      (more.foldl Indexer.bind ix).module = ix.module ∧
      (more.foldl Indexer.bind ix).base = ix.base := by
  induction more generalizing ix bindings with
  | nil => exact ⟨by rwa [List.append_nil], rfl, rfl⟩
  | cons b more ih =>
    obtain ⟨indexed', module, base⟩ := ih (indexed.bind b)
    obtain ⟨module', base'⟩ := module_base_bind ix b
    rw [List.append_assoc] at indexed'
    exact ⟨indexed', module.trans module', base.trans base'⟩

/-- A module that has been indexed. -/
theorem indexed_run (m : LoadedModule) (id : ModuleId) (base : Nat) :
    (run m id base).Indexed m.bindings ∧ (run m id base).module = id ∧
      (run m id base).base = base := by
  have empty : Indexed ⟨id, base, [], []⟩ [] := ⟨nofun, nofun, nofun⟩
  exact empty.foldl m.bindings

end Indexer

/-! ### Indexing all modules -/

namespace SymbolTable

variable {t : SymbolTable} {modules : List LoadedModule}

/-- `t.Covers modules`: every number leads back to its name, each name that is bound has a number,
and what is kept under it is where it is bound first. -/
structure Covers (t : SymbolTable) (modules : List LoadedModule) : Prop where
  length : t.scopes.length = modules.length
  numbered : ∀ n e, t.entries[n]? = some e → t.number? ⟨e.module, e.name⟩ = some n
  entered : ∀ s n, t.number? s = some n → ∃ m site, modules[s.module]? = some m ∧
    t.entries[n]? = some ⟨s.module, s.name, site⟩ ∧
    m.bindings.find? (·.1 == s.name) = some (s.name, site)
  found : ∀ id m b, modules[id]? = some m → b ∈ m.bindings → (t.number? ⟨id, b.1⟩).isSome

/-- One more module has numbers of its own and leaves the others as they are. -/
theorem number?_add (t : SymbolTable) (m : LoadedModule) (s : Symbol) :
    (t.add m).number? s
      = if s.module = t.scopes.length then
          (Indexer.run m t.scopes.length t.entries.length).scope.lookup s.name
        else t.number? s := by
  unfold number? add
  split
  · rename_i last
    rw [last, List.getElem?_concat_length]
    rfl
  · rename_i other
    rcases Nat.lt_or_gt_of_ne other with lt | gt
    · rw [List.getElem?_append_left lt]
    · rw [List.getElem?_eq_none (by simp; omega), List.getElem?_eq_none (by omega)]

/-- Indexing one more module keeps what holds so far. -/
theorem Covers.add (covers : t.Covers modules) (m : LoadedModule) :
    (t.add m).Covers (modules ++ [m]) := by
  obtain ⟨length, numbered, entered, found⟩ := covers
  obtain ⟨indexed, module, base⟩ := Indexer.indexed_run m t.scopes.length t.entries.length
  refine ⟨by simp [SymbolTable.add, length], ?numbered, ?entered, ?found⟩
  case numbered =>
    -- Old entries keep their numbers, and those of the module begin behind them.
    intro n e entry
    rw [number?_add]
    rcases Nat.lt_or_ge n t.entries.length with old | new
    · have entry : t.entries[n]? = some e := (List.getElem?_append_left old).symm.trans entry
      have looked := numbered n e entry
      obtain ⟨_, _, here, -⟩ := entered _ n looked
      have inside : e.module < modules.length := (List.getElem?_eq_some_iff.mp here).1
      have other : e.module ≠ t.scopes.length := length ▸ Nat.ne_of_lt inside
      rw [if_neg other]
      exact looked
    · have entry := (List.getElem?_append_right new).symm.trans entry
      have looked := indexed.numbered _ e entry
      obtain ⟨k, site, eq, same, -⟩ := indexed.entered e.name _ looked
      obtain rfl : n - t.entries.length = k := by omega
      have own : e.module = t.scopes.length := by
        rw [Option.some.inj (entry.symm.trans same)]
        exact module
      rw [if_pos own, looked, base]
      congr 1
      omega
  case entered =>
    intro s n looked
    rw [number?_add] at looked
    split at looked
    · rename_i last
      obtain ⟨k, site, rfl, entry, first⟩ := indexed.entered s.name n looked
      refine ⟨m, site, ?_, ?_, first⟩
      · exact getElem?_concat_eq_some_iff.2 (.inr ⟨last.trans length, rfl⟩)
      · rw [base]
        refine (List.getElem?_append_right (Nat.le_add_right _ _)).trans ?_
        rw [Nat.add_sub_cancel_left, entry, module, last]
    · obtain ⟨m', site, here, entry, first⟩ := entered s n looked
      exact ⟨m', site, getElem?_concat_eq_some_iff.2 (.inl here),
        (List.getElem?_append_left (List.getElem?_eq_some_iff.mp entry).1).trans entry, first⟩
  case found =>
    intro id m' b here mem
    rw [number?_add]
    rcases getElem?_concat_eq_some_iff.1 here with old | ⟨rfl, rfl⟩
    · have inside := (List.getElem?_eq_some_iff.mp old).1
      have other : id ≠ t.scopes.length := length ▸ Nat.ne_of_lt inside
      rw [if_neg other]
      exact found id m' b old mem
    · rw [if_pos length.symm]
      exact indexed.found b mem

theorem Covers.foldl (covers : t.Covers modules) (more : List LoadedModule) :
    (more.foldl SymbolTable.add t).Covers (modules ++ more) := by
  induction more generalizing t modules with
  | nil => rwa [List.append_nil]
  | cons m more ih =>
    have rest := ih (covers.add m)
    rwa [List.append_assoc] at rest

end SymbolTable

namespace Program

/-- The table of a program covers its modules. -/
theorem covers_table (p : Program) : p.table.Covers p.modules := by
  have empty : SymbolTable.Covers ⟨[], []⟩ [] := by
    refine ⟨rfl, nofun, ?_, nofun⟩
    intro s n looked
    cases looked
  exact empty.foldl p.modules

/-- What the table keeps for a symbol leads back to its declaration, which is the first of its name.
-/
theorem declarationAt?_of_number? {p : Program} {s : Symbol} {n : Nat}
    (looked : p.table.number? s = some n) : ∃ m site d, p.module? s.module = some m ∧
      p.table.entries[n]? = some ⟨s.module, s.name, site⟩ ∧
      m.declarationAt? site = some d ∧ p.declaration? s = some d ∧ d.identifier.name = s.name ∧
      ∀ other d', m.declarationAt? other = some d' → d'.identifier.name = s.name →
        ¬ other.Before site := by
  obtain ⟨m, site, here, entry, first⟩ := p.covers_table.entered s n looked
  obtain ⟨d, named, stands⟩ := LoadedModule.exists_declares (List.mem_of_find?_eq_some first)
  refine ⟨m, site, d, here, entry, stands, ?_, named.symm, ?_⟩
  · rw [declaration?, module?, here]
    show m.declaration? s.name = some d
    rw [m.declaration?_eq, first]
    exact stands
  · exact fun other d' stands named => m.not_before_of_find? first stands named

/-- The symbols that are declared are those that have a number. -/
theorem isSome_number?_iff {p : Program} {s : Symbol} :
    (p.table.number? s).isSome ↔ (p.declaration? s).isSome := by
  constructor
  · intro known
    obtain ⟨n, looked⟩ := Option.isSome_iff_exists.mp known
    obtain ⟨m, site, d, -, -, -, declared, -⟩ := declarationAt?_of_number? looked
    rw [declared]
    rfl
  · intro declared
    obtain ⟨d, declared⟩ := Option.isSome_iff_exists.mp declared
    obtain ⟨m, here, declared⟩ := Option.bind_eq_some_iff.mp declared
    rw [m.declaration?_eq] at declared
    obtain ⟨b, first, -⟩ := Option.bind_eq_some_iff.mp declared
    have named : b.1 = s.name := by simpa using List.find?_some first
    have known := p.covers_table.found s.module m b here (List.mem_of_find?_eq_some first)
    rwa [named] at known

/-- No two symbols have one number. -/
theorem eq_of_number? {p : Program} {s t : Symbol} {n : Nat}
    (first : p.table.number? s = some n) (second : p.table.number? t = some n) : s = t := by
  obtain ⟨-, _, -, entry, -⟩ := p.covers_table.entered s n first
  obtain ⟨-, _, -, entry', -⟩ := p.covers_table.entered t n second
  have same := Option.some.inj (entry.symm.trans entry')
  obtain ⟨module, name⟩ := s
  cases same
  rfl

end Program

end TypedProps
