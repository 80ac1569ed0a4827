import TypedProps.Proofs.Exports.Aliases

/-!
# `TypedProps.Proofs.Exports.Forms`: the ways to export a type and to import it

There are several ways in which a module can export a type that it declares (`ExportForm`). Another
module can import it from there directly, or through one module in between (`Program.Binds`).
`aliased?_of_export` is about all of these together.

* `exported?_eq_some` and `exported?_eq_none_iff` say what the export table has under a name from
  what the items export.
* `finding_of_exported?` and its siblings carry an entry of the table over to one lookup.
* `Binds.exists_leads` and `Binds.within` put the lookups together: where the reference leads, and
  that two lookups find it if no other way is tried before.

The default export of a name, as in `export default Model`, is the one form that the table leaves
out. An import of it has no alias, as `aliased?_default_name_eq_none` shows.
-/

set_option autoImplicit false

namespace TypedProps

/-- The forms in which a module exports a name that it binds. -/
inductive ExportForm where
  /-- A declaration that is exported itself. -/
  | declaration
  /-- The declaration of an interface or a class as the default export. -/
  | defaultDeclaration
  /-- The name as the default export. -/
  | defaultName
  /-- A list of names. -/
  | list
deriving DecidableEq, Repr

/-- A name that a module binds, and the form and the name under which it is exported. -/
structure OwnExport where
  form : ExportForm
  own : String
  name : String
deriving DecidableEq, Repr

/-- The names of its own module that an item exports, as they are written. -/
def Item.ownExports (item : Item) : List OwnExport :=
  match item.form with
  | .declaration true decl =>
    decl.toDeclaration?.toList.map fun d => ⟨.declaration, d.identifier.name, d.identifier.name⟩
  | .defaultExport (.expression (.name _ own)) => [⟨.defaultName, own, "default"⟩]
  | .defaultExport value =>
    value.toDeclaration?.toList.map fun d => ⟨.defaultDeclaration, d.identifier.name, "default"⟩
  | .exportList _ specifiers none => specifiers.map fun s => ⟨.list, s.name, s.exported⟩
  | _ => []

/-- Whether a declaration is that of a type. All but imports are. -/
def Declaration.isType : Declaration → Bool
  | .imported .. => false
  | .typeAlias .. | .interfaceDecl .. | .classDecl _ | .enumDecl .. => true

namespace LoadedModule

variable {m : LoadedModule} {name own : String} {entry : ExportEntry}

/-- The names of its own that a module exports. -/
def ownExports (m : LoadedModule) : List OwnExport := m.items.flatMap Item.ownExports

/-- A module exports one thing under a name, if anything. -/
def Sole (m : LoadedModule) (name : String) (entry : ExportEntry) : Prop :=
  ∀ e ∈ m.items.flatMap m.exportsOf, e.name = name → e.entry = entry

/-- Whether a module exports one thing under a name, if anything, can be computed. -/
instance (m : LoadedModule) (name : String) (entry : ExportEntry) : Decidable (m.Sole name entry) :=
  inferInstanceAs (Decidable (∀ e ∈ m.items.flatMap m.exportsOf, e.name = name → e.entry = entry))

/-- The ways that the modules open which a module passes on as a whole. -/
def stars (m : LoadedModule) (id : ModuleId) : List Way :=
  m.writtenStars.map fun s => ⟨Program.starHop id s.2, s.1⟩

/-! ### The export table -/

/-- A name is exported in one of the forms that the table has exactly if an item has an entry for
it. -/
theorem exists_ownExport_iff (m : LoadedModule) (item : Item) (own name : String) :
    (∃ form, form ≠ .defaultName ∧ ⟨form, own, name⟩ ∈ item.ownExports) ↔
      ∃ e ∈ m.exportsOf item, e.name = name ∧ e.entry = .own own := by
  unfold Item.ownExports exportsOf
  -- The cases are those of `ownExports`, which looks at default exports more closely.
  split
  · rename_i decl form
    simp only [form, List.mem_map, OwnExport.mk.injEq, exists_exists_and_eq_and,
      ExportEntry.own.injEq]
    constructor
    · rintro ⟨_, -, d, mem, -, rfl, rfl⟩
      exact ⟨d, mem, rfl, rfl⟩
    · rintro ⟨d, mem, rfl, rfl⟩
      exact ⟨.declaration, by decide, d, mem, rfl, rfl, rfl⟩
  · rename_i loc id form
    simp only [form, DefaultExport.toDeclaration?, Option.toList_none, List.map_nil,
      List.not_mem_nil, false_and, exists_false, iff_false, List.mem_singleton, OwnExport.mk.injEq]
    rintro ⟨_, other, rfl, -⟩
    exact other rfl
  · rename_i value notName form
    simp only [form, List.mem_map, OwnExport.mk.injEq, exists_exists_and_eq_and,
      ExportEntry.own.injEq]
    constructor
    · rintro ⟨_, -, d, mem, -, rfl, rfl⟩
      exact ⟨d, mem, rfl, rfl⟩
    · rintro ⟨d, mem, rfl, rfl⟩
      exact ⟨.defaultDeclaration, by decide, d, mem, rfl, rfl, rfl⟩
  · rename_i typeOnly specifiers form
    simp only [form, List.mem_map, OwnExport.mk.injEq, exists_exists_and_eq_and,
      ExportEntry.own.injEq]
    constructor
    · rintro ⟨_, -, s, mem, -, rfl, rfl⟩
      exact ⟨s, mem, rfl, rfl⟩
    · rintro ⟨s, mem, rfl, rfl⟩
      exact ⟨.list, by decide, s, mem, rfl, rfl, rfl⟩
  · rename_i notDeclared notName notDefault notList
    simp only [List.not_mem_nil, and_false, exists_false, false_iff]
    rintro ⟨e, mem, -, entry⟩
    split at mem
    · rename_i decl form
      exact notDeclared decl form
    · rename_i value form
      exact notDefault value form
    · -- What is left of the lists are those with a source.
      rename_i typeOnly specifiers source form
      obtain ⟨s, -, rfl⟩ := List.mem_map.mp mem
      cases source with
      | none => exact notList typeOnly specifiers form
      | some source => cases entry
    · cases mem

/-- A name is exported in one of the forms that the table has exactly if the module has an entry
for it. -/
theorem exists_mem_ownExports_iff :
    (∃ form, form ≠ .defaultName ∧ ⟨form, own, name⟩ ∈ m.ownExports) ↔
      ∃ e ∈ m.items.flatMap m.exportsOf, e.name = name ∧ e.entry = .own own := by
  simp only [ownExports, List.mem_flatMap]
  constructor
  · rintro ⟨form, kept, item, itemMem, mem⟩
    obtain ⟨e, eMem, facts⟩ := (m.exists_ownExport_iff item own name).mp ⟨form, kept, mem⟩
    exact ⟨e, ⟨item, itemMem, eMem⟩, facts⟩
  · rintro ⟨e, ⟨item, itemMem, eMem⟩, facts⟩
    obtain ⟨form, kept, mem⟩ := (m.exists_ownExport_iff item own name).mpr ⟨e, eMem, facts⟩
    exact ⟨form, kept, item, itemMem, mem⟩

/-- The default export of a name is exported as `default`. -/
theorem name_of_defaultName (mem : ⟨.defaultName, own, name⟩ ∈ m.ownExports) :
    name = "default" := by
  obtain ⟨item, -, mem⟩ := List.mem_flatMap.mp mem
  unfold Item.ownExports at mem
  split at mem <;> simp_all

/-- The table has nothing under a name exactly if no item exports anything under it. -/
theorem exported?_eq_none_iff :
    m.exported? name = none ↔ ∀ e ∈ m.items.flatMap m.exportsOf, e.name ≠ name := by
  simp only [exported?, Option.map_eq_none_iff, Option.or_eq_none_iff, List.getLast?_eq_none_iff,
    List.head?_eq_none_iff, List.filter_eq_nil_iff]
  constructor
  · rintro ⟨-, absent⟩ e mem named
    exact absent e mem (by simp [named])
  · intro absent
    have none_of : ∀ e ∈ m.items.flatMap m.exportsOf, ¬ (e.name == name) = true := by
      intro e mem
      simpa using absent e mem
    refine ⟨fun e mem => ?_, none_of⟩
    obtain ⟨mem, named⟩ := List.mem_filter.mp mem
    exact absurd named (none_of e mem)

/-- The table has the only thing that the items export under a name. -/
theorem exported?_eq_some (exported : ∃ e ∈ m.items.flatMap m.exportsOf, e.name = name)
    (sole : m.Sole name entry) : m.exported? name = some entry := by
  cases found : m.exported? name with
  | none =>
    obtain ⟨e, mem, named⟩ := exported
    exact absurd named (exported?_eq_none_iff.1 found e mem)
  | some other =>
    -- Whichever entry the table takes is one that an item exports under the name.
    simp only [exported?, Option.map_eq_some_iff, Option.or_eq_some_iff] at found
    obtain ⟨e, taken, rfl⟩ := found
    have mem : e ∈ (m.items.flatMap m.exportsOf).filter (·.name == name) := by
      rcases taken with last | ⟨-, first⟩
      · exact List.mem_of_mem_filter (List.mem_of_getLast? last)
      · exact List.mem_of_head? first
    obtain ⟨mem, named⟩ := List.mem_filter.mp mem
    rw [sole e mem (by simpa using named)]

/-- The only declaration of a name is its first one. -/
theorem declaration?_of_filter {decl : Declaration}
    (only : m.declarations.filter (·.identifier.name == name) = [decl]) :
    m.declaration? name = some decl := by
  rw [declaration?, ← List.head?_filter, only]
  rfl

end LoadedModule

namespace Program

variable {p : Program} {d r : ModuleId} {module between : LoadedModule} {s target : Symbol}
  {name own : String} {earlier : List Way}

/-! ### One lookup -/

/-- What the table has under a name is written with a mark or without. -/
theorem exists_written? {entry : ExportEntry} (exported : module.exported? name = some entry) :
    ∃ mark, module.written? name = some (entry, mark) := by
  rw [← module.map_fst_written?, Option.map_eq_some_iff] at exported
  obtain ⟨⟨_, mark⟩, written, rfl⟩ := exported
  exact ⟨mark, written⟩

/-- A lookup finds the module's own name that the table has. -/
theorem finding_of_own (there : p.module? d = some module)
    (exported : module.exported? name = some (.own own)) :
    ∃ mark, p.finding d name = .declared (p.lookup d own) (ownHop d mark) := by
  obtain ⟨mark, written⟩ := exists_written? exported
  exact ⟨mark, by simp [finding, there, written, ownHop]⟩

/-- A lookup goes on in the module from which the table has a name. -/
theorem finding_of_reexport {inner : String} {typeOnly : Bool} (there : p.module? r = some module)
    (exported : module.exported? name = some (.reexport (some d) inner typeOnly)) :
    ∃ mark, p.finding r name = .elsewhere [⟨⟨.reexport, r, mark⟩, d⟩] inner := by
  obtain ⟨mark, written⟩ := exists_written? exported
  exact ⟨mark, by simp [finding, there, written]⟩

/-- A lookup of a name that the table has not goes on in the modules that are passed on as a
whole. -/
theorem finding_of_absent (there : p.module? r = some module)
    (absent : module.exported? name = none) :
    p.finding r name = .elsewhere (if name = "default" then [] else module.stars r) name := by
  rw [← module.map_fst_written?, Option.map_eq_none_iff] at absent
  unfold finding
  rw [there]
  simp only [absent, beq_iff_eq]
  -- Both sides ask whether the name is the one that is not passed on.
  split <;> rfl

/-! ### Several ways -/

/-- The first way decides if it leads to a symbol, else the others do. -/
theorem reference_cons (path : List Key) (w : Way) (rest : List Way) :
    p.reference path (w :: rest) name
      = (p.reference path [w] name).or (p.reference path rest name) := by
  rw [reference, reference.eq_def p path [w] name]
  simp

/-- Ways in front of one that leads to a symbol do no harm if they lead nowhere else. -/
theorem exists_reference_append {path : List Key} {before : List Way} (after : List Way) {w : Way}
    {trail : Trail} {P : Trail → Prop}
    (each : ∀ w ∈ before, ∀ t, p.reference path [w] name = some t → P t)
    (found : p.reference path [w] name = some trail) (holds : P trail) :
    ∃ t, p.reference path (before ++ w :: after) name = some t ∧ P t := by
  induction before with
  | nil =>
    refine ⟨trail, ?_, holds⟩
    rw [List.nil_append, reference_cons, found, Option.some_or]
  | cons first rest ih =>
    rw [List.cons_append, reference_cons]
    cases answer : p.reference path [first] name with
    | some t => exact ⟨t, rfl, each first List.mem_cons_self t answer⟩
    | none => exact ih fun w' mem => each w' (List.mem_cons_of_mem _ mem)

/-! ### Imports of what a module exports -/

/-- `p.Binds d target s name earlier`: an import binds the symbol `s` to what the module `d` exports
as `name`, and that is `target`. There may be one module in between, which has the name in a list or
passes `d` on as a whole. In the latter case `earlier` are the ways that are tried before the one to
`d`, and what they lead to is `target` as well: one name stands for one thing. -/
inductive Binds (p : Program) (d : ModuleId) (target s : Symbol) : String → List Way → Prop
  | direct {name : String} {typeOnly : Bool}
      (imported : p.importOf? s = some ([⟨importHop s.module typeOnly, d⟩], name)) :
      Binds p d target s name []
  | listed {r : ModuleId} {between : LoadedModule} {item : Item} {specifiers : List ExportSpecifier}
      {specifier : ExportSpecifier} {source : String} {typeOnly all : Bool}
      (imported : p.importOf? s = some ([⟨importHop s.module typeOnly, r⟩], specifier.exported))
      (there : p.module? r = some between) (mem : item ∈ between.items)
      (form : item.form = .exportList all specifiers (some source))
      (leads : between.target source = some d) (listed : specifier ∈ specifiers)
      (sole : between.Sole specifier.exported
        (.reexport (some d) specifier.name (all || specifier.typeOnly))) :
      Binds p d target s specifier.name []
  | starred {r : ModuleId} {between : LoadedModule} {name : String} {typeOnly : Bool} {hop : Hop}
      {earlier later : List Way}
      (imported : p.importOf? s = some ([⟨importHop s.module typeOnly, r⟩], name))
      (there : p.module? r = some between) (notDefault : name ≠ "default")
      (unlisted : ∀ e ∈ between.items.flatMap between.exportsOf, e.name ≠ name)
      (stars : between.stars r = earlier ++ ⟨hop, d⟩ :: later)
      (agree : ∀ w ∈ earlier, ∀ trail, p.reference [(r, name)] [w] name = some trail →
        ∃ rest, p.Leads trail.symbol rest ∧ rest.symbol = target) :
      Binds p d target s name earlier

namespace Binds

/-- A name from a list has its entry in the table. -/
theorem exported?_listed {item : Item} {specifiers : List ExportSpecifier}
    {specifier : ExportSpecifier} {source : String} {all : Bool} (mem : item ∈ between.items)
    (form : item.form = .exportList all specifiers (some source))
    (leads : between.target source = some d) (listed : specifier ∈ specifiers)
    (sole : between.Sole specifier.exported
      (.reexport (some d) specifier.name (all || specifier.typeOnly))) :
    between.exported? specifier.exported
      = some (.reexport (some d) specifier.name (all || specifier.typeOnly)) := by
  refine LoadedModule.exported?_eq_some ⟨⟨specifier.exported,
    .reexport (some d) specifier.name (all || specifier.typeOnly), true⟩, ?_, rfl⟩ sole
  refine List.mem_flatMap.mpr ⟨item, mem, ?_⟩
  simp only [LoadedModule.exportsOf, form, leads]
  exact List.mem_map.mpr ⟨specifier, listed, rfl⟩

/-- The binding is an import of one name. -/
theorem isSome (binds : p.Binds d target s name earlier) : (p.importOf? s).isSome := by
  cases binds with
  | direct imported => rw [imported]; rfl
  | listed imported => rw [imported]; rfl
  | starred imported => rw [imported]; rfl

/-- Where the reference leads from the binding: to what `d` exports. -/
theorem exists_leads {hop : Hop} (binds : p.Binds d target s name earlier)
    (found : p.finding d name = .declared (some target) hop) (stops : p.importOf? target = none) :
    ∃ trail, p.Leads s trail ∧ trail.symbol = target := by
  have here : p.Leads target ⟨target, p.wholeImport target⟩ := .here stops
  cases binds with
  | @direct name typeOnly imported =>
    have answer : p.reference [] [⟨importHop s.module typeOnly, d⟩] name = _ :=
      reference_cons_of_declared List.not_mem_nil found
    exact ⟨_, .next imported answer here, rfl⟩
  | @listed r between item specifiers specifier source typeOnly all imported there mem form leads
      listed sole =>
    obtain ⟨mark, next⟩ := finding_of_reexport there (exported?_listed mem form leads listed sole)
    -- What is looked up first is not what is found: the one goes on, and the other ends.
    have fresh : (d, specifier.name) ∉ [(r, specifier.exported)] := by
      intro same
      obtain ⟨rfl, named⟩ := Prod.mk.inj (List.mem_singleton.mp same)
      rw [named, next] at found
      cases found
    have inside : p.reference [(r, specifier.exported)] [⟨⟨.reexport, r, mark⟩, d⟩] specifier.name
        = _ := reference_cons_of_declared fresh found
    have answer : p.reference [] [⟨importHop s.module typeOnly, r⟩] specifier.exported = _ :=
      reference_cons_of_elsewhere List.not_mem_nil next
    rw [inside] at answer
    exact ⟨_, .next imported answer here, rfl⟩
  | @starred r between name typeOnly hop' earlier later imported there notDefault unlisted stars
      agree =>
    have next := finding_of_absent there (LoadedModule.exported?_eq_none_iff.mpr unlisted)
    rw [if_neg notDefault, stars] at next
    have fresh : (d, name) ∉ [(r, name)] := by
      intro same
      obtain ⟨rfl, -⟩ := Prod.mk.inj (List.mem_singleton.mp same)
      rw [next] at found
      cases found
    have last : p.reference [(r, name)] [⟨hop', d⟩] name = some ⟨target, [hop', hop]⟩ := by
      rw [reference_cons_of_declared fresh found]
      rfl
    obtain ⟨t, inside, rest, leads, same⟩ := exists_reference_append later agree last
      ⟨_, here, rfl⟩
    have answer : p.reference [] [⟨importHop s.module typeOnly, r⟩] name = _ :=
      reference_cons_of_elsewhere List.not_mem_nil next
    rw [inside] at answer
    exact ⟨_, .next imported answer leads, same⟩

/-- At most two lookups find what `d` exports if no way is tried before the one to it. -/
theorem exists_walk {hop : Hop} (binds : p.Binds d target s name [])
    (found : p.finding d name = .declared (some target) hop) (stops : p.importOf? target = none)
    (notWhole : p.wholeImport target = []) : ∃ trail n, p.Walk s trail n ∧ n ≤ 2 := by
  generalize prompt : ([] : List Way) = earlier at binds
  cases binds with
  | direct imported =>
    exact ⟨_, 1, .of_search imported (.declared found) stops notWhole, by decide⟩
  | listed imported there mem form leads listed sole =>
    obtain ⟨mark, next⟩ := finding_of_reexport there (exported?_listed mem form leads listed sole)
    exact ⟨_, 2, .of_search imported (.through next (.declared found)) stops notWhole,
      Nat.le_refl 2⟩
  | starred imported there notDefault unlisted stars agree =>
    have next := finding_of_absent there (LoadedModule.exported?_eq_none_iff.mpr unlisted)
    rw [if_neg notDefault, stars, ← prompt, List.nil_append] at next
    exact ⟨_, 2, .of_search imported (.through next (.declared found)) stops notWhole,
      Nat.le_refl 2⟩

/-- If `d` does not export the default, the search that an import of it makes finds nothing. -/
theorem exists_search_none (binds : p.Binds d target s "default" earlier)
    (ends : p.finding d "default" = .elsewhere [] "default") :
    ∃ ways inner n, p.importOf? s = some (ways, inner) ∧ p.Search ways inner none n := by
  generalize default : "default" = name at binds ends
  cases binds with
  | direct imported => exact ⟨_, _, _, imported, .abandoned ends .nil .nil⟩
  | listed imported there mem form leads listed sole =>
    obtain ⟨mark, next⟩ := finding_of_reexport there (exported?_listed mem form leads listed sole)
    exact ⟨_, _, _, imported, .abandoned next (.abandoned ends .nil .nil) .nil⟩
  | starred _ _ notDefault => exact absurd default.symm notDefault

/-- If `d` does not export the default, an import of it has no alias. -/
theorem aliased?_eq_none (binds : p.Binds d target s "default" earlier)
    (there : p.module? d = some module) (absent : module.exported? "default" = none) :
    p.aliased? s = none := by
  have ends : p.finding d "default" = .elsewhere [] "default" := finding_of_absent there absent
  obtain ⟨ways, inner, n, imported, search⟩ := binds.exists_search_none ends
  rw [Option.eq_none_iff_forall_ne_some]
  intro t aliased
  obtain ⟨isSome, trail, k, walk, -, -⟩ := aliased?_eq_some_iff.1 aliased
  cases walk with
  | here stops => simp [stops] at isSome
  | next imported' found _ =>
    obtain ⟨rfl, rfl⟩ := Prod.mk.inj (Option.some.inj (imported.symm.trans imported'))
    cases (search.unique found).1

end Binds

/-- A walk whose cost is within the bound. -/
theorem Within.of_walk {trail : Trail} {n : Nat} (walk : p.Walk s trail n) (le : n ≤ maxHops) :
    p.Within s trail := by
  obtain ⟨abandoned, rfl⟩ := Nat.exists_eq_add_of_le walk.lookups_le
  exact ⟨abandoned, walk, le⟩

/-! ### All forms -/

/-- The declaration of a type is where following imports ends. -/
theorem importOf?_of_isType {decl : Declaration} (declared : p.declaration? s = some decl)
    (type : decl.isType = true) : p.importOf? s = none ∧ p.wholeImport s = [] := by
  unfold importOf? wholeImport
  rw [declared]
  cases decl with
  | imported => cases type
  | typeAlias | interfaceDecl | classDecl | enumDecl => exact ⟨rfl, rfl⟩

/-- A module declares a type, alone under its name, and exports it, alone under that name. It is
bound by an import, directly or through one module in between. Then the declaration is what the
symbol of the type stands for.

In every form but the default export of a name, the reference leads from the import to that symbol.
The symbol is the alias of the import exactly if the search is within the bound, and there is no
other alias. It is within the bound if no other way is tried before. If the type is exported in no
form but the default export of its name, the import has no alias at all. -/
theorem aliased?_of_export {form : ExportForm} {decl : Declaration}
    (there : p.module? d = some module)
    (only : module.declarations.filter (·.identifier.name == own) = [decl])
    (type : decl.isType = true) (exported : ⟨form, own, name⟩ ∈ module.ownExports)
    (sole : module.Sole name (.own own)) (binds : p.Binds d ⟨d, own⟩ s name earlier) :
    p.declaration? ⟨d, own⟩ = some decl ∧
      (form ≠ .defaultName → ∃ trail, p.Leads s trail ∧ trail.symbol = ⟨d, own⟩ ∧
        (p.aliased? s = some ⟨d, own⟩ ↔ p.Within s trail) ∧
        (p.aliased? s = none ↔ ¬ p.Within s trail) ∧ (earlier = [] → p.Within s trail)) ∧
      ((∀ other, ⟨other, own, name⟩ ∈ module.ownExports → other = .defaultName) →
        p.aliased? s = none) := by
  have declared : p.declaration? ⟨d, own⟩ = some decl := by
    rw [declaration?, there]
    exact LoadedModule.declaration?_of_filter only
  obtain ⟨stops, notWhole⟩ := importOf?_of_isType declared type
  refine ⟨declared, ?_, ?_⟩
  · intro tabled
    have entry := LoadedModule.exists_mem_ownExports_iff.mp ⟨form, tabled, exported⟩
    obtain ⟨mark, found⟩ := finding_of_own there
      (LoadedModule.exported?_eq_some (entry.imp fun e facts => ⟨facts.1, facts.2.1⟩) sole)
    rw [lookup, declared, Option.map_some] at found
    obtain ⟨trail, leads, same⟩ := binds.exists_leads found stops
    have within := aliased?_iff_within binds.isSome leads
    rw [same] at within
    refine ⟨trail, leads, same, within.1, within.2, ?_⟩
    rintro rfl
    obtain ⟨trail', n, walk, le⟩ := binds.exists_walk found stops notWhole
    obtain rfl := walk.leads.unique leads
    exact .of_walk walk (Nat.le_trans le (by decide))
  · intro unlisted
    -- A default export of a name has no entry, and no other form is there to make one.
    have absent : module.exported? name = none := by
      rw [LoadedModule.exported?_eq_none_iff]
      rintro e mem named
      obtain ⟨other, tabled, mem'⟩ := LoadedModule.exists_mem_ownExports_iff.mpr
        ⟨e, mem, named, sole e mem named⟩
      exact tabled (unlisted other mem')
    obtain rfl := LoadedModule.name_of_defaultName (unlisted form exported ▸ exported)
    exact binds.aliased?_eq_none there absent

/-- A module passes on an empty one and then the one that declares and exports an interface. -/
def passedOnFiles : Sources := .ofList [
  ("/main.ts", .text "import { Props } from './index'\n"),
  ("/index.ts", .text "export * from './empty'\nexport * from './props'\n"),
  ("/empty.ts", .text ""),
  ("/props.ts", .text "export interface Props { title: string }\n")]

/-- In `passedOnFiles`, the interface is found behind the way to the empty module. -/
theorem aliased?_of_export_passed_on :
    ∃ p module decl, load passedOnFiles "/main.ts" = .ok p ∧ p.module? 3 = some module ∧
      module.declarations.filter (·.identifier.name == "Props") = [decl] ∧ decl.isType = true ∧
      ⟨.declaration, "Props", "Props"⟩ ∈ module.ownExports ∧ module.Sole "Props" (.own "Props") ∧
      p.Binds 3 ⟨3, "Props"⟩ ⟨0, "Props"⟩ "Props" [⟨starHop 1 false, 2⟩] ∧
      p.declaration? ⟨3, "Props"⟩ = some decl ∧
      (∃ trail, p.Leads ⟨0, "Props"⟩ trail ∧ trail.symbol = ⟨3, "Props"⟩ ∧
        (p.aliased? ⟨0, "Props"⟩ = some ⟨3, "Props"⟩ ↔ p.Within ⟨0, "Props"⟩ trail)) ∧
      p.aliased? ⟨0, "Props"⟩ = some ⟨3, "Props"⟩ := by
  have loads : loadsWith passedOnFiles "/main.ts" (fun p =>
      (p.module? 1).any (fun m => decide
        ((∀ e ∈ m.items.flatMap m.exportsOf, e.name ≠ "Props") ∧
          m.stars 1 = [⟨starHop 1 false, 2⟩, ⟨starHop 1 false, 3⟩])) &&
      (p.module? 3).any (fun m => decide
        ((m.declarations.filter (·.identifier.name == "Props")).length = 1 ∧
          (∀ d ∈ m.declarations.filter (·.identifier.name == "Props"), d.isType = true) ∧
          ⟨.declaration, "Props", "Props"⟩ ∈ m.ownExports ∧ m.Sole "Props" (.own "Props"))) &&
      decide (p.importOf? ⟨0, "Props"⟩ = some ([⟨importHop 0 false, 1⟩], "Props") ∧
        p.finding 1 "Props" = .elsewhere [⟨starHop 1 false, 2⟩, ⟨starHop 1 false, 3⟩] "Props" ∧
        p.finding 2 "Props" = .elsewhere [] "Props" ∧
        p.finding 3 "Props" = .declared (some ⟨3, "Props"⟩) (ownHop 3 false) ∧
        p.importOf? ⟨3, "Props"⟩ = none ∧ p.wholeImport ⟨3, "Props"⟩ = [])) = true := by
    refine loadsWith_of_written (by repeat constructor) ?_
    decide +kernel
  obtain ⟨p, loaded, facts⟩ := exists_of_loadsWith loads
  simp only [Bool.and_eq_true, Option.any_eq_true, decide_eq_true_eq] at facts
  obtain ⟨⟨⟨between, index, unlisted, stars⟩, module, there, single, types, exported, sole⟩,
    imported, next, empty, found, stops, notWhole⟩ := facts
  obtain ⟨decl, only⟩ := List.length_eq_one_iff.mp single
  have type : decl.isType = true := types decl (by rw [only]; exact List.mem_singleton_self decl)
  have nowhere : p.reference [(1, "Props")] [⟨starHop 1 false, 2⟩] "Props" = none := by
    rw [reference_cons_of_elsewhere (by decide) empty]
    simp
  have binds : p.Binds 3 ⟨3, "Props"⟩ ⟨0, "Props"⟩ "Props" [⟨starHop 1 false, 2⟩] := by
    refine .starred imported index (by decide) unlisted stars ?_
    intro w mem trail found
    obtain rfl := List.mem_singleton.mp mem
    rw [nowhere] at found
    cases found
  obtain ⟨declared, tabled, -⟩ := aliased?_of_export there only type exported sole binds
  obtain ⟨trail, leads, same, within, -⟩ := tabled (by decide)
  -- One of the three lookups is in the module that is passed on first.
  have search : p.Search [⟨importHop 0 false, 1⟩] "Props" _ 3 :=
    .through next (.abandoned empty .nil (.declared found))
  have walk : p.Walk ⟨0, "Props"⟩ _ 3 := .of_search imported search stops notWhole
  obtain rfl := walk.leads.unique leads
  exact ⟨p, module, decl, loaded, there, only, type, exported, sole, binds, declared,
    ⟨_, leads, same, within⟩, within.mpr (.of_walk walk (by decide))⟩

/-- A module declares an interface and exports its name as the default. -/
def defaultNameFiles : Sources := .ofList [
  ("/a.ts", .text "import D from './d'\n"),
  ("/d.ts", .text "interface D { a: string }\nexport default D\n")]

/-- The interface of `defaultNameFiles` is declared and exported once, and its import has no
alias. -/
theorem aliased?_default_name_eq_none :
    ∃ p module decl, load defaultNameFiles "/a.ts" = .ok p ∧ p.module? 1 = some module ∧
      module.declarations.filter (·.identifier.name == "D") = [decl] ∧ decl.isType = true ∧
      ⟨.defaultName, "D", "default"⟩ ∈ module.ownExports ∧ module.Sole "default" (.own "D") ∧
      p.Binds 1 ⟨1, "D"⟩ ⟨0, "D"⟩ "default" [] ∧ p.declaration? ⟨1, "D"⟩ = some decl ∧
      p.aliased? ⟨0, "D"⟩ = none := by
  have loads : loadsWith defaultNameFiles "/a.ts" (fun p =>
      (p.module? 1).any (fun m => decide
        ((m.declarations.filter (·.identifier.name == "D")).length = 1 ∧
          (∀ d ∈ m.declarations.filter (·.identifier.name == "D"), d.isType = true) ∧
          ⟨.defaultName, "D", "default"⟩ ∈ m.ownExports ∧ m.Sole "default" (.own "D") ∧
          m.exported? "default" = none)) &&
      decide (p.importOf? ⟨0, "D"⟩ = some ([⟨importHop 0 false, 1⟩], "default"))) = true := by
    refine loadsWith_of_written (by repeat constructor) ?_
    decide +kernel
  obtain ⟨p, loaded, facts⟩ := exists_of_loadsWith loads
  simp only [Bool.and_eq_true, Option.any_eq_true, decide_eq_true_eq] at facts
  obtain ⟨⟨module, there, single, types, exported, sole, absent⟩, imported⟩ := facts
  obtain ⟨decl, only⟩ := List.length_eq_one_iff.mp single
  have type : decl.isType = true := types decl (by rw [only]; exact List.mem_singleton_self decl)
  have declared : p.declaration? ⟨1, "D"⟩ = some decl := by
    rw [declaration?, there]
    exact LoadedModule.declaration?_of_filter only
  have binds : p.Binds 1 ⟨1, "D"⟩ ⟨0, "D"⟩ "default" [] := .direct imported
  exact ⟨p, module, decl, loaded, there, only, type, exported, sole, binds, declared,
    binds.aliased?_eq_none there absent⟩

end Program

end TypedProps
