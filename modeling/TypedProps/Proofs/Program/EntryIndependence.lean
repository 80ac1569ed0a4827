import TypedProps.Proofs.Component.Named
import TypedProps.Proofs.Component.Relocation
import TypedProps.Proofs.Program.Discovery
import TypedProps.Transform

/-!
# `TypedProps.Proofs.Program.EntryIndependence`: a module transforms alike from every entry

A module that is loaded with an entry can be loaded as an entry itself. The program that it then
begins is part of the larger one (`Program.exists_embeds`): it holds the modules that can be reached
from there, each with the same text, and their imports lead to the same modules. Only the numbers of
the modules differ. So the module has the same components in both programs, and the same patch, and
what is noted about it is the same at the same lines and columns
(`Program.transformFile_of_module`).
-/

set_option autoImplicit false

namespace TypedProps

namespace LoadedModule

/-- Where a specifier leads, if the targets are listed by specifier. -/
theorem target_of_targets {m : LoadedModule} {specifiers : List String}
    {lead : String → Option ModuleId}
    (targets : m.targets = specifiers.map fun specifier => (specifier, lead specifier))
    (specifier : String) :
    m.target specifier = if specifier ∈ specifiers then lead specifier else none := by
  unfold target
  rw [targets]
  clear targets
  induction specifiers with
  | nil => rfl
  | cons first rest ih =>
    rw [List.map_cons, List.lookup_cons]
    by_cases same : specifier = first
    · simp [same]
    · have apart : (specifier == first) = false := beq_eq_false_iff_ne.mpr same
      simp only [apart, ih, List.mem_cons, same, false_or]

end LoadedModule

/-- Modules with the same items agree, where nothing moves and specifiers lead to the relocated
modules. -/
theorem Relocation.Agrees.of_target {r : Relocation} (stays : r.span = id) {m' m : LoadedModule}
    (items : m'.items = m.items)
    (target : ∀ specifier, m'.target specifier = (m.target specifier).map r.module) :
    r.Agrees m' m := by
  have declared (decl : Decl) :
      decl.toDeclaration?.toList = decl.toDeclaration?.toList.map r.declaration := by
    cases decl <;> simp [Decl.toDeclaration?, declaration, stays, Identifier.moved_id,
      Base.moved_id, Ty.moved_id, Member.movedAll_id, EnumMember.moved_id]
  have defaulted (value : DefaultExport) :
      value.toDeclaration?.toList = value.toDeclaration?.toList.map r.declaration := by
    rcases value with _ | (_ | _) | _ | _ <;> simp [DefaultExport.toDeclaration?, declaration,
      stays, Identifier.moved_id, Base.moved_id, Member.movedAll_id]
  -- The items are the same, so only what a specifier leads to has to be compared.
  refine .of_lists ?_ ?_ ?_
  · unfold LoadedModule.declarations
    rw [items, List.map_flatMap]
    congr 1
    funext item
    unfold LoadedModule.declarationsOf
    split
    · exact declared _
    · exact defaulted _
    · simp [declaration, stays, Identifier.moved_id, target]
    · rfl
  · rw [items, List.map_flatMap]
    congr 1
    funext item
    unfold LoadedModule.exportsOf
    split
    · simp [namedExport, entry]
    · simp [namedExport, entry]
    · rw [List.map_map]
      refine List.map_congr_left fun specifier _ => ?_
      split <;> simp [namedExport, entry, target]
    · rfl
  · unfold LoadedModule.starTargets
    rw [items, List.map_filterMap]
    congr 1
    funext item
    split
    · exact target _
    · rfl

namespace Program

variable {s : Sources}

/-! ### What a program consists of -/

/-- What loading an entry gives: the modules that are reached and can be read, each once, with their
specifiers connected. -/
structure LoadedFrom (s : Sources) (entry : String) (p : Program) : Prop where
  read : ∀ m ∈ p.modules, ReadModule.read s m.path = .ok m.asRead
  targets : ∀ m ∈ p.modules, m.targets = m.asRead.specifiers.map fun specifier =>
    (specifier, (Specifier.resolve? s m.path specifier).bind p.moduleId?)
  mem_paths_iff : ∀ path, path ∈ p.modules.map LoadedModule.path ↔
    Relation.ReflTransGen (Imports s) (Path.normalize entry) path ∧ (read? s path).isSome
  normal : ∀ m ∈ p.modules, Path.IsNormal m.path
  nodup : (p.modules.map LoadedModule.path).Nodup

/-- Connected modules have their specifiers lead to the modules under the resolved paths. -/
theorem targets_of_mem_connect {found : Exploration} {m : LoadedModule}
    (mem : m ∈ (connect s found).modules) :
    m.targets = m.asRead.specifiers.map fun specifier =>
      (specifier, (Specifier.resolve? s m.path specifier).bind (connect s found).moduleId?) := by
  obtain ⟨m', inside, rfl⟩ := List.mem_map.mp mem
  refine List.map_congr_left fun specifier _ => ?_
  rw [Prod.mk.injEq]
  refine ⟨rfl, ?_⟩
  show (Specifier.resolve? s m'.path specifier).bind _
    = (Specifier.resolve? s m'.path specifier).bind _
  cases resolved : Specifier.resolve? s m'.path specifier with
  | none => rfl
  | some path =>
    -- A specifier leads to a normal path, so normalizing it again changes nothing.
    have normal : Path.normalize path = path := (Specifier.of_resolve? resolved).1
    rw [Option.bind_some, Option.bind_some, moduleId?, normal]
    unfold connect
    rw [List.findIdx?_map]
    rfl

/-- A program that is loaded consists of what is reached. -/
theorem loadedFrom_of_load (normalized : s.Normalized) {entry : String} {p : Program}
    (loaded : load s entry = .ok p) : LoadedFrom s entry p := by
  obtain ⟨first, isRead, -⟩ := load_eq_ok_iff.1 loaded
  have nodup := (paths_of_load normalized.nodup loaded).2
  have search := breadthFirst_tried normalized isRead
  rw [load_eq isRead] at loaded
  generalize Path.normalize entry :: tried s (s.paths.erase (Path.normalize entry)) [first] = found
    at loaded search
  have eq := Except.ok.inj loaded
  have listed : p.modules.map LoadedModule.asRead = found.filterMap (read? s) := by
    rw [← eq]
    exact map_asRead_connect s _
  have paths : p.modules.map LoadedModule.path
      = found.filter fun path => (read? s path).isSome := by
    rw [← (map_path_filterMap_read? s found).1, ← listed, List.map_map]
    rfl
  -- The search finds what is reached, and what is found is loaded if it can be read.
  have mem_paths_iff (path : String) : path ∈ p.modules.map LoadedModule.path ↔
      Relation.ReflTransGen (Imports s) (Path.normalize entry) path ∧ (read? s path).isSome := by
    rw [paths, List.mem_filter, search.mem_iff, exists_reachedIn_iff]
  have read (m : LoadedModule) (mem : m ∈ p.modules) :
      ReadModule.read s m.path = .ok m.asRead := by
    have inside : m.asRead ∈ found.filterMap (read? s) := listed ▸ List.mem_map_of_mem mem
    obtain ⟨path, -, found⟩ := List.mem_filterMap.mp inside
    have isRead := read?_eq_some_iff.1 found
    have same : m.path = path := path_of_read isRead
    rw [same]
    exact isRead
  have normal (m : LoadedModule) (mem : m ∈ p.modules) : Path.IsNormal m.path :=
    isNormal_of_reached ((mem_paths_iff m.path).mp (List.mem_map_of_mem mem)).1
  have targets (m : LoadedModule) (mem : m ∈ p.modules) : m.targets = m.asRead.specifiers.map
      fun specifier => (specifier, (Specifier.resolve? s m.path specifier).bind p.moduleId?) := by
    rw [← eq] at mem ⊢
    exact targets_of_mem_connect mem
  exact ⟨read, targets, mem_paths_iff, normal, nodup⟩

/-! ### The program of a module within a program -/

section Within

variable {entry inner : String} {p q : Program}

/-- The place of a module is found by its path. -/
theorem LoadedFrom.moduleId? (outer : LoadedFrom s entry p) {id : ModuleId} {m : LoadedModule}
    (isModule : p.module? id = some m) : p.moduleId? m.path = some id := by
  obtain ⟨inside, rfl⟩ := List.getElem?_eq_some_iff.mp isModule
  have normal : Path.normalize p.modules[id].path = p.modules[id].path :=
    outer.normal _ (List.getElem_mem inside)
  rw [Program.moduleId?, normal, List.findIdx?_eq_some_iff_getElem]
  refine ⟨inside, by simp, fun j before => ?_⟩
  -- Another module has another path.
  simp only [beq_iff_eq]
  intro same
  have earlier : j < (p.modules.map LoadedModule.path).length := by
    rw [List.length_map]
    omega
  have here : id < (p.modules.map LoadedModule.path).length := by simpa using inside
  have samePath : (p.modules.map LoadedModule.path)[j] = (p.modules.map LoadedModule.path)[id] := by
    simpa using same
  have := outer.nodup.getElem_inj_iff.mp samePath
  omega

/-- A path of a program is that of a module at a place. -/
theorem exists_module?_of_mem {path : String} (mem : path ∈ p.modules.map LoadedModule.path) :
    ∃ id m, p.module? id = some m ∧ m.path = path := by
  obtain ⟨m, inside, rfl⟩ := List.mem_map.mp mem
  obtain ⟨id, isModule⟩ := List.mem_iff_getElem?.mp inside
  exact ⟨id, m, isModule, rfl⟩

/-- The place that a module of one program has in another one. Places without a module go behind all
modules. -/
def placeIn (p q : Program) (id : ModuleId) : ModuleId :=
  ((q.module? id).bind fun m => p.moduleId? m.path).getD (p.modules.length + id)

theorem module?_placeIn_of_none {id : ModuleId} (missing : q.module? id = none) :
    p.module? (placeIn p q id) = none := by
  show p.modules[placeIn p q id]? = none
  rw [placeIn, missing, List.getElem?_eq_none_iff]
  exact Nat.le_add_right _ _

variable (outer : LoadedFrom s entry p) (part : LoadedFrom s inner q)
  (reached : Relation.ReflTransGen (Imports s) (Path.normalize entry) (Path.normalize inner))
include outer part reached

/-- What is reached from a file that is reached is reached itself. -/
theorem mem_paths_of_mem_paths {path : String} (mem : path ∈ q.modules.map LoadedModule.path) :
    path ∈ p.modules.map LoadedModule.path := by
  obtain ⟨further, isRead⟩ := (part.mem_paths_iff path).mp mem
  exact (outer.mem_paths_iff path).mpr ⟨reached.trans further, isRead⟩

/-- A module of the part is found in the whole program, read from the same file. -/
theorem exists_module?_placeIn {id : ModuleId} {m : LoadedModule}
    (isModule : q.module? id = some m) :
    ∃ m', p.module? (placeIn p q id) = some m' ∧ p.moduleId? m.path = some (placeIn p q id) ∧
      m'.asRead = m.asRead := by
  have mem : m ∈ q.modules := List.mem_of_getElem? isModule
  obtain ⟨id', m', there, same⟩ := exists_module?_of_mem
    (mem_paths_of_mem_paths outer part reached (List.mem_map_of_mem mem))
  have placed : p.moduleId? m.path = some id' := same ▸ outer.moduleId? there
  have place : placeIn p q id = id' := by
    rw [placeIn, isModule, Option.bind_some, placed]
    rfl
  have read : ReadModule.read s m.path = .ok m.asRead := part.read m mem
  have read' := outer.read m' (List.mem_of_getElem? there)
  rw [same] at read'
  exact ⟨m', place ▸ there, place ▸ placed, Except.ok.inj (read'.symm.trans read)⟩

theorem placeIn_injective : Function.Injective (placeIn p q) := by
  have inside {id : ModuleId} {m : LoadedModule} (isModule : q.module? id = some m) :
      placeIn p q id < p.modules.length := by
    obtain ⟨m', there, -⟩ := exists_module?_placeIn outer part reached isModule
    exact (List.getElem?_eq_some_iff.mp there).1
  have behind {id : ModuleId} (missing : q.module? id = none) :
      placeIn p q id = p.modules.length + id := by
    rw [placeIn, missing]
    rfl
  intro a b same
  cases first : q.module? a with
  | none =>
    cases second : q.module? b with
    | none =>
      rw [behind first, behind second] at same
      exact Nat.add_left_cancel same
    | some m =>
      have inFront := inside second
      rw [← same, behind first] at inFront
      exact absurd inFront (Nat.not_lt.mpr (Nat.le_add_right _ _))
  | some m =>
    cases second : q.module? b with
    | none =>
      have inFront := inside first
      rw [same, behind second] at inFront
      exact absurd inFront (Nat.not_lt.mpr (Nat.le_add_right _ _))
    | some m' =>
      -- The same place has one path, and no two modules of the part have the same one.
      obtain ⟨n, there, -, read⟩ := exists_module?_placeIn outer part reached first
      obtain ⟨n', there', -, read'⟩ := exists_module?_placeIn outer part reached second
      rw [same, there', Option.some.injEq] at there
      have paths : m.path = m'.path := by
        have path : n.path = m.path := congrArg ReadModule.path read
        have path' : n'.path = m'.path := congrArg ReadModule.path read'
        rw [← path, ← path', there]
      have ids := part.moduleId? first
      rw [paths, part.moduleId? second] at ids
      exact (Option.some.inj ids).symm

/-- An import of the part leads in the whole program to where it leads in the part. -/
theorem moduleId?_of_imports {a b : String} {id : ModuleId} {m : LoadedModule}
    (isModule : q.module? id = some m) (path : m.path = a) (imports : Imports s a b) :
    p.moduleId? b = (q.moduleId? b).map (placeIn p q) := by
  have normal : Path.IsNormal b :=
    (mem_paths_of_mem_references (mem_references_iff.2 imports)).1
  have toPart : Relation.ReflTransGen (Imports s) (Path.normalize inner) b := by
    have here := ((part.mem_paths_iff m.path).mp
      (List.mem_map_of_mem (List.mem_of_getElem? isModule))).1
    exact here.tail (path ▸ imports)
  cases isRead : (read? s b).isSome with
  | true =>
    obtain ⟨id', m', there, rfl⟩ := exists_module?_of_mem
      ((part.mem_paths_iff b).mpr ⟨toPart, isRead⟩)
    obtain ⟨-, -, placed, -⟩ := exists_module?_placeIn outer part reached there
    rw [part.moduleId? there, placed]
    rfl
  | false =>
    -- A file that cannot be read is no module of either program.
    have missing {e : String} {p' : Program} (loaded : LoadedFrom s e p') :
        p'.moduleId? b = none := by
      rw [Program.moduleId?, show Path.normalize b = b from normal, List.findIdx?_eq_none_iff]
      intro m' mem
      rw [beq_eq_false_iff_ne]
      rintro rfl
      have := ((loaded.mem_paths_iff m'.path).mp (List.mem_map_of_mem mem)).2
      rw [isRead] at this
      cases this
    rw [missing outer, missing part]
    rfl

/-- The program of a file that is reached is part of the whole program. -/
theorem exists_embeds :
    ∃ r : Relocation, r.span = id ∧ r.module = placeIn p q ∧ r.Embeds p q := by
  -- A module is placed where the whole program has the module of its path, and its specifiers
  -- resolve to the same paths.
  refine ⟨⟨placeIn p q, id, placeIn_injective outer part reached⟩, rfl, rfl, ?_, ?_⟩
  · exact fun missing => module?_placeIn_of_none missing
  · intro id m isModule
    obtain ⟨m', there, -, read⟩ := exists_module?_placeIn outer part reached isModule
    refine ⟨m', there, .of_target rfl (congrArg ReadModule.items read) fun specifier => ?_⟩
    have mem := List.mem_of_getElem? isModule
    have mem' := List.mem_of_getElem? there
    have path : m'.path = m.path := congrArg ReadModule.path read
    rw [LoadedModule.target_of_targets (outer.targets m' mem'),
      LoadedModule.target_of_targets (part.targets m mem), read, path]
    split
    · rename_i isSpecifier
      cases resolved : Specifier.resolve? s m.path specifier with
      | none => rfl
      | some b =>
        have imports : Imports s m.path b := by
          refine ⟨m.asRead, part.read m mem, ReadModule.mem_dependencies_iff.mp ?_⟩
          exact List.mem_filterMap.mpr ⟨specifier, isSpecifier, resolved⟩
        exact moduleId?_of_imports outer part reached isModule rfl imports
    · rfl

/-- A module has the same positions in the part and in the whole program. -/
theorem position_placeIn (id : ModuleId) (offset : Nat) :
    p.position (placeIn p q id) offset = q.position id offset := by
  unfold Program.position
  cases here : q.module? id with
  | none => rw [module?_placeIn_of_none here]
  | some m =>
    obtain ⟨m', there, -, read⟩ := exists_module?_placeIn outer part reached here
    have same : m'.text = m.text := congrArg ReadModule.text read
    rw [there]
    show m'.position offset = m.position offset
    unfold LoadedModule.position
    rw [same]

end Within

/-! ### Transforming a module -/

/-- What a reader sees of a diagnostic: what is said, and at which lines and columns. -/
structure Seen where
  code : Code
  severity : Severity
  message : String
  first : Position
  last : Position
deriving DecidableEq, Repr, Inhabited

/-- A diagnostic as a reader sees it. -/
def seen (p : Program) (d : Diagnostic) : Seen :=
  ⟨d.code, d.severity, d.message, p.position d.module d.span.start,
    p.position d.module d.span.stop⟩

/-- What a user wants to see does not depend on where it points. -/
theorem shown_map_diagnostic (options : Options) (r : Relocation) (notes : List Diagnostic) :
    options.shown (notes.map r.diagnostic) = (options.shown notes).map r.diagnostic := by
  unfold Options.shown
  split
  · rw [List.filter_map]
    rfl
  · rfl

/-- Where one program is embedded in another one, a module is transformed alike in both. -/
theorem transformModule_relocated {p q : Program} {r : Relocation} (embeds : r.Embeds p q)
    (stays : r.span = id) (options : Options) (id : ModuleId) {m' m : LoadedModule}
    (same : m'.asRead = m.asRead) :
    p.transformModule options (r.module id) m'
      = { q.transformModule options id m with
          diagnostics := (q.transformModule options id m).diagnostics.map r.diagnostic } := by
  have items : m'.items = m.items := congrArg ReadModule.items same
  have text : m'.text = m.text := congrArg ReadModule.text same
  unfold transformModule
  rw [items, text, embeds.componentsOf stays]
  show Transformed.mk _ _ _ (options.shown (List.map r.diagnostic _)) = _
  rw [shown_map_diagnostic]
  rfl

/-- Transforming a module of a program, and transforming its file by itself, give the same code, the
same patch and the same components. The diagnostics are the same in the same order, and point to the
same lines and columns. -/
theorem transformFile_of_module (files : List (String × Content)) {entry : String} {p : Program}
    (loaded : load (.ofList files) entry = .ok p) {id : ModuleId} {m : LoadedModule}
    (isModule : p.module? id = some m) (options : Options) :
    ∃ q t, transformFile (.ofList files) options m.path = .ok (q, t) ∧
      t.code = (p.transformModule options id m).code ∧
      t.patch = (p.transformModule options id m).patch ∧
      t.components = (p.transformModule options id m).components ∧
      t.diagnostics.map q.seen = (p.transformModule options id m).diagnostics.map p.seen := by
  have normalized := Sources.normalized_ofList files
  have outer := loadedFrom_of_load normalized loaded
  have mem : m ∈ p.modules := List.mem_of_getElem? isModule
  have normal : Path.normalize m.path = m.path := outer.normal m mem
  have reached : Relation.ReflTransGen (Imports (.ofList files)) (Path.normalize entry)
      (Path.normalize m.path) :=
    normal.symm ▸ ((outer.mem_paths_iff m.path).mp (List.mem_map_of_mem mem)).1
  -- The file can be loaded by itself, and the module is the first one of that program.
  obtain ⟨q, loaded'⟩ : ∃ q, load (.ofList files) m.path = .ok q :=
    ⟨_, load_eq (normal.symm ▸ outer.read m mem)⟩
  have part := loadedFrom_of_load normalized loaded'
  obtain ⟨first, isFirst, transformed⟩ := transformFile_eq loaded' options
  have path : first.path = m.path :=
    ((path_eq_iff_of_load normalized.nodup loaded' isFirst).mpr rfl).trans normal
  obtain ⟨m', there, placed, read⟩ := exists_module?_placeIn outer part reached isFirst
  have place : placeIn p q 0 = id := by
    rw [path, outer.moduleId? isModule] at placed
    exact (Option.some.inj placed).symm
  obtain rfl : m' = m := Option.some.inj (there.symm.trans (place.symm ▸ isModule))
  obtain ⟨r, stays, modules, embeds⟩ := exists_embeds outer part reached
  have alike : p.transformModule options id m'
      = { q.transformModule options 0 first with
          diagnostics := (q.transformModule options 0 first).diagnostics.map r.diagnostic } := by
    have := transformModule_relocated embeds stays options 0 read
    rwa [show r.module 0 = id by rw [modules, place]] at this
  have sameSeen (d : Diagnostic) : p.seen (r.diagnostic d) = q.seen d := by
    show Seen.mk _ _ _ (p.position (r.module d.module) (r.span d.span).start)
      (p.position (r.module d.module) (r.span d.span).stop) = _
    rw [modules, stays, position_placeIn outer part reached, position_placeIn outer part reached]
    rfl
  refine ⟨q, _, transformed, ?_, ?_, ?_, ?_⟩
  · rw [alike]
  · rw [alike]
  · rw [alike]
  · rw [alike, List.map_map]
    exact List.map_congr_left fun d _ => (sameSeen d).symm

/-- A module with a component and its import, which has a component without a known type. -/
def sharedFiles : List (String × Content) :=
  [ ("/src/a.ts", .text "const A = defineComponent<Missing>({})\n"),
    ("/src/b.ts", .text "import './a'\nconst B = defineComponent<{ b: string }>({})\n") ]

/-- Loaded by itself, the import is the first module and not the second one. What is said about it
is the same. -/
theorem transformFile_of_module_shared : ∃ p m q t,
    load (.ofList sharedFiles) "/src/b.ts" = .ok p ∧ p.module? 1 = some m ∧
      transformFile (.ofList sharedFiles) .standard m.path = .ok (q, t) ∧
      t.code = (p.transformModule .standard 1 m).code ∧
      t.patch = (p.transformModule .standard 1 m).patch ∧
      t.components = (p.transformModule .standard 1 m).components ∧
      t.diagnostics.map q.seen = [⟨.unresolvedSymbol, .warning,
        (Problem.unknownType "Missing").message, ⟨1, 27⟩, ⟨1, 34⟩⟩] := by
  have loads : loadsWith (.ofList sharedFiles) "/src/b.ts" (fun p =>
      (p.module? 1).any fun m => decide (namedComponent? m.items
            = some ("A", ⟨⟨26, 33⟩, "Missing"⟩, ⟨"Missing", [], "Missing"⟩) ∧
          p.symbolAt 1 ⟨"Missing", [], "Missing"⟩ = none ∧
          m.position 26 = ⟨1, 27⟩ ∧ m.position 33 = ⟨1, 34⟩)) = true := by
    refine loadsWith_of_written (by repeat constructor) ?_
    decide +kernel
  obtain ⟨p, loaded, facts⟩ := exists_of_loadsWith loads
  obtain ⟨m, isModule, facts⟩ := (Option.any_eq_true _ _).mp facts
  obtain ⟨declares, unknown, first, last⟩ := of_decide_eq_true facts
  -- The one problem is that the name of the props is unknown.
  have noted : (p.transformModule .standard 1 m).diagnostics
      = [⟨.unknownType "Missing", 1, ⟨26, 33⟩⟩] := by
    show Options.shown .standard (p.componentsOf .standard 1 1 m.items).notes = _
    rw [componentsOf_of_namedComponent? declares, expand_reference, unknown]
    rfl
  obtain ⟨q, t, transformed, code, patch, components, diagnostics⟩ :=
    transformFile_of_module sharedFiles loaded isModule .standard
  refine ⟨p, m, q, t, loaded, isModule, transformed, code, patch, components, ?_⟩
  rw [diagnostics, noted]
  show [Seen.mk _ _ _ (p.position 1 26) (p.position 1 33)] = _
  unfold Program.position
  rw [isModule]
  show [Seen.mk _ _ _ (m.position 26) (m.position 33)] = _
  rw [first, last]
  rfl

end Program

end TypedProps
