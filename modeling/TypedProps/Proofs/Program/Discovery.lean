import Mathlib.Logic.Relation
import TypedProps.Proofs.Paths.NormalForm
import TypedProps.Proofs.Program.BreadthFirst
import TypedProps.Proofs.Program.Scripts

/-!
# `TypedProps.Proofs.Program.Discovery`: the modules of a program are those its entry reaches

A file refers to another one if it is a module and one of its imports and re-exports leads there
(`Program.Imports`). Loading is a search in breadth along these references, from the entry
(`Program.load_breadthFirst`): every file that can be reached is tried once, in the order of
discovery. Those that are modules are the modules of the program, those that are not are its
failures, and nothing else is loaded.

The exploration keeps the files that have not been tried. `Program.tried` lists those that it does
try. What it finds is what is read there (`explore_eq`), and the list itself is what the modules of
the queue and of the list refer to, each path once (`tried_eq_take`). With the entry in front this
is the equation of a search in breadth.
-/

set_option autoImplicit false

namespace TypedProps

/-- An import or a re-export loads the module behind `from`. -/
inductive ItemForm.LoadsFrom : ItemForm → String → Prop
  | importDecl (typeOnly : Bool) (specifiers : List ImportSpecifier) (source : String) :
      LoadsFrom (.importDecl typeOnly specifiers source) source
  | exportList (typeOnly : Bool) (specifiers : List ExportSpecifier) (source : String) :
      LoadsFrom (.exportList typeOnly specifiers (some source)) source
  | exportAll (typeOnly : Bool) (source : String) : LoadsFrom (.exportAll typeOnly source) source
  | exportAllAs (typeOnly : Bool) (name source : String) :
      LoadsFrom (.exportAllAs typeOnly name source) source

namespace ReadModule

variable {s : Sources} {m : ReadModule}

theorem specifier?_eq_some_iff {item : Item} {source : String} :
    specifier? item = some source ↔ item.form.LoadsFrom source := by
  obtain ⟨start, docs, form⟩ := item
  constructor
  · intro loads
    unfold specifier? at loads
    dsimp only at loads ⊢
    split at loads <;> cases loads
    · exact .importDecl ..
    · exact .exportList ..
    · exact .exportAll ..
    · exact .exportAllAs ..
  · intro loads
    cases loads <;> rfl

/-- A dependency is where an import or a re-export of the module leads. -/
theorem mem_dependencies_iff {path : String} : path ∈ m.dependencies s ↔
    ∃ item ∈ m.items, ∃ source, item.form.LoadsFrom source ∧
      Specifier.resolve? s m.path source = some path := by
  simp only [dependencies, specifiers, List.mem_filterMap, List.mem_eraseDups,
    specifier?_eq_some_iff]
  constructor
  · rintro ⟨source, ⟨item, inside, loads⟩, resolved⟩
    exact ⟨item, inside, source, loads, resolved⟩
  · rintro ⟨item, inside, source, loads, resolved⟩
    exact ⟨source, ⟨item, inside, loads⟩, resolved⟩

end ReadModule

namespace Program

variable {s : Sources}

/-- The module that is read under a path. -/
def read? (s : Sources) (path : String) : Option ReadModule := (ReadModule.read s path).toOption

/-- Why no module is read under a path. -/
def failure? (s : Sources) (path : String) : Option LoadError :=
  match ReadModule.read s path with
  | .ok _ => none
  | .error e => some e

theorem read?_eq_some_iff {path : String} {m : ReadModule} :
    read? s path = some m ↔ ReadModule.read s path = .ok m := by
  unfold read?
  cases ReadModule.read s path <;> simp [Except.toOption]

/-- The files that the file under a path refers to, in source order. -/
def references (s : Sources) (path : String) : List String :=
  ((read? s path).map (ReadModule.dependencies s)).getD []

/-- A file is a module, and an import or a re-export in it leads to another file. -/
def Imports (s : Sources) (a b : String) : Prop :=
  ∃ m, ReadModule.read s a = .ok m ∧ ∃ item ∈ m.items, ∃ source,
    item.form.LoadsFrom source ∧ Specifier.resolve? s a source = some b

theorem mem_references_iff {a b : String} : b ∈ references s a ↔ Imports s a b := by
  unfold references Imports
  constructor
  · intro mem
    cases read : read? s a with
    | none => simp [read] at mem
    | some m =>
      have isRead := read?_eq_some_iff.1 read
      rw [read] at mem
      refine ⟨m, isRead, ?_⟩
      rw [← path_of_read isRead]
      exact ReadModule.mem_dependencies_iff.mp mem
  · rintro ⟨m, isRead, loads⟩
    rw [read?_eq_some_iff.2 isRead]
    rw [← path_of_read isRead] at loads
    exact ReadModule.mem_dependencies_iff.mpr loads

/-- A walk along references is a chain of imports and re-exports. -/
theorem exists_reachedIn_iff {a b : String} :
    (∃ n, ReachedIn (references s) a n b) ↔ Relation.ReflTransGen (Imports s) a b := by
  constructor
  · rintro ⟨n, reached⟩
    induction reached with
    | start => exact .refl
    | step _ follows ih => exact ih.tail (mem_references_iff.1 follows)
  · intro chain
    induction chain with
    | refl => exact ⟨0, .start⟩
    | tail _ imports ih =>
      obtain ⟨n, reached⟩ := ih
      exact ⟨n + 1, .step reached (mem_references_iff.2 imports)⟩

/-- References lead to files. -/
theorem mem_paths_of_mem_references {a b : String} (mem : b ∈ references s a) :
    Path.IsNormal b ∧ b ∈ s.paths := by
  obtain ⟨_, _, _, _, _, _, resolved⟩ := mem_references_iff.1 mem
  exact Specifier.of_resolve? resolved

/-! ### The files that an exploration tries -/

/-- Trying files reads each one. -/
theorem readAll_eq (s : Sources) (paths : List String) :
    readAll s paths = ⟨paths.filterMap (read? s), paths.filterMap (failure? s)⟩ := by
  induction paths with
  | nil => rfl
  | cons path rest ih =>
    rw [readAll, ih, List.filterMap_cons, List.filterMap_cons, read?, failure?]
    cases ReadModule.read s path <;> rfl

/-- The modules that trying files gives are those that can be read. -/
theorem modules_readAll (s : Sources) (paths : List String) :
    (readAll s paths).modules = paths.filterMap (read? s) := by rw [readAll_eq]

/-- Taking what two lists want is taking what the first one wants, and then what the second one
does. -/
theorem take_append (untried first second : List String) :
    take untried (first ++ second)
      = ((take untried first).1 ++ (take (take untried first).2 second).1,
          (take (take untried first).2 second).2) := by
  induction first generalizing untried with
  | nil => rfl
  | cons path rest ih =>
    rw [List.cons_append, take, take]
    split
    · rw [ih]
      rfl
    · exact ih untried

/-- What is taken are the wanted paths that have not been tried, each once. -/
theorem fst_take {untried : List String} (nodup : untried.Nodup) (wanted : List String) :
    (take untried wanted).1 = (wanted.filter (· ∈ untried)).eraseDups := by
  induction wanted generalizing untried with
  | nil => rfl
  | cons path rest ih =>
    rw [take]
    by_cases there : path ∈ untried
    · -- A path that is taken is not taken again, so its copies in the rest do not count.
      have others : rest.filter (· ∈ untried.erase path)
          = (rest.filter (· ∈ untried)).filter fun other => !other == path := by
        rw [List.filter_filter]
        refine List.filter_congr fun other _ => ?_
        by_cases same : other = path <;> simp [nodup.mem_erase_iff, same]
      rw [if_pos there, List.filter_cons_of_pos (by simpa using there), List.eraseDups_cons,
        ← others, ← ih (nodup.erase path)]
    · rw [if_neg there, List.filter_cons_of_neg (by simpa using there), ih nodup]

/-- The files that an exploration tries, in order. -/
def tried (s : Sources) (untried : List String) (queue : List ReadModule) : List String :=
  match queue with
  | [] => []
  | m :: waiting =>
    let next := take untried (m.dependencies s)
    next.1 ++ tried s next.2 (waiting ++ (readAll s next.1).modules)
termination_by untried.length + queue.length
decreasing_by
  have := length_take untried (m.dependencies s)
  have := length_readAll_le s (take untried (m.dependencies s)).1
  simp only [List.length_append, List.length_cons]
  omega

/-- An exploration finds the modules of its queue and what is read where it tries. -/
theorem explore_eq (s : Sources) (untried : List String) (queue : List ReadModule) :
    explore s untried queue
      = ⟨queue ++ (tried s untried queue).filterMap (read? s),
          (tried s untried queue).filterMap (failure? s)⟩ := by
  induction untried, queue using explore.induct s with
  | case1 untried =>
    rw [explore, tried]
    rfl
  | case2 untried m waiting next found ih =>
    have modules : found.modules = next.1.filterMap (read? s) := modules_readAll s next.1
    have failures : found.failures = next.1.filterMap (failure? s) := by
      show (readAll s next.1).failures = _
      rw [readAll_eq]
    rw [explore, tried]
    show Exploration.mk (m :: (explore s next.2 (waiting ++ found.modules)).modules)
      (found.failures ++ (explore s next.2 (waiting ++ found.modules)).failures) = _
    rw [ih, List.filterMap_append, List.filterMap_append, failures]
    simp [modules, next, found]

/-- An exploration tries what the modules that it finds depend on, as far as it may. -/
theorem tried_eq_take (s : Sources) (untried : List String) (queue : List ReadModule) :
    tried s untried queue
      = (take untried ((queue ++ (tried s untried queue).filterMap (read? s)).flatMap
          (ReadModule.dependencies s))).1 := by
  induction untried, queue using explore.induct s with
  | case1 untried =>
    rw [tried]
    rfl
  | case2 untried m waiting next found ih =>
    have modules : found.modules = next.1.filterMap (read? s) := modules_readAll s next.1
    have split : tried s untried (m :: waiting)
        = next.1 ++ tried s next.2 (waiting ++ found.modules) := by rw [tried]
    -- The first module's dependencies are taken first, the others' from what is left.
    have wanted : (m :: waiting ++ (tried s untried (m :: waiting)).filterMap (read? s)).flatMap
          (ReadModule.dependencies s)
        = m.dependencies s ++ ((waiting ++ found.modules)
            ++ (tried s next.2 (waiting ++ found.modules)).filterMap (read? s)).flatMap
              (ReadModule.dependencies s) := by
      rw [split, List.filterMap_append, modules]
      simp only [List.cons_append, List.flatMap_cons, List.append_assoc]
    rw [wanted, take_append, ← ih, split]

/-- What an exploration tries is reached from the modules of its queue. -/
theorem exists_of_mem_tried {untried : List String} {queue : List ReadModule}
    (queued : ∀ m ∈ queue, ReadModule.read s m.path = .ok m) {path : String}
    (mem : path ∈ tried s untried queue) :
    ∃ m ∈ queue, Relation.ReflTransGen (Imports s) m.path path := by
  induction untried, queue using explore.induct s with
  | case1 untried =>
    rw [tried] at mem
    cases mem
  | case2 untried m waiting next found ih =>
    have isRead := queued m List.mem_cons_self
    -- What is tried at once is a dependency of the first module.
    have direct {other : String} (taken : other ∈ next.1) : Imports s m.path other :=
      ⟨m, isRead, ReadModule.mem_dependencies_iff.mp (mem_of_mem_take taken)⟩
    rw [tried] at mem
    rcases List.mem_append.mp mem with mem | mem
    · exact ⟨m, List.mem_cons_self, .single (direct mem)⟩
    · have waitingRead : ∀ m' ∈ waiting ++ found.modules, ReadModule.read s m'.path = .ok m' := by
        intro m' inside
        rcases List.mem_append.mp inside with inside | inside
        · exact queued m' (List.mem_cons_of_mem _ inside)
        · exact read_of_mem_readAll inside
      obtain ⟨m', inside, chain⟩ := ih waitingRead mem
      rcases List.mem_append.mp inside with inside | inside
      · exact ⟨m', List.mem_cons_of_mem _ inside, chain⟩
      · -- A module that was found just now is one of the dependencies of the first one.
        have taken : m'.path ∈ next.1 :=
          (sublist_readAll s next.1).subset (List.mem_map_of_mem inside)
        exact ⟨m, List.mem_cons_self, .head (direct taken) chain⟩

/-! ### Loading as a search in breadth -/

/-- What some files refer to is what the modules among them depend on. -/
theorem flatMap_references (s : Sources) (paths : List String) :
    paths.flatMap (references s)
      = (paths.filterMap (read? s)).flatMap (ReadModule.dependencies s) := by
  induction paths with
  | nil => rfl
  | cons path rest ih =>
    rw [List.flatMap_cons, List.filterMap_cons, ih, references]
    cases read? s path <;> rfl

/-- The entry and the files that are tried from there are what a search in breadth finds. -/
theorem breadthFirst_tried (normalized : s.Normalized) {path : String} {m : ReadModule}
    (isRead : ReadModule.read s path = .ok m) :
    BreadthFirst (references s) path (path :: tried s (s.paths.erase path) [m]) := by
  have first : read? s path = some m := read?_eq_some_iff.2 isRead
  have atPath := path_of_read isRead
  refine .of_order ?_ fun x mem => ?_
  · have wanted : (path :: tried s (s.paths.erase path) [m]).flatMap (references s)
        = ([m] ++ (tried s (s.paths.erase path) [m]).filterMap (read? s)).flatMap
            (ReadModule.dependencies s) := by
      rw [flatMap_references, List.filterMap_cons, first]
      rfl
    -- References lead to files, so those that may be tried are all but the entry.
    have mayBeTried : ∀ other ∈ (path :: tried s (s.paths.erase path) [m]).flatMap (references s),
        (decide (other ∈ s.paths.erase path)) = !other == path := by
      intro other mem
      obtain ⟨_, _, referred⟩ := List.mem_flatMap.mp mem
      have isFile := (mem_paths_of_mem_references referred).2
      by_cases same : other = path <;> simp [normalized.nodup.mem_erase_iff, isFile, same]
    have taken : tried s (s.paths.erase path) [m]
        = (((path :: tried s (s.paths.erase path) [m]).flatMap (references s)).filter
            fun other => !other == path).eraseDups := by
      rw [← List.filter_congr mayBeTried, wanted, ← fst_take (normalized.nodup.erase path),
        ← tried_eq_take]
    rw [List.eraseDups_cons, ← taken]
  · rw [exists_reachedIn_iff]
    rcases List.mem_cons.mp mem with rfl | mem
    · exact .refl
    · have readFirst : ∀ m' ∈ [m], ReadModule.read s m'.path = .ok m' := by
        intro m' inside
        rw [List.mem_singleton.mp inside, atPath]
        exact isRead
      obtain ⟨m', inside, chain⟩ := exists_of_mem_tried readFirst mem
      rwa [List.mem_singleton.mp inside, atPath] at chain

/-- Loading connects what is read where the search goes. -/
theorem load_eq {entry : String} {m : ReadModule}
    (isRead : ReadModule.read s (Path.normalize entry) = .ok m) :
    load s entry = .ok (connect s
      ⟨(Path.normalize entry :: tried s (s.paths.erase (Path.normalize entry)) [m]).filterMap
          (read? s),
        (Path.normalize entry :: tried s (s.paths.erase (Path.normalize entry)) [m]).filterMap
          (failure? s)⟩) := by
  have first : read? s (Path.normalize entry) = some m := read?_eq_some_iff.2 isRead
  have fine : failure? s (Path.normalize entry) = none := by rw [failure?, isRead]
  refine load_eq_ok_iff.2 ⟨m, isRead, ?_⟩
  rw [explore_eq, List.filterMap_cons, List.filterMap_cons, first, fine]
  rfl

/-- The modules of some files have their paths, and the failures have the other ones. -/
theorem map_path_filterMap_read? (s : Sources) (paths : List String) :
    (paths.filterMap (read? s)).map ReadModule.path
        = paths.filter (fun path => (read? s path).isSome) ∧
      (paths.filterMap (failure? s)).map LoadError.path
        = paths.filter (fun path => !(read? s path).isSome) := by
  induction paths with
  | nil => exact ⟨rfl, rfl⟩
  | cons path rest ih =>
    rw [List.filterMap_cons, List.filterMap_cons]
    cases read : ReadModule.read s path with
    | ok m =>
      have isRead : read? s path = some m := read?_eq_some_iff.2 read
      have fine : failure? s path = none := by rw [failure?, read]
      simp [isRead, fine, ih, path_of_read read]
    | error e =>
      have unread : read? s path = none := by rw [read?, read]; rfl
      have failed : failure? s path = some e := by rw [failure?, read]
      simp [unread, failed, ih, path_of_read_error read]

end Program

/-- A module of a program as it was read, without its connections. -/
def LoadedModule.asRead (m : LoadedModule) : ReadModule := ⟨m.path, m.text, m.items⟩

namespace Program

/-- Connecting modules changes nothing about what has been read. -/
theorem map_asRead_connect (s : Sources) (found : Exploration) :
    (connect s found).modules.map LoadedModule.asRead = found.modules := by
  unfold connect
  rw [List.map_map]
  exact List.map_id _

/-- What can be reached from an entry has a normal path. -/
theorem isNormal_of_reached {s : Sources} {entry path : String}
    (reached : Relation.ReflTransGen (Imports s) (Path.normalize entry) path) :
    Path.IsNormal path := by
  rcases Relation.ReflTransGen.cases_tail reached with rfl | ⟨_, _, imports⟩
  · exact Path.isNormal_normalize entry
  · exact (mem_paths_of_mem_references (mem_references_iff.2 imports)).1

/-- Loading an entry that is a module searches in breadth along imports and re-exports. It finds
exactly what can be reached, each normal path once, the nearer files first. The modules of the
program are those that can be read there, in this order and with the entry in front, and its
failures are the errors of the others. -/
theorem load_breadthFirst (files : List (String × Content)) {entry : String} {m : ReadModule}
    (isRead : ReadModule.read (.ofList files) (Path.normalize entry) = .ok m) :
    ∃ p found, load (.ofList files) entry = .ok p ∧
      BreadthFirst (references (.ofList files)) (Path.normalize entry) found ∧
      (∀ path, path ∈ found ↔
        Relation.ReflTransGen (Imports (.ofList files)) (Path.normalize entry) path) ∧
      (∀ n, ∃ front, front <+: found ∧ ∀ path, path ∈ front ↔
        ∃ d ≤ n, ReachedIn (references (.ofList files)) (Path.normalize entry) d path) ∧
      (∀ path ∈ found, Path.IsNormal path) ∧
      p.modules.map LoadedModule.asRead = found.filterMap (read? (.ofList files)) ∧
      p.failures = found.filterMap (failure? (.ofList files)) ∧
      (p.module? 0).map LoadedModule.path = some (Path.normalize entry) ∧
      (p.modules.map LoadedModule.path).Nodup ∧ (p.failures.map LoadError.path).Nodup := by
  have normalized := Sources.normalized_ofList files
  let found := Path.normalize entry
    :: tried (.ofList files) ((Sources.ofList files).paths.erase (Path.normalize entry)) [m]
  have search : BreadthFirst (references (.ofList files)) (Path.normalize entry) found :=
    breadthFirst_tried normalized isRead
  have loaded := load_eq isRead
  have reached (path : String) : path ∈ found ↔
      Relation.ReflTransGen (Imports (.ofList files)) (Path.normalize entry) path := by
    rw [search.mem_iff, exists_reachedIn_iff]
  obtain ⟨modulePaths, failurePaths⟩ := map_path_filterMap_read? (.ofList files) found
  -- What is known about every load: the entry comes first, and no path twice.
  have entryFirst := (paths_of_load normalized.nodup loaded).1
  have modulesOnce := (paths_of_load normalized.nodup loaded).2
  refine ⟨_, found, loaded, search, reached, search.exists_front, ?_, ?_, rfl, ?_, modulesOnce, ?_⟩
  · intro path mem
    exact isNormal_of_reached ((reached path).mp mem)
  · exact map_asRead_connect _ _
  · obtain ⟨first, isFirst, path⟩ := entryFirst
    rw [isFirst, ← path]
    rfl
  · show (List.map LoadError.path (found.filterMap (failure? (.ofList files)))).Nodup
    rw [failurePaths]
    exact search.nodup.filter _

/-- A cycle, a module with a mistake in it and a file that is no text. -/
def cyclicFiles : List (String × Content) :=
  [ ("/main.ts", .text "import { A } from './a'\nimport './broken'\nexport * from './b'\n"),
    ("/a.ts", .text "import './main'\nimport { B } from './b.js'\nexport interface A {}\n"),
    ("/b.ts", .text "export { A } from './a'\nimport './data'\nimport './broken'\n"),
    ("/broken.ts", .text "const = 1\n"), ("/data.ts", .binary), ("/aside.ts", .text "") ]

/-- In a cycle with two broken modules, each module is loaded once and each failure named once. -/
theorem load_breadthFirst_cyclic : ∃ m p found,
    ReadModule.read (.ofList cyclicFiles) (Path.normalize "/src/../main.ts") = .ok m ∧
      load (.ofList cyclicFiles) "/src/../main.ts" = .ok p ∧
      BreadthFirst (references (.ofList cyclicFiles)) "/main.ts" found ∧
      p.modules.map LoadedModule.path = ["/main.ts", "/a.ts", "/b.ts"] ∧
      p.failures.map LoadError.path = ["/broken.ts", "/data.ts"] := by
  have loads : loadsWith (.ofList cyclicFiles) "/src/../main.ts" (fun p =>
      p.modules.map LoadedModule.path == ["/main.ts", "/a.ts", "/b.ts"]
        && p.failures.map LoadError.path == ["/broken.ts", "/data.ts"]) = true := by
    refine loadsWith_of_written (by repeat constructor) ?_
    decide +kernel
  obtain ⟨p, loaded, paths⟩ := exists_of_loadsWith loads
  obtain ⟨modules, failures⟩ := Bool.and_eq_true_iff.mp paths
  have isThere :
      (read? (.ofList cyclicFiles) (Path.normalize "/src/../main.ts")).isSome = true := by
    decide +kernel
  obtain ⟨m, isRead⟩ := Option.isSome_iff_exists.mp isThere
  obtain ⟨q, found, loadedAgain, search, -⟩ :=
    load_breadthFirst cyclicFiles (read?_eq_some_iff.1 isRead)
  obtain rfl : p = q := Except.ok.inj (loaded.symm.trans loadedAgain)
  have normal : Path.normalize "/src/../main.ts" = "/main.ts" := by decide +kernel
  exact ⟨m, p, found, read?_eq_some_iff.1 isRead, loaded, normal ▸ search, eq_of_beq modules,
    eq_of_beq failures⟩

end Program

end TypedProps
