import Mathlib.Data.List.Nodup
import TypedProps.Transform

/-!
# `TypedProps.Proofs.Program.Loading`: the files that loading looks at

Loading reads the entry, and for every import of a module that it has found it looks at the
candidates of the import, up to the first one that is there. Files elsewhere do not matter: two
collections of files that agree on these paths load the same program (`load_congr`). They may differ
in the order of all files, because the exploration goes in the order of the imports.

Each module of a program has the text of the file under its path (`read?_of_mem_load`), and it is
the file that the program was loaded from exactly if it is the first one (`path_eq_iff_of_load`).
-/

set_option autoImplicit false

namespace TypedProps

namespace Sources

variable {s s' : Sources} {path : String}

/-- Two collections of files have the same under a path. -/
def SameAt (s s' : Sources) (path : String) : Prop :=
  ∀ key, key = path ∨ key = Path.normalize path →
    s'.entries.filter (·.1 == key) = s.entries.filter (·.1 == key)

/-- A look-up sees only the pairs under the key. -/
theorem lookup_eq_head?_filter {κ ν : Type} [BEq κ] [LawfulBEq κ] (key : κ) (pairs : List (κ × ν)) :
    pairs.lookup key = ((pairs.filter (·.1 == key)).head?).map (·.2) := by
  induction pairs with
  | nil => rfl
  | cons pair rest ih =>
    obtain ⟨k, v⟩ := pair
    by_cases same : k = key
    · subst same
      simp
    · have other : (key == k) = false := beq_eq_false_iff_ne.mpr (Ne.symm same)
      rw [List.lookup_cons, other, List.filter_cons_of_neg (by simpa using same)]
      exact ih

theorem SameAt.file?_eq (same : SameAt s s' path) : s'.file? path = s.file? path := by
  unfold file?
  rw [lookup_eq_head?_filter, lookup_eq_head?_filter, same _ (Or.inr rfl)]

/-- A path is listed as often in both. -/
theorem SameAt.count_eq (same : SameAt s s' path) : s'.paths.count path = s.paths.count path := by
  have counted (s : Sources) : s.paths.count path = (s.entries.filter (·.1 == path)).length := by
    rw [paths, List.count, List.countP_map, List.countP_eq_length_filter]
    rfl
  rw [counted, counted, same _ (Or.inl rfl)]

end Sources

variable {s s' : Sources}

/-- An import leads to the same file if its candidates are the same. -/
theorem Specifier.resolve?_congr {importer specifier : String}
    (same : Specifier.isLocal specifier = true →
      ∀ c ∈ Specifier.candidates (Specifier.base importer specifier), s.SameAt s' c) :
    Specifier.resolve? s' importer specifier = Specifier.resolve? s importer specifier := by
  unfold Specifier.resolve?
  split
  · rename_i isLocal
    have found (list : List String) (same : ∀ c ∈ list, s.SameAt s' c) :
        list.find? s'.contains = list.find? s.contains := by
      induction list with
      | nil => rfl
      | cons c rest ih =>
        have first : s'.contains c = s.contains c := by
          rw [Sources.contains, Sources.contains, (same c List.mem_cons_self).file?_eq]
        rw [List.find?_cons, List.find?_cons, first,
          ih fun c mem => same c (List.mem_cons_of_mem _ mem)]
    exact found _ (same isLocal)
  · rfl

namespace ReadModule

/-- The paths at which the imports of a module look for files. -/
def candidates (m : ReadModule) : List String :=
  (m.specifiers.filter Specifier.isLocal).flatMap fun specifier =>
    Specifier.candidates (Specifier.base m.path specifier)

theorem mem_candidates_iff {m : ReadModule} {c : String} :
    c ∈ m.candidates ↔ ∃ specifier ∈ m.specifiers, Specifier.isLocal specifier = true ∧
      c ∈ Specifier.candidates (Specifier.base m.path specifier) := by
  simp only [candidates, List.mem_flatMap, List.mem_filter, and_assoc]

/-- A file is read alike where it is the same. -/
theorem read_congr {path : String} (same : s.SameAt s' path) :
    read s' path = read s path := by
  unfold read Sources.read?
  rw [same.file?_eq]

variable {m : ReadModule}

/-- Each import of a module leads to the same file if its candidates are the same. -/
theorem resolve?_congr (same : ∀ c ∈ m.candidates, s.SameAt s' c) {specifier : String}
    (mem : specifier ∈ m.specifiers) :
    Specifier.resolve? s' m.path specifier = Specifier.resolve? s m.path specifier :=
  Specifier.resolve?_congr fun isLocal c inside =>
    same c (mem_candidates_iff.2 ⟨specifier, mem, isLocal, inside⟩)

theorem dependencies_congr (same : ∀ c ∈ m.candidates, s.SameAt s' c) :
    m.dependencies s' = m.dependencies s :=
  List.filterMap_congr fun _ mem => resolve?_congr same mem

/-- A dependency is one of the candidates. -/
theorem mem_candidates_of_mem_dependencies {path : String} (mem : path ∈ m.dependencies s) :
    path ∈ m.candidates := by
  obtain ⟨specifier, inside, resolved⟩ := List.mem_filterMap.mp mem
  unfold Specifier.resolve? at resolved
  split at resolved
  · rename_i isLocal
    exact mem_candidates_iff.2 ⟨specifier, inside, isLocal, List.mem_of_find?_eq_some resolved⟩
  · cases resolved

end ReadModule

namespace Program

/-- Trying the same files finds the same. -/
theorem readAll_congr {paths : List String} (same : ∀ path ∈ paths, s.SameAt s' path) :
    readAll s' paths = readAll s paths := by
  induction paths with
  | nil => rfl
  | cons path rest ih =>
    rw [readAll, readAll, ReadModule.read_congr (same path List.mem_cons_self),
      ih fun path mem => same path (List.mem_cons_of_mem _ mem)]

/-- What is taken was wanted. -/
theorem mem_of_mem_take {untried wanted : List String} {path : String}
    (mem : path ∈ (take untried wanted).1) : path ∈ wanted := by
  induction wanted generalizing untried with
  | nil => exact mem
  | cons first rest ih =>
    rw [take] at mem
    split at mem
    · rcases List.mem_cons.mp mem with rfl | mem
      · exact List.mem_cons_self
      · exact List.mem_cons_of_mem _ (ih mem)
    · exact List.mem_cons_of_mem _ (ih mem)

/-- Two lists of files that have not been tried agree on the paths at which the files are the
same. -/
def Untried (s s' : Sources) (untried untried' : List String) : Prop :=
  ∀ path, s.SameAt s' path → untried'.count path = untried.count path

/-- Where the files are the same, the same ones are taken, and what remains still agrees. -/
theorem Untried.take {untried untried' wanted : List String} (agree : Untried s s' untried untried')
    (same : ∀ path ∈ wanted, s.SameAt s' path) :
    (Program.take untried' wanted).1 = (Program.take untried wanted).1 ∧
      Untried s s' (Program.take untried wanted).2 (Program.take untried' wanted).2 := by
  induction wanted generalizing untried untried' with
  | nil => exact ⟨rfl, agree⟩
  | cons path rest ih =>
    have rest_same : ∀ path ∈ rest, s.SameAt s' path :=
      fun path mem => same path (List.mem_cons_of_mem _ mem)
    have both : path ∈ untried' ↔ path ∈ untried := by
      rw [← List.count_pos_iff, ← List.count_pos_iff, agree path (same path List.mem_cons_self)]
    rw [Program.take, Program.take]
    by_cases there : path ∈ untried
    · have erased : Untried s s' (untried.erase path) (untried'.erase path) := by
        intro other sameOther
        rw [List.count_erase, List.count_erase, agree other sameOther]
      obtain ⟨taken, left⟩ := ih erased rest_same
      rw [if_pos there, if_pos (both.mpr there)]
      exact ⟨congrArg (path :: ·) taken, left⟩
    · rw [if_neg there, if_neg (mt both.mp there)]
      exact ih agree rest_same

/-- Exploring looks at the candidates of the modules that it finds, and at nothing else. -/
theorem explore_congr {untried untried' : List String} {queue : List ReadModule}
    (agree : Untried s s' untried untried')
    (same : ∀ m ∈ (explore s untried queue).modules, ∀ c ∈ m.candidates, s.SameAt s' c) :
    explore s' untried' queue = explore s untried queue := by
  induction untried, queue using explore.induct s generalizing untried' with
  | case1 untried => rw [explore, explore]
  | case2 untried m waiting next found =>
    rename_i ih
    rw [explore] at same
    have first := same m List.mem_cons_self
    have dependencies := ReadModule.dependencies_congr first
    have wanted : ∀ path ∈ m.dependencies s, s.SameAt s' path := fun path mem =>
      first path (ReadModule.mem_candidates_of_mem_dependencies mem)
    obtain ⟨taken, left⟩ := agree.take wanted
    have read : readAll s' next.1 = readAll s next.1 :=
      readAll_congr fun path mem => wanted path (mem_of_mem_take mem)
    have others := ih left fun m' mem => same m' (List.mem_cons_of_mem _ mem)
    rw [explore, explore, dependencies, taken, read, others]

/-- Connecting what has been found looks at the candidates too. -/
theorem connect_congr {found : Exploration}
    (same : ∀ m ∈ found.modules, ∀ c ∈ m.candidates, s.SameAt s' c) :
    connect s' found = connect s found := by
  unfold connect
  rw [Program.mk.injEq]
  refine ⟨List.map_congr_left fun m mem => ?_, rfl⟩
  rw [LoadedModule.mk.injEq]
  refine ⟨rfl, rfl, rfl, List.map_congr_left fun specifier inside => ?_⟩
  rw [ReadModule.resolve?_congr (same m mem) inside]

/-- Loading looks at the entry and at the candidates of the imports of the program, and at nothing
else. -/
theorem load_congr {entry : String} (entrySame : s.SameAt s' (Path.normalize entry))
    (same : ∀ p, load s entry = .ok p → ∀ m ∈ p.modules, ∀ target ∈ m.targets,
      Specifier.isLocal target.1 = true →
      ∀ c ∈ Specifier.candidates (Specifier.base m.path target.1), s.SameAt s' c) :
    load s' entry = load s entry := by
  unfold load at same ⊢
  dsimp only at same ⊢
  rw [ReadModule.read_congr entrySame]
  cases read : ReadModule.read s (Path.normalize entry) with
  | error e => rfl
  | ok m =>
    rw [read] at same
    -- What the program says about specifiers is what the exploration has looked at.
    have candidates : ∀ m' ∈ (explore s (s.paths.erase (Path.normalize entry)) [m]).modules,
        ∀ c ∈ m'.candidates, s.SameAt s' c := by
      intro m' mem c inside
      obtain ⟨specifier, isSpecifier, isLocal, inside⟩ := ReadModule.mem_candidates_iff.mp inside
      exact same _ rfl _ (List.mem_map_of_mem mem) _ (List.mem_map_of_mem isSpecifier) isLocal c
        inside
    have agree : Untried s s' (s.paths.erase (Path.normalize entry))
        (s'.paths.erase (Path.normalize entry)) := by
      intro path samePath
      rw [List.count_erase, List.count_erase, samePath.count_eq]
    dsimp only
    rw [explore_congr agree candidates, connect_congr candidates]

/-! ### Each file is tried once -/

/-- A module is read exactly if its file has a text that can be parsed. -/
theorem read_eq_ok_iff {path : String} {m : ReadModule} :
    ReadModule.read s path = .ok m ↔ ∃ text items, s.read? path = some text ∧
      Grammar.parseModule (Path.extension? path == some "tsx") (scriptOf text) = .ok items ∧
      m = ⟨path, text, items⟩ := by
  constructor
  · intro read
    unfold ReadModule.read at read
    split at read
    · cases read
    · rename_i text found
      dsimp only at read
      split at read
      · rename_i items parsed
        exact ⟨text, items, found, parsed, (Except.ok.inj read).symm⟩
      · cases read
  · rintro ⟨text, items, found, parsed, rfl⟩
    unfold ReadModule.read
    rw [found]
    dsimp only
    rw [parsed]

/-- A module that is read has the path of its file. -/
theorem path_of_read {path : String} {m : ReadModule} (h : ReadModule.read s path = .ok m) :
    m.path = path := by
  obtain ⟨text, items, -, -, rfl⟩ := read_eq_ok_iff.1 h
  rfl

/-- A file that fails to be read is what the failure is about. -/
theorem path_of_read_error {path : String} {e : LoadError} (h : ReadModule.read s path = .error e) :
    e.path = path := by
  unfold ReadModule.read at h
  split at h
  · cases h
    rfl
  · dsimp only at h
    split at h
    · cases h
    · cases h
      rfl

/-- Loading an entry that can be read gives what is explored from there. -/
theorem load_eq_ok_iff {entry : String} {p : Program} :
    load s entry = .ok p ↔ ∃ m, ReadModule.read s (Path.normalize entry) = .ok m ∧
      p = connect s (explore s (s.paths.erase (Path.normalize entry)) [m]) := by
  unfold load
  dsimp only
  cases ReadModule.read s (Path.normalize entry) with
  | error e => simp
  | ok m => simp [eq_comm]

/-- The first module of a program is its entry. -/
theorem exists_entry_of_load {entry : String} {p : Program} (loaded : load s entry = .ok p) :
    ∃ m, p.module? 0 = some m ∧ m.path = Path.normalize entry := by
  obtain ⟨m, read, rfl⟩ := load_eq_ok_iff.1 loaded
  unfold module? connect
  rw [explore]
  exact ⟨_, rfl, path_of_read read⟩

/-- A file that cannot be loaded is the one that fails to be read. -/
theorem path_of_load_error {entry : String} {e : LoadError} (failed : load s entry = .error e) :
    e.path = Path.normalize entry := by
  unfold load at failed
  dsimp only at failed
  split at failed
  · rename_i read
    rw [← Except.error.inj failed]
    exact path_of_read_error read
  · cases failed

/-- The modules among some files are what is read there. -/
theorem read_of_mem_readAll {paths : List String} {m : ReadModule}
    (mem : m ∈ (readAll s paths).modules) : ReadModule.read s m.path = .ok m := by
  induction paths with
  | nil => cases mem
  | cons path rest ih =>
    rw [readAll] at mem
    split at mem
    · rename_i first read
      rcases List.mem_cons.mp mem with rfl | mem
      · rwa [path_of_read read]
      · exact ih mem
    · exact ih mem

/-- What an exploration finds has been read, if its queue has. -/
theorem read_of_mem_explore {untried : List String} {queue : List ReadModule}
    (queued : ∀ m ∈ queue, ReadModule.read s m.path = .ok m) {m : ReadModule}
    (mem : m ∈ (explore s untried queue).modules) : ReadModule.read s m.path = .ok m := by
  induction untried, queue using explore.induct s with
  | case1 untried =>
    rw [explore] at mem
    cases mem
  | case2 untried first waiting next found =>
    rename_i ih
    rw [explore] at mem
    rcases List.mem_cons.mp mem with rfl | mem
    · exact queued _ List.mem_cons_self
    · refine ih (fun m' inside => ?_) mem
      rcases List.mem_append.mp inside with inside | inside
      · exact queued m' (List.mem_cons_of_mem _ inside)
      · exact read_of_mem_readAll inside

/-- A module that is loaded has the text under its path. -/
theorem read?_of_mem_load {entry : String} {p : Program} (loaded : load s entry = .ok p)
    {m : LoadedModule} (mem : m ∈ p.modules) : s.read? m.path = some m.text := by
  obtain ⟨first, read, rfl⟩ := load_eq_ok_iff.1 loaded
  obtain ⟨m', inside, rfl⟩ := List.mem_map.mp mem
  have readFirst : ∀ m ∈ [first], ReadModule.read s m.path = .ok m := by
    intro m mem
    rw [List.mem_singleton.mp mem, path_of_read read]
    exact read
  obtain ⟨text, items, found, -, same⟩ := read_eq_ok_iff.1 (read_of_mem_explore readFirst inside)
  rw [same] at found ⊢
  exact found

/-- The modules among some files have the paths of these files. -/
theorem sublist_readAll (s : Sources) (paths : List String) :
    ((readAll s paths).modules.map ReadModule.path).Sublist paths := by
  induction paths with
  | nil => exact List.Sublist.refl _
  | cons path rest ih =>
    rw [readAll]
    split
    · rename_i m read
      rw [List.map_cons, path_of_read read]
      exact ih.cons_cons path
    · exact ih.cons path

/-- What is taken and what is left are together what has not been tried. -/
theorem count_take (untried wanted : List String) (path : String) :
    (take untried wanted).1.count path + (take untried wanted).2.count path
      = untried.count path := by
  induction wanted generalizing untried with
  | nil => simp [take]
  | cons first rest ih =>
    rw [take]
    split
    · rename_i there
      have split := ih (untried.erase first)
      have erased : (untried.erase first).count path
          = untried.count path - if first == path then 1 else 0 := List.count_erase ..
      -- What is erased has been there to be erased, so the subtraction loses nothing.
      have counted : untried.count path ≥ if first == path then 1 else 0 := by
        split
        · rename_i same
          rw [← eq_of_beq same]
          exact List.count_pos_iff.mpr there
        · omega
      dsimp only
      rw [List.count_cons]
      omega
    · exact ih untried

/-- An exploration finds modules of its queue, and of files that have not been tried, each once. -/
theorem count_explore_le (s : Sources) (untried : List String) (queue : List ReadModule)
    (path : String) : ((explore s untried queue).modules.map ReadModule.path).count path
      ≤ (queue.map ReadModule.path).count path + untried.count path := by
  induction untried, queue using explore.induct s with
  | case1 untried =>
    rw [explore]
    simp
  | case2 untried m waiting next found =>
    rename_i ih
    have taken : next.1.count path + next.2.count path = untried.count path :=
      count_take untried (m.dependencies s) path
    have read : (found.modules.map ReadModule.path).count path ≤ next.1.count path :=
      (sublist_readAll s next.1).count_le path
    have modules : (explore s untried (m :: waiting)).modules
        = m :: (explore s next.2 (waiting ++ found.modules)).modules := by
      rw [explore]
    rw [modules, List.map_cons, List.count_cons, List.map_cons, List.count_cons]
    rw [List.map_append, List.count_append] at ih
    omega

/-- The first module of a program is its entry, and no two modules have the same path. -/
theorem paths_of_load {entry : String} {p : Program} (nodup : s.paths.Nodup)
    (loaded : load s entry = .ok p) :
    (∃ m, p.module? 0 = some m ∧ m.path = Path.normalize entry) ∧
      (p.modules.map LoadedModule.path).Nodup := by
  refine ⟨exists_entry_of_load loaded, ?_⟩
  obtain ⟨m, read, rfl⟩ := load_eq_ok_iff.1 loaded
  have path := path_of_read read
  have paths : ((connect s (explore s (s.paths.erase (Path.normalize entry)) [m])).modules.map
      LoadedModule.path)
      = (explore s (s.paths.erase (Path.normalize entry)) [m]).modules.map ReadModule.path := by
    unfold connect
    rw [List.map_map]
    rfl
  rw [paths, List.nodup_iff_count_le_one]
  intro other
  -- The exploration begins with the entry, and takes each other path away when it is read.
  have bound := count_explore_le s (s.paths.erase (Path.normalize entry)) [m] other
  have once := List.nodup_iff_count_le_one.mp nodup other
  rw [List.map_cons, List.map_nil, List.count_singleton, List.count_erase, path] at bound
  split at bound <;> omega

/-- A module of a program is the file that the program was loaded from exactly if it is the first
one. -/
theorem path_eq_iff_of_load {entry : String} {p : Program} (nodup : s.paths.Nodup)
    (loaded : load s entry = .ok p) {id : ModuleId} {m : LoadedModule}
    (isModule : p.module? id = some m) : m.path = Path.normalize entry ↔ id = 0 := by
  obtain ⟨⟨first, isFirst, path⟩, once⟩ := paths_of_load nodup loaded
  have listed {i : ModuleId} {m : LoadedModule} (h : p.module? i = some m) :
      (p.modules.map LoadedModule.path)[i]? = some m.path := by
    rw [List.getElem?_map]
    exact congrArg (Option.map LoadedModule.path) h
  constructor
  · intro same
    have inside : id < (p.modules.map LoadedModule.path).length :=
      (List.getElem?_eq_some_iff.mp (listed isModule)).1
    exact (List.getElem?_inj inside once).mp
      (by rw [listed isModule, listed isFirst, same, path])
  · rintro rfl
    rw [Option.some.inj (isModule.symm.trans isFirst), path]

/-! ### Modules in a row -/

/-- `Row s untried m more`: of the files that have not been tried, each module leads to the next one
alone, from `m` on through `more`. -/
inductive Row (s : Sources) : List String → ReadModule → List ReadModule → Prop
  | last {untried : List String} {m : ReadModule}
      (nothing : take untried (m.dependencies s) = ([], untried)) : Row s untried m []
  | next {untried left : List String} {m m' : ReadModule} {more : List ReadModule}
      (leads : take untried (m.dependencies s) = ([m'.path], left))
      (read : ReadModule.read s m'.path = .ok m') (row : Row s left m' more) :
      Row s untried m (m' :: more)

/-- Modules in a row are found one after the other. -/
theorem explore_of_row {untried : List String} {m : ReadModule} {more : List ReadModule}
    (row : Row s untried m more) : explore s untried [m] = ⟨m :: more, []⟩ := by
  induction row with
  | last nothing => simp [explore, nothing, readAll]
  | next leads read row ih =>
    rw [explore]
    simp [leads, readAll, read, ih]

/-- A program whose modules stand in a row has just these. -/
theorem load_of_row {entry : String} {m : ReadModule} {more : List ReadModule}
    (read : ReadModule.read s (Path.normalize entry) = .ok m)
    (row : Row s (s.paths.erase (Path.normalize entry)) m more) :
    load s entry = .ok (connect s ⟨m :: more, []⟩) := by
  rw [← explore_of_row row]
  exact load_eq_ok_iff.2 ⟨m, read, rfl⟩

/-! ### Loading a file -/

/-- Whether a file can be loaded and its program passes a test. -/
def loadsWith (sources : Sources) (entry : String) (test : Program → Bool) : Bool :=
  match load sources entry with
  | .ok p => test p
  | .error _ => false

/-- A program that passes a test is there, with what the test says. -/
theorem exists_of_loadsWith {sources : Sources} {entry : String} {test : Program → Bool}
    (h : loadsWith sources entry test = true) :
    ∃ p, load sources entry = .ok p ∧ test p = true := by
  unfold loadsWith at h
  split at h
  · rename_i p loaded
    exact ⟨p, loaded, h⟩
  · cases h

/-- A program has an entry, which is what is transformed. -/
theorem transformFile_eq {entry : String} {p : Program} (loaded : load s entry = .ok p)
    (options : Options) : ∃ m, p.module? 0 = some m ∧
      transformFile s options entry = .ok (p, p.transformModule options 0 m) := by
  obtain ⟨m, isEntry, -⟩ := exists_entry_of_load loaded
  refine ⟨m, isEntry, ?_⟩
  unfold transformFile
  rw [loaded]
  dsimp only [bind, Except.bind]
  rw [isEntry]
  rfl

/-- What cannot be loaded is not transformed. -/
theorem transformFile_eq_error {entry : String} {e : LoadError} (failed : load s entry = .error e)
    (options : Options) : transformFile s options entry = .error e := by
  unfold transformFile
  rw [failed]
  rfl

end Program

end TypedProps
