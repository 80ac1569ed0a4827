import TypedProps.Proofs.FileTree.Writes
import TypedProps.Proofs.Program.Loading

/-!
# `TypedProps.Proofs.FileTree.Frame`: what writing does not touch

After some files have been written, everything else is found as before: the sources that programs are
loaded from (`Writes.sources_sameAt`), texts that are read (`Writes.readText_eq_ok`), and the paths
that lead to files (`resolve_of_keeps`). A path can lead to more than before only if what it leads to
has been written.
-/

set_option autoImplicit false

namespace TypedProps.FileTree

variable {t t' : FileTree} {names : List String} {files : List (List String × String)}
  {content : Content}

/-- The path of names leads along them. -/
theorem names_pathOf (areNames : ∀ name ∈ names, Path.IsName name) :
    (Path.Normal.ofPath (pathOf names)).names = names := by
  rw [Path.names_ofPath, pathOf, Path.steps_slash_append, Path.steps_intercalate areNames,
    Path.foldl_step_map_name, List.nil_append]

/-! ### Files -/

/-- A file is listed under its names. -/
theorem mem_files_iff : (names, content) ∈ t.files ↔ (names, Entry.file content) ∈ t.entries := by
  unfold files
  rw [List.mem_filterMap]
  constructor
  · rintro ⟨⟨names', entry⟩, mem, eq⟩
    cases entry with
    | directory => cases eq
    | file content' =>
      obtain ⟨rfl, rfl⟩ := Prod.mk.inj (Option.some.inj eq)
      exact mem
  · intro mem
    exact ⟨_, mem, rfl⟩

/-- A file that is listed is found. -/
theorem WellFormed.entry?_of_mem_files (wf : t.WellFormed) (isFile : (names, content) ∈ t.files) :
    t.entry? names = some (.file content) := by
  have isEntry := mem_files_iff.1 isFile
  rw [entry?_of_ne_nil (wf.named names (List.mem_map_of_mem isEntry)).1]
  exact Keyed.lookup_of_mem wf.nodup isEntry

/-- Each file is a source once. -/
theorem WellFormed.nodup_paths_sources (wf : t.WellFormed) : t.sources.paths.Nodup := by
  have sublist : (t.files.map (·.1)).Sublist t.keys := by
    unfold files keys
    induction t.entries with
    | nil => exact List.Sublist.refl _
    | cons pair rest ih =>
      obtain ⟨names, entry⟩ := pair
      cases entry with
      | directory => exact ih.cons _
      | file content => exact ih.cons_cons _
  have listed : t.sources.paths = (t.files.map (·.1)).map pathOf := by
    unfold sources Sources.paths
    rw [List.map_map, List.map_map]
    rfl
  rw [listed]
  refine List.Nodup.map_on (fun names mem names' mem' same => ?_) (wf.nodup.sublist sublist)
  rw [← names_pathOf (wf.named names (sublist.subset mem)).2, same,
    names_pathOf (wf.named names' (sublist.subset mem')).2]

/-- What is shown of the files of a tree does not change where what is written shows nothing. -/
theorem Writes.filterMap_files {α : Type} {shows : List String × Content → Option α}
    (writes : Writes t files t')
    (hidden : ∀ file ∈ files, ∀ content, shows (file.1, content) = none) :
    t'.files.filterMap shows = t.files.filterMap shows := by
  unfold FileTree.files
  rw [List.filterMap_filterMap, List.filterMap_filterMap]
  refine writes.filterMap_entries (fun _ => rfl) fun file mem entry => ?_
  cases entry with
  | directory => rfl
  | file content => exact hidden file mem content

/-- Files that are not written are the same before and after. -/
theorem Writes.mem_files_iff_of_not_mem (writes : Writes t files t')
    (away : names ∉ files.map (·.1)) :
    (names, content) ∈ t'.files ↔ (names, content) ∈ t.files := by
  -- What is shown of a tree is whether this file is in it.
  have listed (u : FileTree) : (names, content) ∈ u.files ↔
      (names, content) ∈ u.files.filterMap (Option.guard (· == (names, content))) := by
    rw [List.filterMap_eq_filter, List.mem_filter, beq_self_eq_true, and_iff_left rfl]
  rw [listed, listed, writes.filterMap_files]
  intro file mem content'
  have ne : file.1 ≠ names := fun eq => away (eq ▸ List.mem_map_of_mem mem)
  simp [Option.guard, ne]

/-- Where nothing is written, programs are loaded from the same sources. -/
theorem Writes.sources_sameAt (writes : Writes t files t')
    (named : ∀ file ∈ files, ∀ name ∈ file.1, Path.IsName name) {path : String}
    (away : (Path.Normal.ofPath path).names ∉ files.map (·.1)) :
    t.sources.SameAt t'.sources path := by
  intro key isKey
  have leads : (Path.Normal.ofPath key).names = (Path.Normal.ofPath path).names := by
    rcases isKey with rfl | rfl
    · rfl
    · exact Path.names_normalize path
  unfold sources
  rw [← List.filterMap_eq_filter, List.filterMap_map, List.filterMap_map]
  refine writes.filterMap_files fun file mem content => ?_
  have other : pathOf file.1 ≠ key := by
    intro same
    refine away ?_
    rw [← leads, ← same, names_pathOf (named file mem)]
    exact List.mem_map_of_mem mem
  simp [Option.guard, other]

/-! ### Paths -/

/-- A path to a directory is one that leads to names at which there is a directory. -/
theorem isDirectory_iff {path : String} : t.isDirectory path = true ↔
    ∃ names, t.resolve path = .ok names ∧ t.entry? names = some .directory := by
  unfold isDirectory entryAt?
  cases t.resolve path with
  | error e => simp
  | ok names => simp

/-- A path to a directory still leads to it. -/
theorem Keeps.isDirectory_eq_true (keeps : t.Keeps t') {path : String}
    (h : t.isDirectory path = true) : t'.isDirectory path = true := by
  obtain ⟨names, resolved, entry⟩ := isDirectory_iff.1 h
  exact isDirectory_iff.2 ⟨names, keeps.follow_eq_ok resolved, (keeps names).1 entry⟩

/-- The text of a file is that of what its path leads to. -/
theorem readText_eq_ok_iff {path text : String} :
    t.readText path = .ok text ↔
      ∃ names, t.resolve path = .ok names ∧ t.entry? names = some (.file (.text text)) := by
  unfold readText
  cases t.resolve path with
  | error e =>
    dsimp only [bind, Except.bind]
    simp
  | ok names =>
    dsimp only [bind, Except.bind]
    split
    · rename_i text' entry
      simp [entry, pure, Except.pure]
    · rename_i entry
      simp [entry, throw, throwThe, MonadExceptOf.throw]
    · rename_i entry
      simp [entry, throw, throwThe, MonadExceptOf.throw]
    · rename_i entry
      simp [entry, throw, throwThe, MonadExceptOf.throw]

/-- A text that is not written is read as before, and none comes from nowhere. -/
theorem Writes.readText_eq_ok (writes : Writes t files t') {path text : String}
    (away : (Path.Normal.ofPath path).names ∉ files.map (·.1)) (h : t.readText path = .ok text) :
    t'.readText path = .ok text := by
  obtain ⟨names, resolved, entry⟩ := readText_eq_ok_iff.1 h
  rw [← resolve_eq_ok resolved] at away
  exact readText_eq_ok_iff.2 ⟨names, writes.keeps.follow_eq_ok resolved,
    (writes.entry?_file_iff away).mpr entry⟩

/-- What stands somewhere stands in directories. -/
theorem WellFormed.isDirectory_of_isPrefix (wf : t.WellFormed) {behind : List String}
    (listed : names ++ behind ∈ t.keys) (ne : behind ≠ []) :
    t.entry? names = some .directory := by
  induction behind using List.reverseRecOn with
  | nil => exact absurd rfl ne
  | append_singleton front last ih =>
    have above : t.entry? (names ++ front) = some .directory := by
      have := wf.inDirectory _ listed
      rw [← List.append_assoc, List.dropLast_concat] at this
      exact eq_of_beq this
    by_cases empty : front = []
    · rwa [empty, List.append_nil] at above
    · exact ih (mem_keys_of_entry?_eq_some (by simp [empty]) above) empty

/-- A step that does not go up goes on from where it starts, to the name it has. -/
theorem append_eq_of_step {start middle : List String} {segment : String} (notUp : segment ≠ "..")
    (eq : middle = (Path.Component.ofSegment? segment).toList.foldl Path.Normal.step start) :
    ∃ own, middle = start ++ own ∧
      ∀ name, Path.Component.ofSegment? segment = some (.name name) → own = [name] := by
  unfold Path.Component.ofSegment? at eq ⊢
  split at eq
  · rename_i blank
    exact ⟨[], by simpa using eq, by simp [blank]⟩
  · rename_i blank
    rw [if_neg (by simpa using notUp)] at eq
    exact ⟨[segment], eq, by simp [blank, notUp]⟩

/-- A path that leads to a file, or to where a file lies below, has done so before if the file has
been there. -/
theorem resolve_of_keeps (wf : t.WellFormed) (keeps : t.Keeps t') {root : String}
    (descends : Path.Descends root) {base inside : List String}
    (resolved : t'.resolve root = .ok base) (isFile : (base ++ inside, content) ∈ t.files) :
    t.resolve root = .ok base := by
  have listed : base ++ inside ∈ t.keys := List.mem_map_of_mem (mem_files_iff.1 isFile)
  have entry := wf.entry?_of_mem_files isFile
  -- On the way to the file there has been a directory, or the file itself.
  have stood (names behind : List String) (eq : names ++ behind = base ++ inside) :
      t.entry? names = some .directory ∨ t.entry? names = some (.file content) := by
    by_cases last : behind = []
    · rw [last, List.append_nil] at eq
      exact Or.inr (eq ▸ entry)
    · exact Or.inl (wf.isDirectory_of_isPrefix (eq ▸ listed) last)
  have along (segments start : List String) (noUp : ".." ∉ segments)
      (h : segments.foldlM t'.step start = .ok base) :
      (∃ way, start ++ way = base) ∧ segments.foldlM t.step start = .ok base := by
    induction segments generalizing start with
    | nil =>
      cases h
      exact ⟨⟨[], by simp⟩, rfl⟩
    | cons segment rest ih =>
      obtain ⟨notUp, noUp⟩ := not_or.mp (mt List.mem_cons.mpr noUp)
      obtain ⟨middle, first, others⟩ := foldlM_step_cons_iff.1 h
      obtain ⟨⟨way, rfl⟩, again⟩ := ih middle noUp others
      obtain ⟨isDirectory, eq, -⟩ := step_eq_ok_iff.1 first
      obtain ⟨own, rfl, named⟩ := append_eq_of_step (Ne.symm notUp) eq
      have wasDirectory : t.isDirectoryAt start = true := by
        rcases stood start (own ++ (way ++ inside)) (by simp) with was | was
        · rw [isDirectoryAt, was]
          rfl
        · -- What has been a file is still one.
          obtain ⟨content', entry'⟩ := (keeps start).2 content was
          rw [isDirectoryAt, entry'] at isDirectory
          cases isDirectory
      refine ⟨⟨own ++ way, by simp⟩, foldlM_step_cons_iff.2 ⟨_, ?_, again⟩⟩
      refine step_eq_ok_iff.2 ⟨wasDirectory, eq, fun name isName => ?_⟩
      rw [← named name isName]
      rcases stood (start ++ own) (way ++ inside) (by simp) with was | was <;> rw [was] <;> rfl
  have noUp : ".." ∉ Path.segments root := by
    intro mem
    exact descends (List.mem_filterMap.mpr ⟨"..", mem, rfl⟩)
  exact (along _ [] noUp resolved).2

/-- A name in a directory is followed if something stands there. -/
theorem resolve_join {base name : String} (absolute : Path.isAbsolute base = true)
    (isName : Path.IsName name) (resolved : t.resolve base = .ok names)
    (isDirectory : t.entry? names = some .directory)
    (stands : (t.entry? (names ++ [name])).isSome = true) :
    t.resolve (Path.join base name) = .ok (names ++ [name]) := by
  obtain ⟨front, before, both⟩ :=
    Path.segments_join (Path.ne_empty_of_isAbsolute absolute) isName.isAbsolute_eq_false
  have notUp : name ≠ ".." := by
    rintro rfl
    exact absurd isName.1 (by decide)
  have notBlank : name ≠ "" ∧ name ≠ "." := by
    refine not_or.mp fun blank => ?_
    have none := isName.1
    rw [Path.ofSegment?_eq_none_iff.mpr blank] at none
    cases none
  have last : t.step names name = .ok (names ++ [name]) := by
    unfold step
    rw [isDirectory]
    dsimp only
    rw [if_neg (by simpa using notBlank), if_neg (by simpa using notUp), if_pos stands]
  have followed : front.foldlM t.step [] = .ok names := by
    rcases before with eq | eq
    · rw [← eq]
      exact resolved
    · -- The empty segment behind a slash stays in the directory.
      unfold resolve follow at resolved
      rw [eq] at resolved
      obtain ⟨middle, first, ahead⟩ := foldlM_step_append_iff.1 resolved
      obtain ⟨_, second, arrived⟩ := foldlM_step_cons_iff.1 ahead
      obtain ⟨-, rfl, -⟩ := step_eq_ok_iff.1 second
      cases arrived
      exact first
  unfold resolve follow
  rw [both, isName.segments_eq, List.foldlM_append, followed]
  dsimp only [bind, Except.bind]
  rw [List.foldlM_cons, last]
  rfl

/-- A file in a directory has a text that is not written exactly if it has had it before. -/
theorem Writes.readText_join_eq_ok_iff (writes : Writes t files t') {base name text : String}
    (absolute : Path.isAbsolute base = true) (isDirectory : t.isDirectory base = true)
    (isName : Path.IsName name)
    (away : (Path.Normal.ofPath (Path.join base name)).names ∉ files.map (·.1)) :
    t'.readText (Path.join base name) = .ok text ↔ t.readText (Path.join base name) = .ok text := by
  constructor
  · intro h
    obtain ⟨names, resolved, entry'⟩ := FileTree.readText_eq_ok_iff.mp h
    obtain ⟨names₀, resolved₀, entry₀⟩ := isDirectory_iff.1 isDirectory
    have behind : names = names₀ ++ [name] := by
      rw [resolve_eq_ok resolved, Path.names_join _ isName.isAbsolute_eq_false, isName.steps_eq,
        ← resolve_eq_ok resolved₀]
      rfl
    rw [← resolve_eq_ok resolved] at away
    have entry := (writes.entry?_file_iff away).mp entry'
    rw [behind] at entry
    have again := resolve_join absolute isName resolved₀ entry₀ (by rw [entry]; rfl)
    exact FileTree.readText_eq_ok_iff.mpr ⟨_, again, entry⟩
  · exact writes.readText_eq_ok away

end TypedProps.FileTree
