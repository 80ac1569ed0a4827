import Mathlib.Data.List.Dedup
import TypedProps.Proofs.Command.Replanning
import TypedProps.Proofs.Paths.Anchoring

/-!
# `TypedProps.Proofs.Command.Discovery`: how often a run finds a module

A run looks for modules below each of its roots and keeps one path of those with the same
components. Which paths a module has depends on how the roots are spelled: it is found once for
every way to write it that the filters let pass (`occurrences_eq`). The ways that go up and come
back are not recognized, neither as repetitions nor by the filters.

If each root is the workspace or in normal form, a module has only one path, and it is found once
exactly if it lies below a root, outside the output directory, and is not ignored
(`occurrences_of_plain`).
-/

set_option autoImplicit false

namespace TypedProps

/-! ### Paths behind a directory -/

namespace Path

/-- Going on along names puts them behind the segments of a path, except for the empty one behind a
slash at its end. -/
theorem segments_foldl_join {root : String} (absolute : isAbsolute root = true)
    {inside : List String} (further : inside ≠ []) (areNames : ∀ name ∈ inside, IsName name) :
    ∃ front, (segments root = front ∨ segments root = front ++ [""]) ∧
      segments (inside.foldl join root) = front ++ inside := by
  -- By induction on the names. The path that has been joined ends with a name, so nothing is left
  -- of a slash at its end.
  induction inside generalizing root with
  | nil => exact absurd rfl further
  | cons name rest ih =>
    obtain ⟨named, areNames⟩ := List.forall_mem_cons.mp areNames
    obtain ⟨front, before, joined⟩ :=
      segments_join (ne_empty_of_isAbsolute absolute) named.isAbsolute_eq_false
    rw [named.segments_eq] at joined
    refine ⟨front, before, ?_⟩
    by_cases last : rest = []
    · rw [last]
      exact joined
    · obtain ⟨front', before', all⟩ := ih (isAbsolute_join absolute name) last areNames
      have same : front' = front ++ [name] := by
        rcases before' with eq | eq
        · exact eq.symm.trans joined
        · -- A path that ends with a name does not end with a slash.
          have ends := (List.append_inj' (joined.symm.trans eq) rfl).2
          rw [(List.singleton_inj.mp ends)] at named
          exact absurd named (by decide)
      rw [List.foldl_cons, all, same, List.append_assoc]
      rfl

/-- So a path and names behind it are segments with the steps of the path, and the names. -/
theorem exists_segments_foldl_join {root : String} (absolute : isAbsolute root = true)
    {inside : List String} (areNames : ∀ name ∈ inside, IsName name) :
    ∃ front, front.filterMap Component.ofSegment? = steps root ∧
      segments (inside.foldl join root) = front ++ inside := by
  by_cases last : inside = []
  · exact ⟨segments root, rfl, by rw [last, List.append_nil]; rfl⟩
  · obtain ⟨front, before, all⟩ := segments_foldl_join absolute last areNames
    refine ⟨front, ?_, all⟩
    rcases before with eq | eq
    · rw [steps, eq]
    · rw [steps, eq, List.filterMap_append]
      simp [Component.ofSegment?]

/-- Names are steps. -/
theorem filterMap_ofSegment? {names : List String} (areNames : ∀ name ∈ names, IsName name) :
    names.filterMap Component.ofSegment? = names.map .name := by
  rw [← List.filterMap_eq_map]
  exact List.filterMap_congr fun name mem => (areNames name mem).1

/-- A path in normal form and names behind it are a path in normal form. -/
theorem foldl_join_toPath (absolute : Bool) {names inside : List String}
    (areNames : ∀ name ∈ names ++ inside, IsName name) :
    inside.foldl join (Normal.mk absolute names).toPath
      = (Normal.mk absolute (names ++ inside)).toPath := by
  induction inside generalizing names with
  | nil => rw [List.append_nil]; rfl
  | cons name rest ih =>
    rw [List.append_cons] at areNames ⊢
    have front : ∀ n ∈ names, IsName n := fun n mem => areNames n (by simp [mem])
    have isName : IsName name := areNames name (by simp)
    rw [List.foldl_cons, Specifier.join_toPath absolute front isName, ih areNames]

/-- A path in normal form does not go up. -/
theorem IsNormal.descends {path : String} (normal : IsNormal path) : Descends path := by
  unfold Descends
  rw [← normal, steps_normalize]
  simp

/-- Components can be dropped from segments that begin with theirs; blank ones may be left of
these. -/
theorem dropComponents_append {front : List String} (rest : List String) :
    ∃ blanks, (∀ segment ∈ blanks, Component.ofSegment? segment = none) ∧
      dropComponents (front.filterMap Component.ofSegment?) (front ++ rest)
        = some (blanks ++ rest) := by
  induction front with
  | nil => exact ⟨[], by simp, by simp [dropComponents]⟩
  | cons segment front ih =>
    obtain ⟨blanks, none, dropped⟩ := ih
    rw [List.filterMap_cons, List.cons_append]
    cases found : Component.ofSegment? segment with
    | some c =>
      refine ⟨blanks, none, ?_⟩
      simp only [dropComponents, found, beq_self_eq_true, if_true]
      exact dropped
    | none =>
      dsimp only
      -- Blank segments are skipped while there are components to drop; the last ones stay.
      cases all : front.filterMap Component.ofSegment? with
      | nil =>
        refine ⟨segment :: front, fun other mem => ?_, rfl⟩
        rcases List.mem_cons.mp mem with rfl | mem
        · exact found
        · exact List.filterMap_eq_nil_iff.mp all other mem
      | cons c cs =>
        refine ⟨blanks, none, ?_⟩
        rw [dropComponents, found]
        rw [all] at dropped
        exact dropped

/-- What a path has behind the segments of a directory is the part of it inside. -/
theorem stripDirectory?_eq {path dir : String} (absolute : isAbsolute path = true)
    (dirAbsolute : isAbsolute dir = true) {front inside : List String}
    (areNames : ∀ name ∈ inside, IsName name)
    (leads : front.filterMap Component.ofSegment? = steps dir)
    (split : segments path = front ++ inside) :
    stripDirectory? path dir = some ("/".intercalate inside) := by
  obtain ⟨blanks, none, dropped⟩ := @dropComponents_append front inside
  let blank : String → Bool := fun segment => segment == "" || segment == "."
  have blank_iff (segment : String) :
      blank segment = true ↔ Component.ofSegment? segment = .none := by
    rw [ofSegment?_eq_none_iff]
    simp [blank]
  have plain : ∀ name ∈ inside, blank name = false := fun name mem => by
    rw [Bool.eq_false_iff, ne_eq, blank_iff, (areNames name mem).1]
    simp
  -- Blank segments are dropped in front of the names, and behind them; names are not blank.
  have kept : ((blanks ++ inside).dropWhile blank) = inside := by
    rw [List.dropWhile_append_of_pos fun segment mem => (blank_iff segment).mpr (none segment mem)]
    cases inside with
    | nil => rfl
    | cons name rest => rw [List.dropWhile_cons_of_neg (by simp [plain name List.mem_cons_self])]
  have keptBehind : (inside.reverse.dropWhile blank).reverse = inside := by
    cases last : inside.reverse with
    | nil => simpa using last.symm
    | cons name rest =>
      have mem : name ∈ inside := List.mem_reverse.mp (last ▸ List.mem_cons_self)
      rw [List.dropWhile_cons_of_neg (by simp [plain name mem]), ← last, List.reverse_reverse]
  unfold stripDirectory?
  rw [components_of_isAbsolute absolute, components_of_isAbsolute dirAbsolute]
  dsimp only
  rw [split, ← leads, dropped, Option.map_some]
  show some ("/".intercalate
    (((blanks ++ inside).dropWhile blank).reverse.dropWhile blank).reverse) = _
  rw [kept, keptBehind]

end Path

namespace FileTree

variable {t : FileTree}

/-- A file stands under names. -/
theorem WellFormed.named_of_mem_files (wf : t.WellFormed) {file : List String} {content : Content}
    (isFile : (file, content) ∈ t.files) : file ≠ [] ∧ ∀ name ∈ file, Path.IsName name :=
  wf.named file (List.mem_map_of_mem (f := (·.1)) (mem_files_iff.1 isFile))

/-- The path of a file below a root leads to the file. -/
theorem resolve_foldl_join (wf : t.WellFormed) {root : String}
    (absolute : Path.isAbsolute root = true) {base inside : List String}
    (resolved : t.resolve root = .ok base) {content : Content}
    (isFile : (base ++ inside, content) ∈ t.files) :
    t.resolve (inside.foldl Path.join root) = .ok (base ++ inside) := by
  have listed : base ++ inside ∈ t.keys := List.mem_map_of_mem (mem_files_iff.1 isFile)
  have areNames := (wf.named _ listed).2
  induction inside generalizing root base with
  | nil => simpa using resolved
  | cons name rest ih =>
    have whole : base ++ name :: rest = base ++ [name] ++ rest := by simp
    have isDirectory : t.entry? base = some .directory :=
      wf.isDirectory_of_isPrefix listed (List.cons_ne_nil name rest)
    -- What is next on the way stands in the tree: it is the file or a directory around it.
    have stands : (t.entry? (base ++ [name])).isSome = true := by
      rw [whole] at listed isFile
      by_cases last : rest = []
      · rw [last, List.append_nil] at isFile
        rw [wf.entry?_of_mem_files isFile]
        rfl
      · rw [wf.isDirectory_of_isPrefix listed last]
        rfl
    have named : Path.IsName name := areNames name (by simp)
    rw [whole] at isFile listed areNames ⊢
    exact ih (Path.isAbsolute_join absolute name)
      (resolve_join absolute named resolved isDirectory stands) isFile listed areNames

end FileTree

namespace Command

variable {t : FileTree}

/-! ### Counting -/

/-- Of paths that are told apart by their components alone, sorting keeps as many as there are
component lists among them. -/
theorem countP_sortPaths {P : String → Bool}
    (told : ∀ p q, Path.components p = Path.components q → P p = P q) (paths : List String) :
    (sortPaths paths).countP P = ((paths.filter P).map Path.components).dedup.length := by
  have once : (((sortPaths paths).filter P).map Path.components).Nodup := by
    refine List.pairwise_map.mpr (((pairwise_sortPaths paths).filter P).imp ?_)
    exact fun before => before.components_ne
  have same : (((sortPaths paths).filter P).map Path.components).Perm
      ((paths.filter P).map Path.components).dedup := by
    refine (List.perm_ext_iff_of_nodup once (List.nodup_dedup _)).mpr fun cs => ?_
    rw [List.mem_dedup, List.mem_map, List.mem_map]
    constructor
    · rintro ⟨p, mem, rfl⟩
      obtain ⟨listed, passes⟩ := List.mem_filter.mp mem
      exact ⟨p, List.mem_filter.mpr ⟨mem_of_mem_sortPaths listed, passes⟩, rfl⟩
    · rintro ⟨p, mem, rfl⟩
      obtain ⟨listed, passes⟩ := List.mem_filter.mp mem
      obtain ⟨q, kept, equal⟩ := exists_same_mem_sortPaths listed
      exact ⟨q, List.mem_filter.mpr ⟨kept, (told q p equal).trans passes⟩, equal⟩
  rw [List.countP_eq_length_filter, ← same.length_eq, List.length_map]

namespace Selection

variable {s : Selection}

/-- The paths of a file as seen from the roots below which it lies. -/
def spellings (s : Selection) (t : FileTree) (file : List String) : List String :=
  s.roots.filterMap fun root =>
    match t.resolve root with
    | .ok base => (FileTree.namesBelow base file).map (·.foldl Path.join root)
    | .error _ => none

/-- How often a file is among those to process. -/
def occurrences (s : Selection) (t : FileTree) (file : List String) : Nat :=
  (s.files t).countP fun path => (Path.Normal.ofPath path).names == file

theorem mem_spellings_iff {file : List String} {path : String} :
    path ∈ s.spellings t file ↔ ∃ root ∈ s.roots, ∃ base inside, t.resolve root = .ok base ∧
      base ++ inside = file ∧ path = inside.foldl Path.join root := by
  unfold spellings
  rw [List.mem_filterMap]
  refine exists_congr fun root => and_congr_right fun _ => ?_
  cases t.resolve root with
  | error e => simp
  | ok base =>
    simp only [Option.map_eq_some_iff, FileTree.namesBelow_eq_some_iff]
    constructor
    · rintro ⟨inside, rfl, rfl⟩
      exact ⟨base, inside, rfl, rfl, rfl⟩
    · rintro ⟨_, inside, resolved, rfl, rfl⟩
      obtain rfl := Except.ok.inj resolved
      exact ⟨inside, rfl, rfl⟩

/-- A file is found as often as there are ways to write it, apart from dots and slashes, that the
filters let pass. -/
theorem occurrences_eq (wf : t.WellFormed) {file : List String} {content : Content}
    (isFile : (file, content) ∈ t.files) :
    s.occurrences t file
      = (((s.spellings t file).filter s.wants).map Path.components).dedup.length := by
  have told (p q : String) (same : Path.components p = Path.components q) :
      ((Path.Normal.ofPath p).names == file) = ((Path.Normal.ofPath q).names == file) := by
    unfold Path.Normal.ofPath
    rw [same]
  have areNames := (wf.named_of_mem_files isFile).2
  rw [occurrences, files, countP_sortPaths told]
  -- Both lists have no repetitions, and the same elements.
  refine List.Perm.length_eq ((List.perm_ext_iff_of_nodup (List.nodup_dedup _)
    (List.nodup_dedup _)).mpr fun cs => ?_)
  rw [List.mem_dedup, List.mem_dedup, List.mem_map, List.mem_map]
  refine exists_congr fun path => and_congr_left fun _ => ?_
  simp only [List.mem_filter, List.mem_flatMap, mem_spellings_iff, FileTree.mem_filesBelow_iff,
    beq_iff_eq]
  constructor
  · rintro ⟨⟨⟨root, isRoot, base, inside, content', resolved, isFile', rfl⟩, wanted⟩, rfl⟩
    have named : ∀ name ∈ inside, Path.IsName name := fun name mem =>
      (wf.named_of_mem_files isFile').2 name (List.mem_append_right _ mem)
    refine ⟨⟨root, isRoot, base, inside, resolved, ?_, rfl⟩, wanted⟩
    rw [names_foldl_join root named, ← FileTree.resolve_eq_ok resolved]
  · rintro ⟨⟨root, isRoot, base, inside, resolved, rfl, rfl⟩, wanted⟩
    refine ⟨⟨⟨root, isRoot, base, inside, content, resolved, isFile, rfl⟩, wanted⟩, ?_⟩
    rw [names_foldl_join root fun name mem => areNames name (List.mem_append_right _ mem),
      ← FileTree.resolve_eq_ok resolved]

/-! ### Roots without detours -/

/-- No directory goes up, and a root that is not the workspace is in normal form. -/
structure Plain (s : Selection) : Prop where
  roots : ∀ root ∈ s.roots, root = s.workspace ∨ Path.IsNormal root
  workspace : Path.isAbsolute s.workspace = true ∧ Path.Descends s.workspace
  outDir : ∀ dir ∈ s.outDir, Path.isAbsolute dir = true ∧ Path.Descends dir

/-- The path of a file as patterns see it: from the workspace if it lies there, else from the
root. -/
def relativeText (s : Selection) (file : List String) : String :=
  match FileTree.namesBelow (Path.Normal.ofPath s.workspace).names file with
  | some inside => "/".intercalate inside
  | none => FileTree.pathOf file

/-- A file has the name of a module, does not lie in the output directory, and is not ignored. -/
structure Admits (s : Selection) (file : List String) : Prop where
  module : isModuleName (file.getLast?.getD "") = true
  outside : ∀ dir ∈ s.outDir, ¬ (Path.Normal.ofPath dir).names <+: file
  unmatched : ∀ glob ∈ s.ignored, glob.accepts (s.relativeText file) = false

variable {file : List String} {content : Content} {path : String}

/-- Below such roots, a file has a path of its names alone. -/
theorem Plain.of_mem_spellings (plain : s.Plain) (wf : t.WellFormed)
    (rooted : ∀ root ∈ s.roots, Path.isAbsolute root = true) (isFile : (file, content) ∈ t.files)
    (mem : path ∈ s.spellings t file) :
    Path.isAbsolute path = true ∧ Path.steps path = file.map .name ∧
      pathInside s.workspace path = s.relativeText file := by
  obtain ⟨root, isRoot, base, inside, resolved, rfl, rfl⟩ := mem_spellings_iff.1 mem
  obtain ⟨nonempty, areNames⟩ := wf.named_of_mem_files isFile
  have absolute := rooted root isRoot
  obtain ⟨workspaceAbsolute, straight⟩ := plain.workspace
  have named : ∀ name ∈ inside, Path.IsName name := fun name mem =>
    areNames name (List.mem_append_right _ mem)
  have base_eq := FileTree.resolve_eq_ok resolved
  have descends : Path.Descends root := by
    rcases plain.roots root isRoot with rfl | normal
    · exact straight
    · exact normal.descends
  have pathAbsolute := Path.isAbsolute_foldl_join absolute inside
  have steps : Path.steps (inside.foldl Path.join root) = (base ++ inside).map .name := by
    rw [Path.steps_foldl_join root named, Path.steps_eq_map_names descends, ← base_eq,
      List.map_append]
  -- Below a root in normal form, the path is that of the names.
  have written : root = s.workspace ∨
      inside.foldl Path.join root = FileTree.pathOf (base ++ inside) := by
    refine (plain.roots root isRoot).imp_right fun normal => ?_
    have root_eq : root = (Path.Normal.mk true base).toPath := by
      rw [base_eq, ← absolute]
      exact normal.symm
    rw [root_eq, Path.foldl_join_toPath true areNames]
    rfl
  refine ⟨pathAbsolute, steps, ?_⟩
  unfold pathInside relativeText
  cases below : FileTree.namesBelow (Path.Normal.ofPath s.workspace).names (base ++ inside) with
  | none =>
    have outside : ¬ (Path.Normal.ofPath s.workspace).names <+: base ++ inside := by
      rintro ⟨rest, split⟩
      rw [FileTree.namesBelow_eq_some_iff.mpr split.symm] at below
      cases below
    have notStripped := (Path.stripDirectory?_eq_none_iff pathAbsolute workspaceAbsolute).mpr (by
      rwa [steps, Path.steps_eq_map_names straight,
        List.prefix_map_iff_of_injective Path.name_injective])
    rw [notStripped, Option.getD_none]
    refine written.resolve_left fun isWorkspace => outside ?_
    rw [← isWorkspace, ← base_eq]
    exact List.prefix_append base inside
  | some rest =>
    have split := FileTree.namesBelow_eq_some_iff.mp below
    have behind : ∀ name ∈ rest, Path.IsName name := fun name mem =>
      areNames name (split ▸ List.mem_append_right _ mem)
    obtain ⟨front, leads, segments⟩ : ∃ front : List String,
        front.filterMap Path.Component.ofSegment? = Path.steps s.workspace ∧
        Path.segments (inside.foldl Path.join root) = front ++ rest := by
      rcases written with isWorkspace | eq
      · rw [base_eq, isWorkspace, List.append_cancel_left_eq] at split
        rw [← isWorkspace, ← split]
        exact Path.exists_segments_foldl_join absolute named
      · refine ⟨"" :: (Path.Normal.ofPath s.workspace).names, ?_, ?_⟩
        · rw [Path.steps_eq_map_names straight]
          exact Path.filterMap_ofSegment? fun name mem => Path.isName_of_mem_names mem
        · have root : FileTree.pathOf (base ++ inside)
              = "" ++ "/" ++ "/".intercalate (base ++ inside) := by simp [FileTree.pathOf]
          rw [eq, root, Path.segments_append_slash,
            Path.segments_intercalate nonempty fun name mem => (areNames name mem).2, split]
          rfl
    rw [Path.stripDirectory?_eq pathAbsolute workspaceAbsolute behind leads segments,
      Option.getD_some]

/-- The filters let pass such a path exactly if they should let pass the file. -/
theorem Plain.wants_iff (plain : s.Plain) (wf : t.WellFormed)
    (rooted : ∀ root ∈ s.roots, Path.isAbsolute root = true) (isFile : (file, content) ∈ t.files)
    (mem : path ∈ s.spellings t file) : s.wants path = true ↔ s.Admits file := by
  obtain ⟨absolute, steps, text⟩ := plain.of_mem_spellings wf rooted isFile mem
  have named : Path.fileName? path = file.getLast? := by
    refine Option.ext fun name => ?_
    rw [Path.fileName?_eq_some_iff absolute, steps, List.getLast?_map]
    simp
  have descends : Path.Descends path := by
    unfold Path.Descends
    rw [steps]
    simp
  have names : (Path.Normal.ofPath path).names = file := by
    rw [Path.names_ofPath, steps, Path.foldl_step_map_name, List.nil_append]
  have outside (dir : String) (isDir : dir ∈ s.outDir) :
      Path.startsWith path dir = true ↔ (Path.Normal.ofPath dir).names <+: file := by
    obtain ⟨dirAbsolute, dirDescends⟩ := plain.outDir dir isDir
    rw [Path.startsWith_iff_names absolute dirAbsolute descends dirDescends, names]
  -- Each filter sees the path as it sees the file: by its name, by the directory around it, by its
  -- text.
  unfold wants
  rw [named, text]
  simp only [Bool.and_eq_true, Bool.not_eq_true', Option.any_eq_false, List.any_eq_false]
  constructor
  · rintro ⟨⟨module, out⟩, unmatched⟩
    exact ⟨module,
      fun dir isDir inside => Bool.eq_false_iff.mp (out dir isDir) ((outside dir isDir).mpr inside),
      fun glob mem => by simpa using unmatched glob mem⟩
  · rintro ⟨module, out, unmatched⟩
    exact ⟨⟨module,
      fun dir isDir => Bool.eq_false_iff.mpr (mt (outside dir isDir).mp (out dir isDir))⟩,
      fun glob mem => by simp [unmatched glob mem]⟩

/-- A file is found at most once, and it is found exactly if it lies below a root and the filters
should let it pass. -/
theorem occurrences_of_plain (plain : s.Plain) (wf : t.WellFormed)
    (rooted : ∀ root ∈ s.roots, Path.isAbsolute root = true) (isFile : (file, content) ∈ t.files) :
    s.occurrences t file ≤ 1 ∧ (s.occurrences t file = 1 ↔
      (∃ root ∈ s.roots, ∃ base, t.resolve root = .ok base ∧ base <+: file) ∧ s.Admits file) := by
  have below : s.spellings t file ≠ [] ↔
      ∃ root ∈ s.roots, ∃ base, t.resolve root = .ok base ∧ base <+: file := by
    constructor
    · intro nonempty
      obtain ⟨path, mem⟩ := List.exists_mem_of_ne_nil _ nonempty
      obtain ⟨root, isRoot, base, inside, resolved, rfl, rfl⟩ := mem_spellings_iff.1 mem
      exact ⟨root, isRoot, base, resolved, List.prefix_append base inside⟩
    · rintro ⟨root, isRoot, base, resolved, inside, rfl⟩
      exact List.ne_nil_of_mem
        (mem_spellings_iff.2 ⟨root, isRoot, base, inside, resolved, rfl, rfl⟩)
  rw [occurrences_eq wf isFile, ← below]
  -- All spellings have the same components, so they count once if the filters let them pass.
  by_cases admits : s.Admits file
  · have all : (s.spellings t file).filter s.wants = s.spellings t file :=
      List.filter_eq_self.mpr fun path mem => (plain.wants_iff wf rooted isFile mem).mpr admits
    have same : (s.spellings t file).map Path.components
        = List.replicate (s.spellings t file).length (.root :: file.map .name) := by
      refine List.eq_replicate_iff.mpr ⟨List.length_map _, fun cs mem => ?_⟩
      obtain ⟨path, isPath, rfl⟩ := List.mem_map.mp mem
      obtain ⟨absolute, steps, -⟩ := plain.of_mem_spellings wf rooted isFile isPath
      rw [Path.components_of_isAbsolute absolute, steps]
    rw [all, same]
    by_cases none : s.spellings t file = []
    · simp [none]
    · rw [List.replicate_dedup (by simpa using none)]
      simp [none, admits]
  · have nothing : (s.spellings t file).filter s.wants = [] :=
      List.filter_eq_nil_iff.mpr fun path mem wanted =>
        admits ((plain.wants_iff wf rooted isFile mem).mp wanted)
    simp [nothing, admits]

/-- The paths of the files to process increase strictly, and each leads to a file below a root which
the filters let pass as it is written there. Each file is found as often as there are such ways to
write it, apart from dots and slashes. From roots without detours it is found once exactly if it
lies below a root and the filters should let it pass, and else not at all. -/
theorem files_by_spelling (wf : t.WellFormed)
    (rooted : ∀ root ∈ s.roots, Path.isAbsolute root = true) :
    (s.files t).Pairwise Path.Before ∧
    (∀ path ∈ s.files t, ∃ file content, (file, content) ∈ t.files ∧ t.resolve path = .ok file ∧
      path ∈ s.spellings t file ∧ s.wants path = true) ∧
    (∀ file content, (file, content) ∈ t.files → s.occurrences t file
      = (((s.spellings t file).filter s.wants).map Path.components).dedup.length) ∧
    (s.Plain → ∀ file content, (file, content) ∈ t.files →
      s.occurrences t file ≤ 1 ∧ (s.occurrences t file = 1 ↔
        (∃ root ∈ s.roots, ∃ base, t.resolve root = .ok base ∧ base <+: file) ∧
          s.Admits file)) := by
  refine ⟨pairwise_sortPaths _, fun path mem => ?_, fun file content => occurrences_eq wf,
    fun plain file content => occurrences_of_plain plain wf rooted⟩
  obtain ⟨root, isRoot, below, wanted⟩ := mem_files_of_selection mem
  obtain ⟨base, inside, content, resolved, isFile, rfl⟩ := FileTree.mem_filesBelow_iff.mp below
  exact ⟨base ++ inside, content, isFile,
    FileTree.resolve_foldl_join wf (rooted root isRoot) resolved isFile,
    mem_spellings_iff.2 ⟨root, isRoot, base, inside, resolved, rfl, rfl⟩, wanted⟩

end Selection

/-- A module, a directory next to it, and a module in the output directory. -/
def detourTree : FileTree := .ofList [
  ("/w/a.ts", .file (.text "export const x = 1\n")), ("/w/sub", .directory),
  ("/w/out/a.ts", .file (.text "export const x = 1\n"))]

/-- From the workspace and a module in it, the module is found once, and not what lies in the output
directory. -/
theorem Selection.files_by_spelling_nested :
    let s := selection "/w" { Arguments.standard with
      paths := [".", "a.ts"], outDir := some "out" } []
    detourTree.WellFormed ∧ (∀ root ∈ s.roots, Path.isAbsolute root = true) ∧ s.Plain ∧
      s.occurrences detourTree ["w", "a.ts"] = 1 ∧ s.Admits ["w", "a.ts"] ∧
      s.occurrences detourTree ["w", "out", "a.ts"] = 0 := by
  intro s
  have wf : detourTree.WellFormed := by decide +kernel
  have rooted : ∀ root ∈ s.roots, Path.isAbsolute root = true := by decide +kernel
  have plain : s.Plain := by
    refine ⟨?_, ?_, ?_⟩ <;> decide +kernel
  obtain ⟨-, -, counted, single⟩ := Selection.files_by_spelling wf rooted
  have isModule : (["w", "a.ts"], Content.text "export const x = 1\n") ∈ detourTree.files := by
    decide +kernel
  have isOutput : (["w", "out", "a.ts"], Content.text "export const x = 1\n")
      ∈ detourTree.files := by decide +kernel
  have once : s.occurrences detourTree ["w", "a.ts"] = 1 := by
    rw [counted _ _ isModule]
    decide +kernel
  have never : s.occurrences detourTree ["w", "out", "a.ts"] = 0 := by
    rw [counted _ _ isOutput]
    decide +kernel
  exact ⟨wf, rooted, plain, once, ((single plain _ _ isModule).2.mp once).2, never⟩

/-- A module that is given once more by way of a directory counts twice, and what lies in the output
directory counts if that is reached by a detour. -/
theorem counts_module_twice :
    let s := selection "/w" { Arguments.standard with paths := ["a.ts", "sub/../a.ts"] } []
    let s' := selection "/w" { Arguments.standard with
      paths := ["sub/../out"], outDir := some "out" } []
    detourTree.WellFormed ∧ s.files detourTree = ["/w/a.ts", "/w/sub/../a.ts"] ∧
      s.occurrences detourTree ["w", "a.ts"] = 2 ∧
      (run .standard detourTree "/w" ["a.ts", "sub/../a.ts"]).printed
        = "====================================\n" ++
          "vue-auto-props patched 0 components in 2 files and found 0 errors and 0 warnings\n" ∧
      s'.occurrences detourTree ["w", "out", "a.ts"] = 1 := by
  decide +kernel

end Command

end TypedProps
