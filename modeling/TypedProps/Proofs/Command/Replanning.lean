import TypedProps.Proofs.Command.Delivery

/-!
# `TypedProps.Proofs.Command.Replanning`: planning again after a run

A run writes modules in its output directory and nothing else (`exists_writes_generated`). A plan
that is made after it is the one before (`plan_again`): if the output directory is recognized in the
paths that lead into it, none of the modules there is found, and everything else is found as before.
-/

set_option autoImplicit false

namespace TypedProps.Command

variable {t t' : FileTree} {here dir : String} {a : Arguments} {wording : Wording} {plan : Plan}
  {written : List (List String × String)}

/-- The names of a module in a directory: all that a run writes there. -/
def Generated (dir names : List String) : Prop :=
  dir <+: names ∧ isModuleName (names.getLast?.getD "") = true

instance (dir names : List String) : Decidable (Generated dir names) :=
  inferInstanceAs (Decidable (_ ∧ _))

/-- Below every root of a run, the paths into its output directory begin with the path of that
directory as it is written, and a root that goes up leads somewhere. -/
structure Recognized (t : FileTree) (here : String) (a : Arguments) (dir : String) : Prop where
  spelled : ∀ root ∈ roots here a, ∀ names : List String, (∀ name ∈ names, Path.IsName name) →
    target here a dir <+: (Path.Normal.ofPath root).names ++ names →
    Path.startsWith (names.foldl Path.join root) (Path.join (Path.join here a.workspace) dir) = true
  found : ∀ root ∈ roots here a, Path.Descends root ∨ ∃ names, t.resolve root = .ok names

/-! ### The files of a plan -/

/-- The path of a file below a root leads where the root does, and on from there. -/
theorem names_foldl_join (root : String) {names : List String}
    (areNames : ∀ name ∈ names, Path.IsName name) :
    (Path.Normal.ofPath (names.foldl Path.join root)).names
      = (Path.Normal.ofPath root).names ++ names := by
  rw [Path.names_ofPath, Path.steps_foldl_join root areNames, List.foldl_append,
    ← Path.names_ofPath, Path.foldl_step_map_name]

/-- No path goes up: neither those of the directories of a run nor those that it is given. -/
structure Direct (here : String) (a : Arguments) (dir : String) : Prop extends
    Straight here a where
  here : Path.Descends here
  workspace : Path.Descends a.workspace
  outDir : Path.Descends dir

/-- If no path goes up, the output directory is recognized. -/
theorem Direct.recognized (direct : Direct here a dir) (absolute : Path.isAbsolute here = true)
    (t : FileTree) : Recognized t here a dir := by
  have workspace : Path.Descends (Path.join here a.workspace) :=
    Path.descends_join direct.here direct.workspace
  have descends : ∀ root ∈ roots here a, Path.Descends root := by
    intro root mem
    unfold roots at mem
    split at mem
    · rw [List.mem_singleton.mp mem]
      exact workspace
    · obtain ⟨path, given, rfl⟩ := List.mem_map.mp mem
      exact Path.descends_join direct.here (direct.paths path given)
  refine ⟨fun root mem names areNames inside => ?_, fun root mem => Or.inl (descends root mem)⟩
  -- Paths that do not go up are compared by their names.
  have pathDescends : Path.Descends (names.foldl Path.join root) := by
    unfold Path.Descends
    rw [Path.steps_foldl_join root areNames, List.mem_append]
    exact not_or.mpr ⟨descends root mem, by simp⟩
  rw [Path.startsWith_iff_names
    (Path.isAbsolute_foldl_join (isAbsolute_of_mem_roots absolute mem) _)
    (Path.isAbsolute_join (Path.isAbsolute_join absolute _) _) pathDescends
    (Path.descends_join workspace direct.outDir), names_foldl_join root areNames]
  exact inside

/-- A run over its whole workspace recognizes an output directory that is written relative to the
workspace, wherever that is. -/
theorem recognized_of_relative (absolute : Path.isAbsolute here = true) (noPaths : a.paths = [])
    (isDirectory : t.isDirectory (Path.join here a.workspace) = true)
    (relative : Path.isAbsolute dir = false) (descends : Path.Descends dir) :
    Recognized t here a dir := by
  have only : roots here a = [Path.join here a.workspace] := by
    unfold roots
    rw [noPaths]
    rfl
  have workspaceAbsolute := Path.isAbsolute_join absolute a.workspace
  refine ⟨fun root mem names areNames inside => ?_, fun root mem => ?_⟩
  · obtain rfl := List.mem_singleton.mp (only ▸ mem)
    obtain ⟨dirNames, steps, -⟩ := Path.steps_eq_map_of_descends descends
    rw [target, Path.names_join _ relative, steps, Path.foldl_step_map_name,
      List.prefix_append_right_inj] at inside
    rw [Path.startsWith_iff (Path.isAbsolute_foldl_join workspaceAbsolute names)
      (Path.isAbsolute_join workspaceAbsolute dir), Path.steps_foldl_join _ areNames,
      Path.steps_join _ relative, steps, List.prefix_append_right_inj]
    exact inside.map _
  · obtain rfl := List.mem_singleton.mp (only ▸ mem)
    obtain ⟨names, resolved, -⟩ := FileTree.isDirectory_iff.mp isDirectory
    exact Or.inr ⟨names, resolved⟩

section Files

variable (wf : t.WellFormed) (absolute : Path.isAbsolute here = true)
  (planned : (Command.plan t here a).2 = .ok plan) {path : String} (mem : path ∈ plan.files)
include wf planned mem

/-- A file of a plan is in the tree under the names of its path. -/
theorem exists_content_of_mem_files :
    ∃ root ∈ roots here a, ∃ (names : List String) (content : Content),
    (∀ name ∈ names, Path.IsName name) ∧ path = names.foldl Path.join root ∧
      ((Path.Normal.ofPath path).names, content) ∈ t.files := by
  obtain ⟨root, isRoot, below, -⟩ := exists_root_of_mem_files planned mem
  obtain ⟨base, inside, content, resolved, isFile, rfl⟩ := FileTree.mem_filesBelow_iff.mp below
  have listed : base ++ inside ∈ t.keys := List.mem_map_of_mem (FileTree.mem_files_iff.mp isFile)
  have areNames : ∀ name ∈ inside, Path.IsName name := fun name mem =>
    (wf.named _ listed).2 name (List.mem_append_right _ mem)
  refine ⟨root, isRoot, inside, content, areNames, rfl, ?_⟩
  rw [names_foldl_join root areNames, ← FileTree.resolve_eq_ok resolved]
  exact isFile

/-- No file of a plan lies in an output directory that is recognized. -/
theorem not_prefix_of_mem_files (recognized : Recognized t here a dir)
    (out : a.outDir = some dir) :
    ¬ target here a dir <+: (Path.Normal.ofPath path).names := by
  intro inside
  obtain ⟨-, -, -, -, outside⟩ := exists_root_of_mem_files planned mem
  obtain ⟨root, isRoot, names, content, areNames, rfl, -⟩ :=
    exists_content_of_mem_files wf planned mem
  rw [names_foldl_join root areNames] at inside
  have starts := recognized.spelled root isRoot names areNames inside
  rw [outside _ (outDir_of_planned planned out)] at starts
  cases starts

include absolute

/-- A module that is not shown by a path that goes up is shown by names, the last of which is its
own. -/
theorem steps_shownPath_of_mem_files (level : plan.Level) : ∃ names : List String,
    Path.steps (shownPath plan.workspace path) = names.map .name ∧
      names.getLast? = Path.fileName? path := by
  obtain ⟨root, -, -, ⟨name, named, -⟩, -⟩ := exists_root_of_mem_files planned mem
  have pathAbsolute := isAbsolute_of_mem_files absolute planned mem
  have workspaceAbsolute := isAbsolute_workspace absolute planned
  cases lies : Path.startsWith path plan.workspace with
  | false =>
    rw [shownPath_of_outside pathAbsolute workspaceAbsolute lies named, named,
      (Path.isName_of_fileName? pathAbsolute named).steps_eq]
    exact ⟨[name], rfl, rfl⟩
  | true =>
    obtain ⟨-, behind⟩ := shownPath_of_inside pathAbsolute workspaceAbsolute lies
    obtain ⟨names, steps, -⟩ := Path.steps_eq_map_of_descends (level path mem)
    refine ⟨names, steps, ?_⟩
    have last := (Path.fileName?_eq_some_iff pathAbsolute).mp named
    rw [behind, steps] at last
    by_cases none : names = []
    · -- Then the file would be the workspace, which is a directory.
      obtain ⟨-, -, -, content, -, -, isFile⟩ := exists_content_of_mem_files wf planned mem
      obtain ⟨isDirectory, -⟩ := plan_eq_ok_iff.1 planned
      obtain ⟨names', resolved, entry⟩ := FileTree.isDirectory_iff.mp isDirectory
      have sameNames : (Path.Normal.ofPath path).names = names' := by
        rw [FileTree.resolve_eq_ok resolved, Path.names_ofPath, Path.names_ofPath, behind, steps,
          none, (directories_of_planned planned).1, List.map_nil, List.append_nil]
      rw [← sameNames, wf.entry?_of_mem_files isFile] at entry
      cases entry
    · rw [List.getLast?_append_of_ne_nil _ (by simpa using none), List.getLast?_map] at last
      obtain ⟨name', isLast, eq⟩ := Option.map_eq_some_iff.mp last
      rw [isLast, named, Path.Component.name.inj eq]

end Files

/-- A run in which no module is shown by a path that goes up writes nothing but modules in its
output directory. -/
theorem exists_writes_generated (wording : Wording) (wf : t.WellFormed)
    (absolute : Path.isAbsolute here = true) (out : a.outDir = some dir)
    (level : ∀ plan, (Command.plan t here a).2 = .ok plan → plan.Level) :
    ∃ written, t.Writes written (runWith wording t here a).tree ∧ ∀ file ∈ written,
      Generated (target here a dir) file.1 ∧ ∀ name ∈ file.1, Path.IsName name := by
  obtain ⟨written, writes, origin⟩ := exists_writes_of_run wording t here a
  refine ⟨written, writes, fun file inside => ?_⟩
  obtain ⟨plan, dir', planned, out', path, mem, -, eq⟩ := origin file inside
  obtain ⟨root, -, -, ⟨name, named, isModule⟩, -⟩ := exists_root_of_mem_files planned mem
  obtain ⟨names, steps, last⟩ :=
    steps_shownPath_of_mem_files wf absolute planned mem (level plan planned)
  obtain rfl := Option.some.inj (out'.symm.trans (outDir_of_planned planned out))
  have behind : file.1 = target here a dir ++ names := by
    rw [eq, landing, Path.names_join _ (isAbsolute_shownPath_of_mem_files absolute planned mem),
      steps, Path.foldl_step_map_name, target]
  constructor
  · rw [behind]
    refine ⟨List.prefix_append _ _, ?_⟩
    have nonempty : names ≠ [] := by
      rintro rfl
      rw [named] at last
      cases last
    rw [List.getLast?_append_of_ne_nil _ nonempty, last, named]
    exact isModule
  · intro name' mem'
    rw [eq] at mem'
    exact Path.isName_of_mem_names mem'

/-! ### Planning again -/

/-- What is not a module in the output directory is not written. -/
theorem not_mem_of_not_generated {names : List String}
    (generated : ∀ file ∈ written, Generated (target here a dir) file.1)
    (away : ¬ Generated (target here a dir) names) : names ∉ written.map (·.1) := by
  intro mem
  obtain ⟨file, inside, rfl⟩ := List.mem_map.mp mem
  exact away (generated file inside)

/-- Options are in order exactly if their file has a text that is. -/
theorem readOptions_eq_ok_iff {path : String} {options : Options} :
    readOptions t path = .ok options ↔
      ∃ text, t.readText path = .ok text ∧ Options.ofJson text = .ok options := by
  unfold readOptions
  cases t.readText path with
  | error e => simp
  | ok text =>
    cases parsed : Options.ofJson text with
    | error e => simp [parsed]
    | ok options' => simp [parsed]

/-- A file that is asked for has to be read. -/
theorem fileOptions_of_some (t : FileTree) (workspace : String) {path : String}
    (config : a.config = some path) {options : Options} {warnings : List Failure} :
    fileOptions t workspace a = .ok (options, warnings) ↔
      readOptions t (Path.join workspace path) = .ok options ∧ warnings = [] := by
  unfold fileOptions
  rw [config]
  dsimp only
  cases readOptions t (Path.join workspace path) with
  | error e => simp [Except.map]
  | ok options' => simp [Except.map, eq_comm]

/-- Without a file that is asked for, the options are those of the file that the workspace has, if
it has one that is in order. -/
theorem fileOptions_of_none (t : FileTree) (workspace : String) (noConfig : a.config = none) :
    ∃ warnings, fileOptions t workspace a = .ok
      (match readOptions t (Path.join workspace optionsFileName) with
        | .ok options => options
        | .error _ => Options.standard, warnings) := by
  unfold fileOptions
  rw [noConfig]
  dsimp only
  split
  · cases readOptions t (Path.join workspace optionsFileName) with
    | ok options => exact ⟨[], rfl⟩
    | error e => exact ⟨[e], rfl⟩
  · rename_i missing
    cases read : readOptions t (Path.join workspace optionsFileName) with
    | error e => exact ⟨[], rfl⟩
    | ok options =>
      obtain ⟨text, hasText, -⟩ := readOptions_eq_ok_iff.1 read
      obtain ⟨names, resolved, entry⟩ := FileTree.readText_eq_ok_iff.mp hasText
      refine absurd ?_ missing
      unfold FileTree.contains FileTree.entryAt?
      rw [resolved]
      dsimp only
      rw [entry]
      rfl

section Again

variable (writes : t.Writes written t')
include writes

/-- The options of a run do not change if their file is not written. -/
theorem fileOptions_again {workspace : String} (absolute : Path.isAbsolute workspace = true)
    (isDirectory : t.isDirectory workspace = true)
    (away : (Path.Normal.ofPath (Path.join workspace (a.config.getD optionsFileName))).names
      ∉ written.map (·.1)) {options : Options} {warnings : List Failure}
    (found : fileOptions t workspace a = .ok (options, warnings)) :
    ∃ warnings', fileOptions t' workspace a = .ok (options, warnings') := by
  cases config : a.config with
  | some path =>
    rw [config] at away
    obtain ⟨read, -⟩ := (fileOptions_of_some t workspace config).mp found
    obtain ⟨text, hasText, parsed⟩ := readOptions_eq_ok_iff.1 read
    have again : readOptions t' (Path.join workspace path) = .ok options :=
      readOptions_eq_ok_iff.2 ⟨text, writes.readText_eq_ok away hasText, parsed⟩
    exact ⟨[], (fileOptions_of_some t' workspace config).mpr ⟨again, rfl⟩⟩
  | none =>
    rw [config] at away
    have isName : Path.IsName optionsFileName := by decide +kernel
    have same (o : Options) : readOptions t' (Path.join workspace optionsFileName) = .ok o ↔
        readOptions t (Path.join workspace optionsFileName) = .ok o := by
      rw [readOptions_eq_ok_iff, readOptions_eq_ok_iff]
      simp only [writes.readText_join_eq_ok_iff absolute isDirectory isName away]
    obtain ⟨warnings₁, before⟩ := fileOptions_of_none t workspace config
    obtain ⟨warnings₂, after⟩ := fileOptions_of_none t' workspace config
    rw [before] at found
    refine ⟨warnings₂, ?_⟩
    rw [after]
    -- The file is read as before, or it cannot be read, as before.
    cases read : readOptions t (Path.join workspace optionsFileName) with
    | ok o =>
      rw [read] at found
      cases found
      rw [(same o).mpr read]
    | error e =>
      rw [read] at found
      cases found
      cases read' : readOptions t' (Path.join workspace optionsFileName) with
      | error e' => rfl
      | ok o =>
        rw [(same o).mp read'] at read
        cases read

/-- What is wanted below a root is the same if only files are written that are not wanted. -/
theorem filter_filesBelow_again (wf : t.WellFormed) {root : String}
    (found : Path.Descends root ∨ ∃ names, t.resolve root = .ok names) {wants : String → Bool}
    (named : ∀ file ∈ written, ∀ name ∈ file.1, Path.IsName name)
    (unwanted : ∀ names : List String, (∀ name ∈ names, Path.IsName name) →
      (Path.Normal.ofPath root).names ++ names ∈ written.map (·.1) →
      wants (names.foldl Path.join root) = false) :
    (t'.filesBelow root).filter wants = (t.filesBelow root).filter wants := by
  cases resolved : t.resolve root with
  | ok base =>
    have still : t'.resolve root = .ok base := writes.keeps.follow_eq_ok resolved
    unfold FileTree.filesBelow
    rw [still, resolved]
    dsimp only
    rw [List.filter_filterMap, List.filter_filterMap]
    refine writes.filterMap_files fun file mem content => ?_
    cases below : FileTree.namesBelow base file.1 with
    | none => rfl
    | some inside =>
      have eq := FileTree.namesBelow_eq_some_iff.mp below
      have areNames : ∀ name ∈ inside, Path.IsName name := fun name isIn =>
        named file mem name (by rw [eq]; exact List.mem_append_right _ isIn)
      have hidden := unwanted inside areNames
        (by rw [← FileTree.resolve_eq_ok resolved, ← eq]; exact List.mem_map_of_mem mem)
      rw [Option.map_some, Option.filter_some, hidden, if_neg Bool.false_ne_true]
  | error e =>
    -- The root has led nowhere, and all that lies below it now has been written.
    have descends : Path.Descends root := by
      refine found.resolve_right fun leads => ?_
      obtain ⟨names, eq⟩ := leads
      rw [eq] at resolved
      cases resolved
    have nothing : t.filesBelow root = [] := by
      unfold FileTree.filesBelow
      rw [resolved]
    rw [nothing, List.filter_nil, List.filter_eq_nil_iff]
    intro path mem
    obtain ⟨base, inside, content, resolved', isFile, rfl⟩ := FileTree.mem_filesBelow_iff.mp mem
    by_cases isWritten : base ++ inside ∈ written.map (·.1)
    · have areNames : ∀ name ∈ inside, Path.IsName name := by
        obtain ⟨file, mem, eq⟩ := List.mem_map.mp isWritten
        intro name isIn
        exact named file mem name (by rw [eq]; exact List.mem_append_right _ isIn)
      rw [unwanted inside areNames (by rwa [← FileTree.resolve_eq_ok resolved'])]
      exact Bool.false_ne_true
    · have wasFile := (writes.mem_files_iff_of_not_mem isWritten).mp isFile
      rw [FileTree.resolve_of_keeps wf writes.keeps descends resolved' wasFile] at resolved
      cases resolved

/-- The plan of a run does not change by what it writes, unless it overwrites its options file. -/
theorem plan_again (wf : t.WellFormed) (absolute : Path.isAbsolute here = true)
    (recognized : Recognized t here a dir) (out : a.outDir = some dir)
    (generated : ∀ file ∈ written, Generated (target here a dir) file.1 ∧
      ∀ name ∈ file.1, Path.IsName name)
    (config : ∀ path, a.config = some path → ¬ Generated (target here a dir)
      (Path.Normal.ofPath (Path.join (Path.join here a.workspace) path)).names)
    (planned : (Command.plan t here a).2 = .ok plan) : (Command.plan t' here a).2 = .ok plan := by
  have away {names : List String} (h : ¬ Generated (target here a dir) names) :
      names ∉ written.map (·.1) :=
    not_mem_of_not_generated (fun file mem => (generated file mem).1) h
  obtain ⟨isDirectory, options, warnings, ignored, found, patterns, eq⟩ := plan_eq_ok_iff.1 planned
  have optionsAway : (Path.Normal.ofPath (Path.join (Path.join here a.workspace)
      (a.config.getD optionsFileName))).names ∉ written.map (·.1) := by
    cases given : a.config with
    | some path => exact away (config path given)
    | none =>
      refine away fun isGenerated => ?_
      have isName : Path.IsName optionsFileName := by decide +kernel
      have last := isGenerated.2
      rw [Option.getD_none, Path.names_join _ isName.isAbsolute_eq_false, isName.steps_eq,
        List.foldl_cons, List.foldl_nil, Path.Normal.step, List.getLast?_concat] at last
      exact absurd last (by decide +kernel)
  obtain ⟨warnings', found'⟩ := fileOptions_again writes
    (Path.isAbsolute_join absolute a.workspace) isDirectory optionsAway found
  have files : (selection here a ignored).files t' = (selection here a ignored).files t := by
    unfold Selection.files
    rw [List.filter_flatMap, List.filter_flatMap]
    congr 1
    refine List.flatMap_congr fun root mem => ?_
    refine filter_filesBelow_again writes wf (recognized.found root mem)
      (fun file inside => (generated file inside).2) fun names areNames isWritten => ?_
    -- A file that has been written lies in the output directory.
    have isDir : (selection here a ignored).outDir
        = some (Path.join (Path.join here a.workspace) dir) := by
      rw [selection, out]
      rfl
    obtain ⟨file, mem', eq⟩ := List.mem_map.mp isWritten
    have inside := (generated file mem').1.1
    rw [eq] at inside
    have starts := recognized.spelled root mem names areNames inside
    rw [Bool.eq_false_iff]
    intro wanted
    rw [startsWith_eq_false_of_wants wanted isDir] at starts
    cases starts
  rw [plan_eq_ok_iff]
  refine ⟨writes.keeps.isDirectory_eq_true isDirectory, options, warnings', ignored, found',
    patterns, ?_⟩
  rw [files]
  exact eq

end Again

end TypedProps.Command
