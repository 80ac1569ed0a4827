import TypedProps.Command.Run
import TypedProps.Proofs.FileTree.Frame
import TypedProps.Proofs.Paths.Order

/-!
# `TypedProps.Proofs.Command.Delivery`: what a run processes and what it writes

A run that is planned processes the files of its plan, all of which lie below its roots
(`exists_root_of_mem_files`), and delivers the results one after the other, up to the first one that
cannot be written (`exists_writes_of_plan`). A module is delivered to the path under which it is
shown, seen from the output directory: the part of its path behind the workspace, or its name if it
lies elsewhere (`shownPath_of_inside`, `shownPath_of_outside`).
-/

set_option autoImplicit false

namespace TypedProps

/-! ### Files below a path -/

namespace FileTree

variable {t : FileTree}

/-- Names lie below others if they go on from them. -/
theorem namesBelow_eq_some_iff {base names inside : List String} :
    namesBelow base names = some inside ↔ names = base ++ inside := by
  induction base generalizing names with
  | nil =>
    rw [namesBelow, Option.some.injEq, List.nil_append]
  | cons a as ih =>
    cases names with
    | nil => simp [namesBelow]
    | cons b bs =>
      rw [namesBelow, List.cons_append, List.cons.injEq]
      split
      · rename_i same
        rw [ih]
        exact ⟨fun eq => ⟨(eq_of_beq same).symm, eq⟩, fun eq => eq.2⟩
      · rename_i other
        constructor
        · intro h
          cases h
        · rintro ⟨rfl, -⟩
          exact absurd (beq_self_eq_true _) other

/-- A file below a path is the path followed by the names that lead there. -/
theorem mem_filesBelow_iff {root path : String} :
    path ∈ t.filesBelow root ↔ ∃ base inside content, t.resolve root = .ok base ∧
      (base ++ inside, content) ∈ t.files ∧ path = inside.foldl Path.join root := by
  unfold filesBelow
  cases t.resolve root with
  | error e => simp
  | ok base =>
    simp only [List.mem_filterMap]
    constructor
    · rintro ⟨⟨names, content⟩, mem, eq⟩
      obtain ⟨inside, below, rfl⟩ := Option.map_eq_some_iff.mp eq
      obtain rfl := namesBelow_eq_some_iff.1 below
      exact ⟨base, inside, content, rfl, mem, rfl⟩
    · rintro ⟨base', inside, content, eq, mem, rfl⟩
      cases eq
      exact ⟨_, mem, by rw [namesBelow_eq_some_iff.2 rfl]; rfl⟩

end FileTree

namespace Command

variable {t : FileTree} {here : String} {a : Arguments}

/-! ### Planning -/

/-- The paths below which a run looks for modules. -/
def roots (here : String) (a : Arguments) : List String :=
  if a.paths.isEmpty then [Path.join here a.workspace] else a.paths.map (Path.join here)

/-- What the files of a run are selected by. -/
def selection (here : String) (a : Arguments) (ignored : List Glob) : Selection where
  roots := roots here a
  workspace := Path.join here a.workspace
  outDir := a.outDir.map (Path.join (Path.join here a.workspace))
  ignored := ignored

/-- The patterns of a run. -/
def ignoredBy (a : Arguments) : Except Glob.ReadError (List Glob) :=
  (a.ignore ++ standardIgnored).mapM Glob.ofText

/-- A run is planned exactly if its workspace, its options and its patterns are in order. -/
theorem plan_eq_ok_iff {plan : Plan} :
    (Command.plan t here a).2 = .ok plan ↔
      t.isDirectory (Path.join here a.workspace) = true ∧
        ∃ options warnings ignored,
          fileOptions t (Path.join here a.workspace) a = .ok (options, warnings) ∧
          ignoredBy a = .ok ignored ∧
          plan = {
            workspace := Path.join here a.workspace
            options := override a options
            outDir := a.outDir.map (Path.join (Path.join here a.workspace))
            files := (selection here a ignored).files t } := by
  -- The three conditions are checked one after the other, and the first failure ends the planning.
  unfold Command.plan ignoredBy
  dsimp only
  split
  · rename_i isDirectory
    rw [isDirectory]
    cases fileOptions t (Path.join here a.workspace) a with
    | error e => simp
    | ok found =>
      obtain ⟨options, warnings⟩ := found
      cases (a.ignore ++ standardIgnored).mapM Glob.ofText with
      | error e => simp
      | ok ignored =>
        constructor
        · intro eq
          exact ⟨rfl, options, warnings, ignored, rfl, rfl, (Except.ok.inj eq).symm⟩
        · rintro ⟨-, options', warnings', ignored', eq, eq', rfl⟩
          cases eq
          cases eq'
          rfl
  · rename_i noDirectory
    simp [noDirectory]

/-- The directories of a plan are those of the arguments. -/
theorem directories_of_planned {plan : Plan} (planned : (Command.plan t here a).2 = .ok plan) :
    plan.workspace = Path.join here a.workspace ∧
      plan.outDir = a.outDir.map (Path.join (Path.join here a.workspace)) := by
  obtain ⟨-, options, warnings, ignored, -, -, rfl⟩ := plan_eq_ok_iff.1 planned
  exact ⟨rfl, rfl⟩

/-- The output directory of a plan is relative to the workspace. -/
theorem outDir_of_planned {plan : Plan} (planned : (Command.plan t here a).2 = .ok plan)
    {dir : String} (out : a.outDir = some dir) :
    plan.outDir = some (Path.join (Path.join here a.workspace) dir) := by
  rw [(directories_of_planned planned).2, out]
  rfl

/-- The workspace of a plan is absolute. -/
theorem isAbsolute_workspace (absolute : Path.isAbsolute here = true) {plan : Plan}
    (planned : (Command.plan t here a).2 = .ok plan) : Path.isAbsolute plan.workspace = true := by
  rw [(directories_of_planned planned).1]
  exact Path.isAbsolute_join absolute _

/-- The files of a selection lie below its roots and are wanted. -/
theorem mem_files_of_selection {s : Selection} {path : String} (mem : path ∈ s.files t) :
    ∃ root ∈ s.roots, path ∈ t.filesBelow root ∧ s.wants path = true := by
  obtain ⟨below, wanted⟩ := List.mem_filter.mp (mem_of_mem_sortPaths mem)
  obtain ⟨root, isRoot, below⟩ := List.mem_flatMap.mp below
  exact ⟨root, isRoot, below, wanted⟩

/-- What is wanted has the name of a module. -/
theorem exists_fileName_of_wants {s : Selection} {path : String} (wanted : s.wants path = true) :
    ∃ name, Path.fileName? path = some name ∧ isModuleName name = true := by
  unfold Selection.wants at wanted
  rw [Bool.and_eq_true, Bool.and_eq_true] at wanted
  have isModule := wanted.1.1
  cases named : Path.fileName? path with
  | some name =>
    rw [named] at isModule
    exact ⟨name, rfl, isModule⟩
  | none =>
    rw [named] at isModule
    exact absurd isModule (by decide)

/-- What is wanted does not lie in the output directory, as it is written. -/
theorem startsWith_eq_false_of_wants {s : Selection} {path dir : String}
    (wanted : s.wants path = true) (out : s.outDir = some dir) :
    Path.startsWith path dir = false := by
  unfold Selection.wants at wanted
  rw [out] at wanted
  simp only [Option.any_some, Bool.and_eq_true, Bool.not_eq_true'] at wanted
  exact wanted.1.2

/-- The roots of a run from an absolute directory are absolute. -/
theorem isAbsolute_of_mem_roots (absolute : Path.isAbsolute here = true) {root : String}
    (mem : root ∈ roots here a) : Path.isAbsolute root = true := by
  unfold roots at mem
  split at mem
  · rw [List.mem_singleton.mp mem]
    exact Path.isAbsolute_join absolute _
  · obtain ⟨path, -, rfl⟩ := List.mem_map.mp mem
    exact Path.isAbsolute_join absolute _

/-- Each file of a plan lies below a root, has the name of a module, and does not lie in the output
directory, as it is written. -/
theorem exists_root_of_mem_files {plan : Plan} (planned : (Command.plan t here a).2 = .ok plan)
    {path : String} (mem : path ∈ plan.files) :
    ∃ root ∈ roots here a, path ∈ t.filesBelow root ∧
      (∃ name, Path.fileName? path = some name ∧ isModuleName name = true) ∧
      ∀ dir, plan.outDir = some dir → Path.startsWith path dir = false := by
  obtain ⟨-, options, warnings, ignored, -, -, rfl⟩ := plan_eq_ok_iff.1 planned
  obtain ⟨root, isRoot, below, wanted⟩ := mem_files_of_selection mem
  exact ⟨root, isRoot, below, exists_fileName_of_wants wanted,
    fun dir out => startsWith_eq_false_of_wants wanted out⟩

/-- No path that a run is given goes up, nor does the directory that they are relative to. -/
structure Straight (here : String) (a : Arguments) : Prop where
  start : a.paths ≠ [] → Path.Descends here
  paths : ∀ path ∈ a.paths, Path.Descends path

instance (here : String) (a : Arguments) : Decidable (Straight here a) :=
  decidable_of_iff ((a.paths ≠ [] → Path.Descends here) ∧ ∀ path ∈ a.paths, Path.Descends path)
    ⟨fun ⟨start, paths⟩ => ⟨start, paths⟩, fun ⟨start, paths⟩ => ⟨start, paths⟩⟩

/-- The steps of a file of a plan are those of its root, followed by names. -/
theorem steps_of_mem_files (wf : t.WellFormed) {plan : Plan}
    (planned : (Command.plan t here a).2 = .ok plan) {path : String} (mem : path ∈ plan.files) :
    ∃ root ∈ roots here a, ∃ names : List String,
      Path.steps path = Path.steps root ++ names.map .name := by
  obtain ⟨root, isRoot, below, -⟩ := exists_root_of_mem_files planned mem
  obtain ⟨base, inside, content, -, isFile, rfl⟩ := FileTree.mem_filesBelow_iff.mp below
  have listed : base ++ inside ∈ t.keys :=
    List.mem_map_of_mem (FileTree.mem_files_iff.mp isFile)
  have areNames : ∀ name ∈ inside, Path.IsName name := fun name mem =>
    (wf.named _ listed).2 name (List.mem_append_right _ mem)
  exact ⟨root, isRoot, inside, Path.steps_foldl_join root areNames⟩

/-- The files of a plan are absolute. -/
theorem isAbsolute_of_mem_files (absolute : Path.isAbsolute here = true) {plan : Plan}
    (planned : (Command.plan t here a).2 = .ok plan) {path : String} (mem : path ∈ plan.files) :
    Path.isAbsolute path = true := by
  obtain ⟨root, isRoot, below, -⟩ := exists_root_of_mem_files planned mem
  obtain ⟨base, inside, content, -, -, rfl⟩ := FileTree.mem_filesBelow_iff.mp below
  exact Path.isAbsolute_foldl_join (isAbsolute_of_mem_roots absolute isRoot) inside

/-- The files of a plan are sorted. -/
theorem pairwise_files {plan : Plan} (planned : (Command.plan t here a).2 = .ok plan) :
    plan.files.Pairwise Path.Before := by
  obtain ⟨-, options, warnings, ignored, -, -, rfl⟩ := plan_eq_ok_iff.1 planned
  exact pairwise_sortPaths _

/-! ### The path under which a module is shown -/

/-- A module that lies in the workspace, as its path is written, is shown by the part behind it. -/
theorem shownPath_of_inside {workspace path : String} (absolute : Path.isAbsolute path = true)
    (workspaceAbsolute : Path.isAbsolute workspace = true)
    (lies : Path.startsWith path workspace = true) :
    Path.isAbsolute (shownPath workspace path) = false ∧
      Path.steps path = Path.steps workspace ++ Path.steps (shownPath workspace path) := by
  have first := (Path.startsWith_iff absolute workspaceAbsolute).mp lies
  have behind :=
    mt (Path.stripDirectory?_eq_none_iff absolute workspaceAbsolute).mp (not_not.mpr first)
  obtain ⟨inside, strip⟩ := Option.ne_none_iff_exists'.mp behind
  have shown : shownPath workspace path = inside := by
    unfold shownPath
    rw [strip]
    rfl
  rw [shown]
  exact Path.steps_of_stripDirectory? absolute workspaceAbsolute strip

/-- Any other module is shown by its name. -/
theorem shownPath_of_outside {workspace path name : String} (absolute : Path.isAbsolute path = true)
    (workspaceAbsolute : Path.isAbsolute workspace = true)
    (lies : Path.startsWith path workspace = false) (named : Path.fileName? path = some name) :
    shownPath workspace path = name := by
  have behind : Path.stripDirectory? path workspace = none := by
    rw [Path.stripDirectory?_eq_none_iff absolute workspaceAbsolute,
      ← Path.startsWith_iff absolute workspaceAbsolute, lies]
    exact Bool.false_ne_true
  unfold shownPath
  rw [behind, named]
  rfl

/-- A module with a name is shown by a relative path. -/
theorem isAbsolute_shownPath {workspace path name : String} (absolute : Path.isAbsolute path = true)
    (workspaceAbsolute : Path.isAbsolute workspace = true)
    (named : Path.fileName? path = some name) :
    Path.isAbsolute (shownPath workspace path) = false := by
  cases lies : Path.startsWith path workspace with
  | true => exact (shownPath_of_inside absolute workspaceAbsolute lies).1
  | false =>
    rw [shownPath_of_outside absolute workspaceAbsolute lies named]
    exact (Path.isName_of_fileName? absolute named).isAbsolute_eq_false

/-- A file of a plan is shown by a relative path. -/
theorem isAbsolute_shownPath_of_mem_files (absolute : Path.isAbsolute here = true) {plan : Plan}
    (planned : (Command.plan t here a).2 = .ok plan) {path : String} (mem : path ∈ plan.files) :
    Path.isAbsolute (shownPath plan.workspace path) = false := by
  obtain ⟨-, -, -, ⟨name, named, -⟩, -⟩ := exists_root_of_mem_files planned mem
  exact isAbsolute_shownPath (isAbsolute_of_mem_files absolute planned mem)
    (isAbsolute_workspace absolute planned) named

/-- No file of a plan is shown by a path that goes up. -/
def Plan.Level (plan : Plan) : Prop :=
  ∀ path ∈ plan.files, Path.Descends (shownPath plan.workspace path)

instance (plan : Plan) : Decidable plan.Level := inferInstanceAs (Decidable (∀ _ ∈ _, _))

/-- This is so if no path that the run is given goes up. -/
theorem Straight.level (straight : Straight here a) (wf : t.WellFormed)
    (absolute : Path.isAbsolute here = true) {plan : Plan}
    (planned : (Command.plan t here a).2 = .ok plan) : plan.Level := by
  intro path mem
  have pathAbsolute := isAbsolute_of_mem_files absolute planned mem
  have workspaceAbsolute := isAbsolute_workspace absolute planned
  cases lies : Path.startsWith path plan.workspace with
  | false =>
    obtain ⟨root, -, -, ⟨name, named, -⟩, -⟩ := exists_root_of_mem_files planned mem
    rw [shownPath_of_outside pathAbsolute workspaceAbsolute lies named]
    exact (Path.isName_of_fileName? pathAbsolute named).descends
  | true =>
    obtain ⟨-, behind⟩ := shownPath_of_inside pathAbsolute workspaceAbsolute lies
    obtain ⟨root, isRoot, names, ahead⟩ := steps_of_mem_files wf planned mem
    intro up
    unfold roots at isRoot
    split at isRoot
    · -- The only root is the workspace, behind which there are only names.
      rw [List.mem_singleton.mp isRoot, ← (directories_of_planned planned).1, behind,
        List.append_cancel_left_eq] at ahead
      rw [ahead] at up
      simp at up
    · -- Nothing goes up from the root of the tree to the file.
      obtain ⟨given, isGiven, rfl⟩ := List.mem_map.mp isRoot
      have noUp := Path.descends_join (straight.start (List.ne_nil_of_mem isGiven))
        (straight.paths given isGiven)
      have inPath : Path.Component.up ∈ Path.steps path := by
        rw [behind]
        exact List.mem_append_right _ up
      rw [ahead, List.mem_append] at inPath
      exact inPath.elim noUp (by simp)

/-! ### Delivering -/

/-- The names under which a module that is shown by a path is written. -/
def landing (dir shown : String) : List String := (Path.Normal.ofPath (Path.join dir shown)).names

/-- The names of the output directory, if the arguments name one by this path. -/
def target (here : String) (a : Arguments) (dir : String) : List String :=
  (Path.Normal.ofPath (Path.join (Path.join here a.workspace) dir)).names

/-- A module that is shown by a relative path is written where its route leads. -/
theorem landing_eq (dir : String) {shown : String} (relative : Path.isAbsolute shown = false) :
    landing dir shown = (Path.Route.ofPath shown).landing (Path.Normal.ofPath dir).names := by
  rw [landing, Path.names_join dir relative, Path.foldl_step_eq]

/-- The files that deliver results, with their texts, in order. -/
def outputs (outDir : Option String) (list : List Processed) : List (List String × String) :=
  list.filterMap fun f =>
    match outDir, f.code with
    | some dir, some code => some (landing dir f.shown, code)
    | _, _ => none

/-- Writing a result writes its file, if it has one. -/
theorem writes_of_writeCode {outDir : Option String} {t t' : FileTree} {f : Processed}
    (h : writeCode outDir t f = .ok t') : t.Writes (outputs outDir [f]) t' := by
  unfold writeCode at h
  unfold outputs
  rw [List.filterMap_cons, List.filterMap_nil]
  cases outDir with
  | none =>
    cases h
    exact .done
  | some dir =>
    cases isCode : f.code with
    | none =>
      rw [isCode] at h
      cases h
      exact .done
    | some code =>
      rw [isCode] at h
      dsimp only at h
      split at h
      · rename_i written
        cases h
        exact FileTree.Writes.of_write written
      · cases h

/-- Delivering writes the files of the first results in order: of all of them, unless it fails. -/
theorem exists_writes_of_deliver (a : Arguments) (outDir : Option String) (t : FileTree)
    (list : List Processed) :
    ∃ before after, list = before ++ after ∧
      t.Writes (outputs outDir before) (deliver a outDir t list).tree ∧
      ((deliver a outDir t list).failure = none → after = []) := by
  induction list generalizing t with
  | nil => exact ⟨[], [], rfl, .done, fun _ => rfl⟩
  | cons f rest ih =>
    rw [deliver]
    cases written : writeCode outDir t f with
    | error e => exact ⟨[], f :: rest, rfl, .done, fun h => by cases h⟩
    | ok u =>
      obtain ⟨before, after, rfl, writes, all⟩ := ih u
      refine ⟨f :: before, after, rfl, ?_, all⟩
      have both := (writes_of_writeCode written).trans writes
      have split : outputs outDir (f :: before) = outputs outDir [f] ++ outputs outDir before := by
        unfold outputs
        rw [← List.filterMap_append]
        rfl
      rw [split]
      exact both

/-! ### Running -/

/-- What a run makes of the files of its plan. -/
def processed (wording : Wording) (t : FileTree) (plan : Plan) : List Processed :=
  plan.files.map (process wording t.sources plan)

/-- How a run delivers what it has made. -/
def delivery (wording : Wording) (t : FileTree) (a : Arguments) (plan : Plan) : Delivery :=
  deliver a plan.outDir t (processed wording t plan)

/-- A run is planned, and all that it has made is written. -/
structure Completes (wording : Wording) (t : FileTree) (here : String) (a : Arguments)
    (plan : Plan) : Prop where
  planned : (Command.plan t here a).2 = .ok plan
  written : (delivery wording t a plan).failure = none

/-- Whether a run completes, with a plan of which a property holds. -/
def completesWith (wording : Wording) (t : FileTree) (here : String) (a : Arguments)
    (property : Plan → Bool) : Bool :=
  match (Command.plan t here a).2 with
  | .error _ => false
  | .ok plan => (delivery wording t a plan).failure.isNone && property plan

/-- A run that is found to complete does so. -/
theorem exists_of_completesWith {wording : Wording} {property : Plan → Bool}
    (h : completesWith wording t here a property = true) :
    ∃ plan, Completes wording t here a plan ∧ property plan = true := by
  unfold completesWith at h
  split at h
  · cases h
  · rename_i plan planned
    obtain ⟨written, holds⟩ := Bool.and_eq_true_iff.mp h
    exact ⟨plan, ⟨planned, Option.isNone_iff_eq_none.mp written⟩, holds⟩

/-- Whether a run is planned, with a plan of which a property holds. -/
def plannedWith (t : FileTree) (here : String) (a : Arguments) (property : Plan → Bool) : Bool :=
  match (Command.plan t here a).2 with
  | .error _ => false
  | .ok plan => property plan

/-- A run that is found to be planned is so. -/
theorem exists_of_plannedWith {property : Plan → Bool} (h : plannedWith t here a property = true) :
    ∃ plan, (Command.plan t here a).2 = .ok plan ∧ property plan = true := by
  unfold plannedWith at h
  split at h
  · cases h
  · rename_i plan planned
    exact ⟨plan, planned, h⟩

/-- A run leaves the tree as its delivery does. -/
theorem tree_runWith {wording : Wording} {plan : Plan}
    (planned : (Command.plan t here a).2 = .ok plan) :
    (runWith wording t here a).tree = (delivery wording t a plan).tree := by
  unfold runWith
  dsimp only
  rw [planned]
  dsimp only
  show _ = (deliver a plan.outDir t (plan.files.map (process wording t.sources plan))).tree
  split <;> rfl

/-- A run that cannot be planned leaves the tree alone. -/
theorem tree_runWith_of_error {wording : Wording} {e : Failure}
    (failed : (Command.plan t here a).2 = .error e) : (runWith wording t here a).tree = t := by
  unfold runWith
  dsimp only
  rw [failed]

/-- A run that completes ends as its files say, and prints what it delivers and concludes. -/
theorem runWith_of_completes {wording : Wording} {plan : Plan}
    (completes : Completes wording t here a plan) :
    (runWith wording t here a).exitCode
        = (if (Summary.ofProcessed (processed wording t plan)).failed a.failOnWarnings then 1
          else 0)
      ∧ (runWith wording t here a).printed
        = (delivery wording t a plan).printed ++ conclusion a (processed wording t plan) := by
  have complete := completes.written
  unfold delivery processed at complete
  unfold runWith
  dsimp only
  rw [completes.planned]
  dsimp only
  rw [complete]
  exact ⟨rfl, rfl⟩

/-- A file is shown by its path, and its code is that of the module that is loaded from it. -/
theorem process_shown (wording : Wording) (sources : Sources) (plan : Plan) (path : String) :
    (process wording sources plan path).shown = shownPath plan.workspace path := by
  unfold process
  dsimp only
  split <;> rfl

/-- What comes of a file that is transformed. -/
theorem process_of_transformFile (wording : Wording) {sources : Sources} {plan : Plan}
    {path : String} {p : Program} {x : Transformed}
    (transformed : transformFile sources plan.options path = .ok (p, x)) :
    process wording sources plan path =
      { shown := shownPath plan.workspace path
        reports := x.diagnostics.map (Report.ofDiagnostic p)
        code := some x.code
        components := x.components.length
        missing := p.failures } := by
  unfold process
  rw [transformed]

/-- A file that cannot be loaded is reported and nothing else. -/
theorem process_of_load_error (wording : Wording) {sources : Sources} (plan : Plan) {path : String}
    {e : LoadError} (failed : Program.load sources path = .error e) :
    process wording sources plan path =
      { shown := shownPath plan.workspace path
        reports := [Report.ofLoadError wording e]
        code := none
        components := 0
        missing := [] } := by
  unfold process
  rw [Program.transformFile_eq_error failed]

/-- What a run writes: each file is that of a module that has been processed. -/
theorem exists_path_of_mem_outputs {wording : Wording} {plan : Plan} {dir : String}
    (out : plan.outDir = some dir) {file : List String × String}
    (mem : file ∈ outputs plan.outDir (processed wording t plan)) :
    ∃ path ∈ plan.files, (process wording t.sources plan path).code = some file.2 ∧
      file.1 = landing dir (shownPath plan.workspace path) := by
  obtain ⟨f, inside, eq⟩ := List.mem_filterMap.mp mem
  obtain ⟨path, isFile, rfl⟩ := List.mem_map.mp inside
  rw [out] at eq
  split at eq
  · rename_i dir' code same isCode
    cases same
    obtain rfl := Option.some.inj eq
    exact ⟨path, isFile, isCode, by rw [process_shown]⟩
  · cases eq

/-- What a run has done to the tree: it has written files of modules that it has processed. -/
theorem exists_writes_of_run (wording : Wording) (t : FileTree) (here : String) (a : Arguments) :
    ∃ written, t.Writes written (runWith wording t here a).tree ∧
      ∀ file ∈ written, ∃ plan dir, (Command.plan t here a).2 = .ok plan ∧ plan.outDir = some dir ∧
        ∃ path ∈ plan.files, (process wording t.sources plan path).code = some file.2 ∧
          file.1 = landing dir (shownPath plan.workspace path) := by
  cases planned : (Command.plan t here a).2 with
  | error e =>
    rw [tree_runWith_of_error planned]
    exact ⟨[], .done, fun file mem => absurd mem List.not_mem_nil⟩
  | ok plan =>
    obtain ⟨before, after, all, writes, -⟩ :=
      exists_writes_of_deliver a plan.outDir t (processed wording t plan)
    rw [tree_runWith planned]
    refine ⟨_, writes, fun file mem => ?_⟩
    cases out : plan.outDir with
    | none =>
      obtain ⟨f, -, eq⟩ := List.mem_filterMap.mp mem
      rw [out] at eq
      cases eq
    | some dir =>
      -- What is written is the front part of what there is to write.
      have inAll : file ∈ outputs plan.outDir (processed wording t plan) := by
        rw [all]
        unfold outputs at mem ⊢
        rw [List.filterMap_append]
        exact List.mem_append_left _ mem
      exact ⟨plan, dir, rfl, out, exists_path_of_mem_outputs out inAll⟩

end Command

end TypedProps
