import TypedProps.Command.Arguments
import TypedProps.Command.Report
import TypedProps.Command.Selection
import TypedProps.Options.Json
import TypedProps.Transform

/-!
# `TypedProps.Command.Run`: a run over a file tree

`run` answers a command line given in a directory of a file tree: with an exit code, with what is
printed, and with the tree as it is afterwards. A run is first planned, which settles the options
and the files; then every file is processed on its own, against the tree as it was; then the results
are printed and written one after the other, up to the first one that cannot be written.
-/

set_option autoImplicit false

namespace TypedProps.Command

/-- What keeps a run from going on, or is only warned about. -/
inductive Failure where
  | invalidWorkspace (path : String)
  | unreadableOptions (path : String) (error : FileError)
  | malformedOptions (path : String) (error : Json.ReadError)
  | invalidPattern (error : Glob.ReadError)
  | unwritable (path : String) (error : FileError)
deriving DecidableEq, Repr, Inhabited

/-- What is said about a failure. -/
def Failure.message (wording : Wording) : Failure → String
  | .invalidWorkspace path => s!"invalid workspace: {path}"
  | .unreadableOptions path error => s!"failed to read {path}: {error.message}"
  | .malformedOptions path error => s!"failed to parse {path}: {wording.options error}"
  | .invalidPattern error => s!"invalid glob pattern: {wording.pattern error}"
  | .unwritable path error => s!"failed to write {path}: {error.message}"

/-! ### Planning -/

/-- The name of the options file that a workspace may have. -/
def optionsFileName : String := "auto-props.config.json"

/-- Reads an options file. -/
def readOptions (t : FileTree) (path : String) : Except Failure Options :=
  match t.readText path with
  | .error e => .error (.unreadableOptions path e)
  | .ok text =>
    match Options.ofJson text with
    | .error e => .error (.malformedOptions path e)
    | .ok options => .ok options

/-- The options of the files of a run. An options file that is asked for has to be in order; one
that the workspace happens to have is passed over with a warning if it is not. -/
def fileOptions (t : FileTree) (workspace : String) (a : Arguments) :
    Except Failure (Options × List Failure) :=
  match a.config with
  | some path => (readOptions t (Path.join workspace path)).map (·, [])
  | none =>
    let path := Path.join workspace optionsFileName
    if t.contains path then
      match readOptions t path with
      | .ok options => .ok (options, [])
      | .error e => .ok (Options.standard, [e])
    else .ok (Options.standard, [])

/-- Lets the arguments of a command line override options. -/
def override (a : Arguments) (options : Options) : Options :=
  { options with
    hideWarnings := a.hideWarnings || options.hideWarnings
    docMode := a.docMode.getD options.docMode }

/-- What no run processes. -/
def standardIgnored : List String := ["**/node_modules/**", "**/dist/**"]

/-- What a run is about to do. -/
structure Plan where
  workspace : String
  options : Options
  /-- The directory to write to. -/
  outDir : Option String
  /-- The files to process, in order. -/
  files : List String
deriving Inhabited

/-- Plans a run from the directory `here`: the warnings on the way, and the plan or the failure that
prevents it. -/
def plan (t : FileTree) (here : String) (a : Arguments) : List Failure × Except Failure Plan :=
  let workspace := Path.join here a.workspace
  if t.isDirectory workspace then
    match fileOptions t workspace a with
    | .error e => ([], .error e)
    | .ok (options, warnings) =>
      match (a.ignore ++ standardIgnored).mapM Glob.ofText with
      | .error e => (warnings, .error (.invalidPattern e))
      | .ok ignored =>
        let outDir := a.outDir.map (Path.join workspace)
        let roots := if a.paths.isEmpty then [workspace] else a.paths.map (Path.join here)
        (warnings, .ok {
          workspace
          options := override a options
          outDir
          files := Selection.files { roots, workspace, outDir, ignored } t })
  else ([], .error (.invalidWorkspace workspace))

/-! ### Processing -/

/-- What has come of a file. -/
structure Processed where
  /-- The path of the file in reports and in the output directory. -/
  shown : String
  reports : List Report
  /-- The transformed module, unless the file could not be loaded. -/
  code : Option String
  components : Nat
  /-- The modules that the file depends on and that could not be loaded. -/
  missing : List LoadError
deriving Inhabited

/-- The path of a file relative to the workspace, or its name if it lies elsewhere. -/
def shownPath (workspace path : String) : String :=
  (Path.stripDirectory? path workspace).getD ((Path.fileName? path).getD path)

/-- Processes a file. -/
def process (wording : Wording) (sources : Sources) (plan : Plan) (path : String) : Processed :=
  let shown := shownPath plan.workspace path
  match transformFile sources plan.options path with
  | .ok (p, m) =>
    { shown
      reports := m.diagnostics.map (Report.ofDiagnostic p)
      code := some m.code
      components := m.components.length
      missing := p.failures }
  | .error e =>
    { shown
      reports := [Report.ofLoadError wording e]
      code := none
      components := 0
      missing := [] }

/-- What some files amount to. -/
def Summary.ofProcessed (list : List Processed) : Summary :=
  let reports := list.flatMap (·.reports)
  { files := list.length
    components := list.foldl (fun n f => n + f.components) 0
    errors := reports.countP (·.severity == .error)
    warnings := reports.countP (·.severity == .warning) }

/-! ### Delivering -/

/-- What a delivery leaves behind. -/
structure Delivery where
  tree : FileTree
  printed : String
  failure : Option Failure
deriving Inhabited

/-- The transformed module as it is printed. -/
def emitted (a : Arguments) (f : Processed) : String :=
  match a.emit, f.code with
  | true, some code => s!"=== {f.shown} ===\n{code}\n"
  | _, _ => ""

/-- The reports of a file as they are printed along the way. -/
def reported (a : Arguments) (f : Processed) : String :=
  match a.format with
  | .human => String.join (f.reports.map (Report.text f.shown))
  | .json => ""

/-- The path that a transformed module is written to. -/
def destination (outDir : String) (f : Processed) : String := Path.join outDir f.shown

/-- Writes a transformed module, if there is one and a directory for it. -/
def writeCode (outDir : Option String) (t : FileTree) (f : Processed) : Except Failure FileTree :=
  match outDir, f.code with
  | some dir, some code =>
    match t.write (destination dir f) code with
    | .ok t => .ok t
    | .error e => .error (.unwritable (destination dir f) e)
  | _, _ => .ok t

/-- Prints and writes what has come of some files. -/
def deliver (a : Arguments) (outDir : Option String) (t : FileTree) : List Processed → Delivery
  | [] => ⟨t, "", none⟩
  | f :: rest =>
    match writeCode outDir t f with
    | .error e => ⟨t, emitted a f, some e⟩
    | .ok t =>
      let later := deliver a outDir t rest
      { later with printed := emitted a f ++ reported a f ++ later.printed }

/-- What is printed at the end of a run. -/
def conclusion (a : Arguments) (list : List Processed) : String :=
  match a.format with
  | .human => (Summary.ofProcessed list).text ++ "\n"
  | .json => Report.jsonAll (list.flatMap fun f => f.reports.map (f.shown, ·)) ++ "\n"

/-! ### Running -/

/-- How a run ends. -/
structure Outcome where
  exitCode : Nat
  printed : String
  /-- The lines of the error output. -/
  complaints : List String
  tree : FileTree
deriving Inhabited

/-- A failure as a line of the error output. -/
def errorLine (wording : Wording) (failure : Failure) : String :=
  s!"Error: {failure.message wording}"

/-- A failure that is only warned about, as a line of the error output. -/
def warningLine (wording : Wording) (failure : Failure) : String :=
  s!"Warning: {failure.message wording}"

/-- Runs with given arguments. -/
def runWith (wording : Wording) (t : FileTree) (here : String) (a : Arguments) : Outcome :=
  let planned := plan t here a
  let warnings := planned.1.map (warningLine wording)
  match planned.2 with
  | .error e => ⟨1, "", warnings ++ [errorLine wording e], t⟩
  | .ok plan =>
    let list := plan.files.map (process wording t.sources plan)
    let complaints := warnings
      ++ (list.flatMap (·.missing)).map fun e => s!"Warning: {dependencyMessage wording e}"
    let delivery := deliver a plan.outDir t list
    match delivery.failure with
    | some e => ⟨1, delivery.printed, complaints ++ [errorLine wording e], delivery.tree⟩
    | none =>
      let failed := (Summary.ofProcessed list).failed a.failOnWarnings
      ⟨if failed then 1 else 0, delivery.printed ++ conclusion a list, complaints, delivery.tree⟩

/-- What is printed when the version is asked for. -/
def versionText : String := "vue-auto-props 0.3.1\n"

/-- Runs a command line from the directory `here`. A command line with a mistake does nothing. -/
def run (wording : Wording) (t : FileTree) (here : String) (list : List String) : Outcome :=
  match Request.ofArguments list with
  | .error _ => ⟨2, "", [], t⟩
  | .ok .version => ⟨0, versionText, [], t⟩
  | .ok (.run a) => runWith wording t here a

/-! ### What a run looks at -/

/-- The paths that arguments name, and the directory they are relative to. -/
def namedPaths (here : String) (a : Arguments) : List String :=
  let workspace := Path.join here a.workspace
  [here, workspace, Path.join workspace (a.config.getD optionsFileName)]
    ++ (a.outDir.map (Path.join workspace)).toList ++ a.paths.map (Path.join here)

/-- The paths at which the imports of a program look for modules. -/
def importedPaths (p : Program) : List String :=
  p.modules.flatMap fun m =>
    (m.targets.filter fun target => Specifier.isLocal target.1).flatMap fun target =>
      Specifier.candidates (Specifier.base m.path target.1)

/-- The paths at which a run looks for modules without finding them in the tree. -/
def missingPaths (t : FileTree) (here : String) (a : Arguments) : List String :=
  match (plan t here a).2 with
  | .error _ => []
  | .ok plan =>
    let wanted := plan.files.flatMap fun path =>
      match Program.load t.sources path with
      | .ok p => importedPaths p
      | .error _ => []
    wanted.filter (!t.contains ·)

end TypedProps.Command
