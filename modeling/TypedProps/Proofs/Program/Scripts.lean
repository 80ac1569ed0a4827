import Mathlib.Data.List.Forall2
import TypedProps.Proofs.Program.Loading

/-!
# `TypedProps.Proofs.Program.Scripts`: loading by evaluation

Whether small files are loaded as they should be is found out by evaluation (`Program.loadsWith`).
Most of the steps of that go into decoding: a text is an array of bytes. But a text that is written
out is written with characters (`SpelledOut`). `Scripts.load` reads these, without any decoding, and
loads what `Program.load` loads from the texts (`Scripts.load_sources`).
-/

set_option autoImplicit false

namespace TypedProps

/-! ### Texts that are written out -/

/-- `SpelledOut text script`: the text is written out with the characters of `script`. -/
inductive SpelledOut : String → List Char → Prop
  | append {a b : String} {left right : List Char} : SpelledOut a left → SpelledOut b right →
      SpelledOut (a ++ b) (left ++ right)
  | literal (script : List Char) : SpelledOut (String.ofList script) script

theorem SpelledOut.eq_ofList {text : String} {script : List Char}
    (spelled : SpelledOut text script) : text = String.ofList script := by
  induction spelled with
  | append _ _ ih ih' => rw [ih, ih', String.ofList_append]
  | literal => rfl

/-- `Written file script`: the file has the path of `script`, and its text, if it is text at all, is
written out with the characters that are there. -/
inductive Written : String × Content → String × Option (List Char) → Prop
  | text {path text : String} {script : List Char} : SpelledOut text script →
      Written (path, .text text) (path, some script)
  | binary {path : String} : Written (path, .binary) (path, none)

/-- What a file with these characters holds. -/
def Content.ofScript : Option (List Char) → Content
  | some script => .text (String.ofList script)
  | none => .binary

theorem Written.eq {file : String × Content} {script : String × Option (List Char)}
    (isWritten : Written file script) : file = (script.1, .ofScript script.2) := by
  cases isWritten with
  | text spelled =>
    rw [spelled.eq_ofList]
    rfl
  | binary => rfl

/-- Files that are written out are those with the characters. -/
theorem eq_map_of_written {files : List (String × Content)}
    {scripts : List (String × Option (List Char))}
    (areWritten : List.Forall₂ Written files scripts) :
    files = scripts.map fun script => (script.1, .ofScript script.2) := by
  induction areWritten with
  | nil => rfl
  | cons isWritten _ ih => rw [List.map_cons, isWritten.eq, ih]

/-! ### Scripts under paths -/

/-- The characters of files under the normal forms of their paths. -/
structure Scripts where
  entries : List (String × Option (List Char))

namespace Scripts

/-- The files. -/
def sources (s : Scripts) : Sources :=
  ⟨s.entries.map fun entry => (entry.1, .ofScript entry.2)⟩

/-- Adds a file, or replaces it. -/
def insert (s : Scripts) (path : String) (script : Option (List Char)) : Scripts :=
  ⟨Keyed.put (Path.normalize path) script s.entries⟩

/-- Adds files in order. -/
def ofList (files : List (String × Option (List Char))) : Scripts :=
  files.foldl (fun s file => s.insert file.1 file.2) ⟨[]⟩

theorem sources_insert (s : Scripts) (path : String) (script : Option (List Char)) :
    (s.insert path script).sources = s.sources.insert path (.ofScript script) := by
  obtain ⟨entries⟩ := s
  refine congrArg Sources.mk ?_
  show (Keyed.put _ _ entries).map _ = Keyed.put _ _ (entries.map _)
  induction entries with
  | nil => rfl
  | cons entry rest ih =>
    rw [List.map_cons, Keyed.put, Keyed.put, ← ih]
    split <;> rfl

theorem sources_ofList (files : List (String × Option (List Char))) :
    (ofList files).sources = .ofList (files.map fun file => (file.1, .ofScript file.2)) := by
  show _ = List.foldl _ (sources ⟨[]⟩) _
  unfold ofList
  generalize (⟨[]⟩ : Scripts) = s
  induction files generalizing s with
  | nil => rfl
  | cons file rest ih =>
    rw [List.map_cons, List.foldl_cons, List.foldl_cons, ih, sources_insert]

/-- The script under a path. -/
def read? (s : Scripts) (path : String) : Option (List Char) :=
  (s.entries.lookup (Path.normalize path)).join

theorem read?_sources (s : Scripts) (path : String) :
    s.sources.read? path = (s.read? path).map String.ofList := by
  obtain ⟨entries⟩ := s
  unfold Sources.read? Sources.file? sources read?
  dsimp only
  induction entries with
  | nil => rfl
  | cons entry rest ih =>
    rw [List.map_cons, List.lookup_cons, List.lookup_cons]
    cases Path.normalize path == entry.1 with
    | true => cases entry.2 <;> rfl
    | false => exact ih

/-! ### Loading -/

/-- A script without the byte order mark that may stand in front of it. -/
def unmarked : List Char → List Char
  | c :: rest => if c.toNat == 0xFEFF then rest else c :: rest
  | [] => []

theorem scriptOf_ofList (script : List Char) :
    scriptOf (String.ofList script) = unmarked script := by
  rw [scriptOf, String.toList_ofList]
  rfl

/-- Reads the module under a normal path. -/
def read (s : Scripts) (path : String) : Except LoadError ReadModule :=
  match s.read? path with
  | none => .error (.unreadable path)
  | some written =>
    let script := unmarked written
    match Grammar.parseModule (Path.extension? path == some "tsx") script with
    | .ok items => .ok ⟨path, String.ofList written, items⟩
    | .error e => .error (.malformed path (Position.ofOffset script e.offset))

theorem read_sources (s : Scripts) (path : String) :
    ReadModule.read s.sources path = s.read path := by
  rw [ReadModule.read, read?_sources, read]
  cases s.read? path with
  | none => rfl
  | some written =>
    dsimp only [Option.map_some]
    rewrite [scriptOf_ofList]
    rfl

/-- Tries files. -/
def readAll (s : Scripts) : List String → Program.Exploration
  | [] => ⟨[], []⟩
  | path :: rest =>
    let found := readAll s rest
    match s.read path with
    | .ok m => ⟨m :: found.modules, found.failures⟩
    | .error e => ⟨found.modules, e :: found.failures⟩

theorem readAll_sources (s : Scripts) (paths : List String) :
    Program.readAll s.sources paths = s.readAll paths := by
  induction paths with
  | nil => rfl
  | cons path rest ih =>
    rw [Program.readAll, ih, read_sources]
    rfl

/-- Explores what the modules of a queue depend on. -/
def explore (s : Scripts) (untried : List String) (queue : List ReadModule) : Program.Exploration :=
  match queue with
  | [] => ⟨[], []⟩
  | m :: waiting =>
    let next := Program.take untried (m.dependencies s.sources)
    let found := s.readAll next.1
    let others := explore s next.2 (waiting ++ found.modules)
    ⟨m :: others.modules, found.failures ++ others.failures⟩
termination_by untried.length + queue.length
decreasing_by
  have := Program.length_take untried (m.dependencies s.sources)
  have := Program.length_readAll_le s.sources (Program.take untried (m.dependencies s.sources)).1
  rw [readAll_sources] at this
  simp only [List.length_append, List.length_cons]
  omega

theorem explore_sources (s : Scripts) (untried : List String) (queue : List ReadModule) :
    Program.explore s.sources untried queue = s.explore untried queue := by
  induction untried, queue using explore.induct s with
  | case1 => rw [Program.explore, explore]
  | case2 untried m waiting next found ih =>
    rw [Program.explore, explore, readAll_sources, ih]

/-- Loads an entry module and all it depends on. -/
def load (s : Scripts) (entry : String) : Except LoadError Program :=
  let path := Path.normalize entry
  match s.read path with
  | .error e => .error e
  | .ok m => .ok (Program.connect s.sources (s.explore (s.sources.paths.erase path) [m]))

/-- The characters and the texts make the same program. -/
theorem load_sources (s : Scripts) (entry : String) :
    Program.load s.sources entry = s.load entry := by
  rw [Program.load, read_sources, load]
  cases s.read (Path.normalize entry) with
  | error e => rfl
  | ok m =>
    dsimp only
    rw [explore_sources]

/-- Whether a file can be loaded and its program passes a test. -/
def loadsWith (s : Scripts) (entry : String) (test : Program → Bool) : Bool :=
  match s.load entry with
  | .ok p => test p
  | .error _ => false

theorem loadsWith_sources (s : Scripts) (entry : String) (test : Program → Bool) :
    Program.loadsWith s.sources entry test = s.loadsWith entry test := by
  rw [Program.loadsWith, load_sources]
  rfl

end Scripts

namespace Program

variable {files : List (String × Content)} {scripts : List (String × Option (List Char))}
  {entry : String} {test : Program → Bool}

/-- Files are loaded if their characters are. The characters of files that are written out are found
by `repeat constructor`. -/
theorem loadsWith_of_written (areWritten : List.Forall₂ Written files scripts)
    (loads : (Scripts.ofList scripts).loadsWith entry test = true) :
    loadsWith (.ofList files) entry test = true := by
  rw [eq_map_of_written areWritten, ← Scripts.sources_ofList, Scripts.loadsWith_sources]
  exact loads

/-- So are files that stand under normal paths already. -/
theorem loadsWith_of_written_entries (areWritten : List.Forall₂ Written files scripts)
    (loads : (Scripts.mk scripts).loadsWith entry test = true) :
    loadsWith ⟨files⟩ entry test = true := by
  rw [eq_map_of_written areWritten]
  exact (Scripts.loadsWith_sources ⟨scripts⟩ entry test).trans loads

end Program

end TypedProps
