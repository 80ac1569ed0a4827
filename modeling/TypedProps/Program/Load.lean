import TypedProps.Program.Basic
import TypedProps.Sources

/-!
# `TypedProps.Program.Load`: from an entry module to a program

Loading explores the files in breadth: the entry first, then, module by module, what each one
imports and re-exports, in source order. A file is tried once. The files that have not been tried
yet are kept, and each step takes those it discovers away from them, so cycles need no special care
and the exploration ends.
-/

set_option autoImplicit false

namespace TypedProps

/-- A module that has been read, before it is known where its specifiers lead. -/
structure ReadModule where
  path : String
  text : String
  items : List Item
deriving Inhabited

namespace ReadModule

/-- The specifier that an item loads, if it is an import or a re-export. -/
def specifier? (item : Item) : Option String :=
  match item.form with
  | .importDecl _ _ source => some source
  | .exportList _ _ source => source
  | .exportAll _ source | .exportAllAs _ _ source => some source
  | _ => none

/-- The distinct specifiers of a module in source order. -/
def specifiers (m : ReadModule) : List String := (m.items.filterMap specifier?).eraseDups

/-- Reads the module under a normal path. Files named `.tsx` may hold markup. -/
def read (sources : Sources) (path : String) : Except LoadError ReadModule :=
  match sources.read? path with
  | none => .error (.unreadable path)
  | some text =>
    let script := scriptOf text
    match Grammar.parseModule (Path.extension? path == some "tsx") script with
    | .ok items => .ok ⟨path, text, items⟩
    | .error e => .error (.malformed path (Position.ofOffset script e.offset))

/-- The paths that the specifiers of a module lead to, in source order. -/
def dependencies (sources : Sources) (m : ReadModule) : List String :=
  m.specifiers.filterMap (Specifier.resolve? sources m.path)

end ReadModule

namespace Program

/-- What an exploration has found: modules and failures, each in order of discovery. -/
structure Exploration where
  modules : List ReadModule
  failures : List LoadError
deriving Inhabited

/-- Tries files; answers with those that are modules and those that fail. -/
def readAll (sources : Sources) : List String → Exploration
  | [] => ⟨[], []⟩
  | path :: rest =>
    let found := readAll sources rest
    match ReadModule.read sources path with
    | .ok m => ⟨m :: found.modules, found.failures⟩
    | .error e => ⟨found.modules, e :: found.failures⟩

theorem length_readAll_le (sources : Sources) (paths : List String) :
    (readAll sources paths).modules.length ≤ paths.length := by
  induction paths with
  | nil => simp [readAll]
  | cons path rest ih =>
    simp only [readAll]
    split <;> simp <;> omega

/-- The paths among `wanted` that have not been tried, each once, and those that then remain. -/
def take (untried : List String) : List String → List String × List String
  | [] => ([], untried)
  | path :: wanted =>
    if path ∈ untried then
      let (taken, left) := take (untried.erase path) wanted
      (path :: taken, left)
    else take untried wanted

theorem length_take (untried wanted : List String) :
    (take untried wanted).1.length + (take untried wanted).2.length = untried.length := by
  induction wanted generalizing untried with
  | nil => simp [take]
  | cons path wanted ih =>
    by_cases h : path ∈ untried
    · have := List.length_erase_of_mem h
      have := List.length_pos_of_mem h
      have := ih (untried.erase path)
      simp only [take, h, if_true, List.length_cons]
      omega
    · simp only [take, h, if_false]
      exact ih untried

/-- Explores what the modules of a queue depend on. The modules of the queue are part of what is
found. -/
def explore (sources : Sources) (untried : List String) (queue : List ReadModule) : Exploration :=
  match queue with
  | [] => ⟨[], []⟩
  | m :: waiting =>
    let next := take untried (m.dependencies sources)
    let found := readAll sources next.1
    let others := explore sources next.2 (waiting ++ found.modules)
    ⟨m :: others.modules, found.failures ++ others.failures⟩
termination_by untried.length + queue.length
decreasing_by
  have := length_take untried (m.dependencies sources)
  have := length_readAll_le sources (take untried (m.dependencies sources)).1
  simp only [List.length_append, List.length_cons]
  omega

/-- Numbers the modules that an exploration has found and connects their specifiers. -/
def connect (sources : Sources) (found : Exploration) : Program where
  modules := found.modules.map fun m =>
    { path := m.path
      text := m.text
      items := m.items
      targets := m.specifiers.map fun specifier =>
        (specifier, (Specifier.resolve? sources m.path specifier).bind fun path =>
          found.modules.findIdx? (·.path == path)) }
  failures := found.failures

/-- Loads an entry module and all it depends on. Only the entry itself has to be readable. -/
def load (sources : Sources) (entry : String) : Except LoadError Program :=
  let path := Path.normalize entry
  match ReadModule.read sources path with
  | .error e => .error e
  | .ok m => .ok (connect sources (explore sources (sources.paths.erase path) [m]))

end Program

end TypedProps
