import TypedProps.Sources

/-!
# `TypedProps.FileTree`: directories and files

A file tree holds files and directories under the names that lead to them from the root. Paths are
followed name by name, so `..` steps back from the directory that has really been reached, and a
step out of a file fails. There are no links.
-/

set_option autoImplicit false

namespace TypedProps

/-- Why an access fails. -/
inductive FileError where
  | notFound
  | alreadyExists
  | notDirectory
  | isDirectory
  /-- The file does not hold text. -/
  | notText
deriving DecidableEq, Repr, Inhabited

/-- What is said about an access that fails. -/
def FileError.message : FileError → String
  | .notFound => "No such file or directory (os error 2)"
  | .alreadyExists => "File exists (os error 17)"
  | .notDirectory => "Not a directory (os error 20)"
  | .isDirectory => "Is a directory (os error 21)"
  | .notText => "stream did not contain valid UTF-8"

/-- What stands under some names. -/
inductive Entry where
  | directory
  | file (content : Content)
deriving DecidableEq, Repr, Inhabited

/-- Directories and files under the names that lead to them. The root itself is a directory without
being listed. -/
structure FileTree where
  entries : List (List String × Entry)
deriving DecidableEq, Repr, Inhabited

namespace FileTree

/-- The tree of an empty root. -/
def empty : FileTree := ⟨[]⟩

/-- What stands under some names. -/
def entry? (t : FileTree) (names : List String) : Option Entry :=
  if names.isEmpty then some .directory else t.entries.lookup names

/-- Puts something under some names. -/
def put (t : FileTree) (names : List String) (entry : Entry) : FileTree :=
  ⟨Keyed.put names entry t.entries⟩

/-- Whether names lead to a directory. -/
def isDirectoryAt (t : FileTree) (names : List String) : Bool := t.entry? names == some .directory

/-! ### Following paths -/

/-- Takes a step from what stands under some names. -/
def step (t : FileTree) (names : List String) (segment : String) :
    Except FileError (List String) :=
  match t.entry? names with
  | none => .error .notFound
  | some (.file _) => .error .notDirectory
  | some .directory =>
    if segment == "" || segment == "." then .ok names
    else if segment == ".." then .ok names.dropLast
    else if (t.entry? (names ++ [segment])).isSome then .ok (names ++ [segment])
    else .error .notFound

/-- Follows segments from the root. -/
def follow (t : FileTree) (segments : List String) : Except FileError (List String) :=
  segments.foldlM t.step []

/-- The names that a path leads to. -/
def resolve (t : FileTree) (path : String) : Except FileError (List String) :=
  t.follow (Path.segments path)

/-- What a path leads to. -/
def entryAt? (t : FileTree) (path : String) : Option Entry :=
  match t.resolve path with
  | .ok names => t.entry? names
  | .error _ => none

/-- Whether a path leads to anything. -/
def contains (t : FileTree) (path : String) : Bool := (t.entryAt? path).isSome

/-- Whether a path leads to a directory. -/
def isDirectory (t : FileTree) (path : String) : Bool := t.entryAt? path == some .directory

/-- The text of the file that a path leads to. -/
def readText (t : FileTree) (path : String) : Except FileError String := do
  match t.entry? (← t.resolve path) with
  | some (.file (.text text)) => pure text
  | some (.file .binary) => throw .notText
  | some .directory => throw .isDirectory
  | none => throw .notFound

/-! ### All files -/

/-- All files with the names that lead to them. -/
def files (t : FileTree) : List (List String × Content) :=
  t.entries.filterMap fun (names, entry) =>
    match entry with
    | .file content => some (names, content)
    | .directory => none

/-- The names that lead from the end of one path to another, if the other one lies below. -/
def namesBelow : List String → List String → Option (List String)
  | [], names => some names
  | _ :: _, [] => none
  | a :: as, b :: bs => if a == b then namesBelow as bs else none

/-- The paths of the files below a path, as continuations of it. A path to a file is the path of
that file, and one that leads nowhere has no files. -/
def filesBelow (t : FileTree) (path : String) : List String :=
  match t.resolve path with
  | .error _ => []
  | .ok base =>
    t.files.filterMap fun (names, _) =>
      (namesBelow base names).map fun inside => inside.foldl Path.join path

/-- The path of names from the root. -/
def pathOf (names : List String) : String := "/" ++ "/".intercalate names

/-- All files as sources of programs. -/
def sources (t : FileTree) : Sources := ⟨t.files.map fun (names, content) => (pathOf names, content)⟩

/-! ### Changing a tree -/

/-- The steps of a path, those that stay where they are left out. -/
def stepsOf (path : String) : List String :=
  (Path.segments path).filter fun segment => segment != "" && segment != "."

/-- Makes one directory. All but the last of the steps have to lead to a directory. -/
def makeDirectory (t : FileTree) (steps : List String) : Except FileError FileTree := do
  let base ← t.follow steps.dropLast
  match t.entry? base, steps.getLast? with
  | some (.file _), _ => throw .notDirectory
  | _, none | _, some ".." => throw .alreadyExists
  | _, some name =>
    let names := base ++ [name]
    if (t.entry? names).isSome then throw .alreadyExists else pure (t.put names .directory)

/-- Whether steps lead to a directory. -/
def isDirectoryAfter (t : FileTree) (steps : List String) : Bool :=
  match t.follow steps with
  | .ok names => t.isDirectoryAt names
  | .error _ => false

/-- Makes a directory and those it lies in, as far as they are missing. The steps come last one
first. -/
def makeDirectories (t : FileTree) : List String → Except FileError FileTree
  | [] => .ok t
  | last :: before =>
    let steps := (last :: before).reverse
    let orExisting (t : FileTree) (e : FileError) : Except FileError FileTree :=
      if t.isDirectoryAfter steps then .ok t else .error e
    match t.makeDirectory steps with
    | .ok made => .ok made
    | .error .notFound => do
      let t ← makeDirectories t before
      match t.makeDirectory steps with
      | .ok made => .ok made
      | .error e => orExisting t e
    | .error e => orExisting t e

/-- Writes a file under some steps, in a directory that exists. -/
def writeFile (t : FileTree) (steps : List String) (text : String) : Except FileError FileTree := do
  let base ← t.follow steps.dropLast
  match t.entry? base, steps.getLast? with
  | some (.file _), _ => throw .notDirectory
  | _, none | _, some ".." => throw .isDirectory
  | _, some name =>
    let names := base ++ [name]
    if t.isDirectoryAt names then throw .isDirectory
    else pure (t.put names (.file (.text text)))

/-- Writes a file, and makes the directories that it lies in as far as they are missing. -/
def write (t : FileTree) (path text : String) : Except FileError FileTree := do
  let steps := stepsOf path
  let t ← t.makeDirectories steps.dropLast.reverse
  t.writeFile steps text

/-- Adds a file or a directory, and the directories it lies in; what stands in the way is replaced. -/
def add (t : FileTree) (path : String) (entry : Entry) : FileTree :=
  let names := (Path.Normal.ofPath path).names
  let dirs := (List.range names.length).tail.map names.take
  let base := dirs.foldl (fun t dir => if t.isDirectoryAt dir then t else t.put dir .directory) t
  if names.isEmpty then base else base.put names entry

/-- The tree of a list of files and directories. -/
def ofList (list : List (String × Entry)) : FileTree :=
  list.foldl (fun t item => t.add item.1 item.2) empty

/-- The texts of the files that are new or changed in a tree. -/
def changes (before after : FileTree) : List (List String × String) :=
  after.files.filterMap fun (names, content) =>
    match content with
    | .text text => if before.entry? names == some (.file content) then none else some (names, text)
    | .binary => none

end FileTree

end TypedProps
