import TypedProps.Keyed
import TypedProps.Path

/-!
# `TypedProps.Sources`: the files a program is read from

A finite collection of files under their normal paths, and the rule by which an import finds the
file it names. A specifier that begins with a dot or a slash is local; it may leave out the
extension, name the output of a module instead of the module, or name a directory that has an index
module. Every other specifier belongs to a package and leads nowhere.
-/

set_option autoImplicit false

namespace TypedProps

/-- What a file holds. -/
inductive Content where
  | text (text : String)
  /-- Bytes that are not text. -/
  | binary
deriving DecidableEq, Repr, Inhabited

/-- Files under their normal paths, in the order in which they were first inserted. -/
structure Sources where
  entries : List (String × Content)
deriving DecidableEq, Repr, Inhabited

namespace Sources

/-- No files. -/
def empty : Sources := ⟨[]⟩

/-- Adds a file, or replaces it. -/
def insert (s : Sources) (path : String) (content : Content) : Sources :=
  ⟨Keyed.put (Path.normalize path) content s.entries⟩

/-- Adds files in order. -/
def ofList (files : List (String × Content)) : Sources :=
  files.foldl (fun s file => s.insert file.1 file.2) empty

/-- The file under a path. -/
def file? (s : Sources) (path : String) : Option Content := s.entries.lookup (Path.normalize path)

/-- The text of the file under a path. -/
def read? (s : Sources) (path : String) : Option String :=
  match s.file? path with
  | some (.text text) => some text
  | _ => none

/-- Whether there is a file under a path. -/
def contains (s : Sources) (path : String) : Bool := (s.file? path).isSome

/-- The paths of all files. -/
def paths (s : Sources) : List String := s.entries.map (·.1)

end Sources

namespace Specifier

/-- Whether a specifier names a file rather than a package. -/
def isLocal (specifier : String) : Bool :=
  Path.hasStart "./" specifier || Path.hasStart "../" specifier || Path.hasStart "/" specifier
    || specifier == "." || specifier == ".."

/-- Extensions of modules. -/
def moduleExtensions : List String := [".ts", ".tsx", ".mts", ".cts"]

/-- Extensions a specifier may leave out. -/
def impliedExtensions : List String := [".ts", ".tsx", ".d.ts"]

/-- The paths a specifier may stand for, in the order in which they are tried. -/
def candidates (base : String) : List String :=
  let itself := if moduleExtensions.any (Path.hasEnd · base) then [base] else []
  let ofOutput :=
    if Path.hasEnd ".js" base then
      let stem := String.ofList (base.toList.take (base.length - 3))
      [stem ++ ".ts", stem ++ ".tsx"]
    else []
  itself ++ ofOutput ++ impliedExtensions.map (base ++ ·)
    ++ impliedExtensions.map fun extension => Path.join base ("index" ++ extension)

/-- The place a local specifier points at, seen from the module that imports it. -/
def base (importer specifier : String) : String :=
  if Path.isAbsolute specifier then Path.normalize specifier
  else
    let dir := ((Path.Normal.ofPath importer).parent?.map Path.Normal.toPath).getD ""
    Path.normalize (Path.join dir specifier)

/-- The file that a specifier in `importer` leads to. -/
def resolve? (sources : Sources) (importer specifier : String) : Option String :=
  if isLocal specifier then (candidates (base importer specifier)).find? sources.contains
  else none

end Specifier

end TypedProps
