import TypedProps.FileTree
import TypedProps.Glob

/-!
# `TypedProps.Command.Selection`: the files of a run

A run processes the modules below its roots, apart from declaration files, from what lies in the
output directory and from what a pattern ignores. Patterns see paths relative to the workspace. The
files are sorted by path components, and a path that is reached from several roots counts once.
-/

set_option autoImplicit false

namespace TypedProps.Command

/-- The part of a path behind a directory, or the whole path if it does not lead there. -/
def pathInside (dir path : String) : String := (Path.stripDirectory? path dir).getD path

/-- Whether a file may hold components, by its name. -/
def isModuleName (name : String) : Bool :=
  (Path.hasEnd ".ts" name || Path.hasEnd ".tsx" name) && !Path.hasEnd ".d.ts" name

/-- Puts a path in its place among sorted ones, unless one with the same components is there. -/
def insertPath (path : String) : List String → List String
  | [] => [path]
  | p :: rest =>
    match Path.compareComponents (Path.components path) (Path.components p) with
    | .lt => path :: p :: rest
    | .eq => p :: rest
    | .gt => p :: insertPath path rest

/-- Sorts paths; of those with the same components the first one stays. -/
def sortPaths (paths : List String) : List String :=
  paths.foldl (fun sorted path => insertPath path sorted) []

/-- What a run looks for. -/
structure Selection where
  roots : List String
  workspace : String
  outDir : Option String
  ignored : List Glob
deriving Inhabited

namespace Selection

/-- Whether a file below a root is to be processed. -/
def wants (s : Selection) (path : String) : Bool :=
  isModuleName ((Path.fileName? path).getD "")
    && !(s.outDir.any fun dir => Path.startsWith path dir)
    && !(s.ignored.any fun glob => glob.accepts (pathInside s.workspace path))

/-- The files to process, in order. -/
def files (s : Selection) (t : FileTree) : List String :=
  sortPaths ((s.roots.flatMap t.filesBelow).filter s.wants)

end Selection

end TypedProps.Command
