import TypedProps.Command.Run

/-!
# `TypedProps.Main`: the command line program

The program copies what a run can look at from the disk into a file tree, runs on the copy, prints
what the run prints, and writes the files that the run has changed. Imports may lead to modules that
the command line does not name; the copy grows until no import finds a new file. All decisions are
made by `Command.run`.
-/

set_option autoImplicit false

open TypedProps

namespace TypedProps.Main

/-- Whether the text of a file matters to a run that finds the file in a directory. -/
def isWanted (name : String) : Bool :=
  Specifier.moduleExtensions.any (Path.hasEnd · name) || name == Command.optionsFileName

/-- Reads a file. -/
def contentOf (path : String) : IO Content := do
  match String.fromUTF8? (← IO.FS.readBinFile path) with
  | some text => pure (.text text)
  | none => pure .binary

/-- Adds what stands at a path, if anything does, and all below it if it is a directory. A file whose
text does not matter is added without it. -/
partial def addAll (path : String) (isNamed : Bool) (t : FileTree) : IO FileTree := do
  let place := (← IO.currentDir) / path
  if ← place.isDir then
    let mut t := t.add path .directory
    for item in ← place.readDir do
      t ← addAll (Path.join path item.fileName) false t
    pure t
  else if ← place.pathExists then
    let name := (Path.fileName? path).getD ""
    pure (t.add path (.file (← if isNamed || isWanted name then contentOf path else pure .binary)))
  else pure t

/-- Adds the directories and files that a path passes through. -/
def addAbove (path : String) (t : FileTree) : IO FileTree := do
  let names := (Path.Normal.ofPath path).names
  let mut t := t
  for n in List.range names.length do
    let above := FileTree.pathOf (names.take n)
    let place := (← IO.currentDir) / above
    if ← place.isDir then t := t.add above .directory
    else if ← place.pathExists then t := t.add above (.file .binary)
  pure t

/-- Adds the modules that imports lead to, until there are no more. -/
partial def addImported (here : String) (a : Command.Arguments) (t : FileTree) : IO FileTree := do
  let mut larger := t
  for path in (Command.missingPaths t here a).eraseDups do
    let place := (← IO.currentDir) / path
    if (← place.pathExists) && !(← place.isDir) then
      larger := larger.add path (.file (← contentOf path))
  if larger.entries.length == t.entries.length then pure t else addImported here a larger

/-- The part of the disk that a run can look at. -/
def snapshot (here : String) (a : Command.Arguments) : IO FileTree := do
  let mut t := FileTree.empty
  for path in Command.namedPaths here a do
    t ← addAbove path t
    t ← addAll path true t
  addImported here a t

/-- Writes the files that a run has changed. -/
def writeChanges (before after : FileTree) : IO Unit :=
  (FileTree.changes before after).forM fun (names, text) => do
    IO.FS.createDirAll (FileTree.pathOf names.dropLast)
    IO.FS.writeFile (FileTree.pathOf names) text

end TypedProps.Main

/-- Runs a command line. -/
def main (arguments : List String) : IO UInt32 := do
  let here := (← IO.currentDir).toString
  let tree ← match Command.Request.ofArguments arguments with
    | .ok (.run a) => Main.snapshot here a
    | _ => pure FileTree.empty
  let outcome := Command.run Command.Wording.standard tree here arguments
  TypedProps.Main.writeChanges tree outcome.tree
  IO.print outcome.printed
  outcome.complaints.forM IO.eprintln
  pure outcome.exitCode.toUInt32
