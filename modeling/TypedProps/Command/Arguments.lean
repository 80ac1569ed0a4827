import TypedProps.Options

/-!
# `TypedProps.Command.Arguments`: what a command line asks for

Arguments are read from left to right, and the first one that decides ends the reading: a request for
the version, or a mistake. An option that takes a value takes it from behind an equals sign or from
the next argument, which must not look like an option itself. Every option but `--ignore` may be
given once. After `--` all arguments are paths.
-/

set_option autoImplicit false

namespace TypedProps.Command

/-- How reports are written. -/
inductive Format where
  | human
  | json
deriving DecidableEq, Repr, Inhabited

/-- The format that a word spells. -/
def Format.ofName? : String → Option Format
  | "human" => some .human
  | "json" => some .json
  | _ => none

/-- What a command line asks for. -/
structure Arguments where
  /-- The files and directories to process; without any, the workspace. -/
  paths : List String
  workspace : String
  config : Option String
  hideWarnings : Bool
  docMode : Option DocMode
  /-- Whether the transformed modules are printed. -/
  emit : Bool
  /-- The directory that the transformed modules are written to. -/
  outDir : Option String
  format : Format
  /-- Patterns of the files to leave out. -/
  ignore : List String
  failOnWarnings : Bool
deriving DecidableEq, Repr

namespace Arguments

/-- What an empty command line asks for. -/
def standard : Arguments where
  paths := []
  workspace := "."
  config := none
  hideWarnings := false
  docMode := none
  emit := false
  outDir := none
  format := .human
  ignore := []
  failOnWarnings := false

instance : Inhabited Arguments := ⟨standard⟩

end Arguments

/-- The options of a command line. -/
inductive Switch where
  | hideWarnings | emit | failOnWarnings | version
  | workspace | config | docMode | outDir | format | ignore
deriving DecidableEq, Repr, Inhabited

namespace Switch

/-- The option that a long name stands for. -/
def ofName? : String → Option Switch
  | "hide-warnings" => some .hideWarnings
  | "emit" => some .emit
  | "fail-on-warnings" => some .failOnWarnings
  | "version" => some .version
  | "workspace" => some .workspace
  | "config" => some .config
  | "jsdoc" => some .docMode
  | "out-dir" => some .outDir
  | "output" => some .format
  | "ignore" => some .ignore
  | _ => none

/-- Whether an option takes a value. -/
def takesValue : Switch → Bool
  | .hideWarnings | .emit | .failOnWarnings | .version => false
  | .workspace | .config | .docMode | .outDir | .format | .ignore => true

end Switch

/-- What is wrong with a command line. -/
inductive ArgumentError where
  | unknownOption (argument : String)
  | unwantedValue (argument : String)
  | missingValue (argument : String)
  | invalidValue (value : String)
  | repeatedOption (argument : String)
deriving DecidableEq, Repr, Inhabited

/-- What a command line asks the program to do. -/
inductive Request where
  | version
  | run (arguments : Arguments)
deriving DecidableEq, Repr, Inhabited

/-- The documentation mode that an argument spells. -/
def docModeOfArgument? : String → Option DocMode
  | "false" => some .omit
  | "as-comment" => some .asComment
  | "as-meta-data" => some .asMetadata
  | _ => none

/-- Sets an option. An option without a value has an empty one. -/
def Switch.apply (arguments : Arguments) (value : String) :
    Switch → Except ArgumentError Arguments
  | .hideWarnings => .ok { arguments with hideWarnings := true }
  | .emit => .ok { arguments with emit := true }
  | .failOnWarnings => .ok { arguments with failOnWarnings := true }
  | .version => .ok arguments
  | .workspace => .ok { arguments with workspace := value }
  | .config => .ok { arguments with config := some value }
  | .outDir => .ok { arguments with outDir := some value }
  | .ignore => .ok { arguments with ignore := arguments.ignore ++ [value] }
  | .docMode =>
    match docModeOfArgument? value with
    | some mode => .ok { arguments with docMode := some mode }
    | none => .error (.invalidValue value)
  | .format =>
    match Format.ofName? value with
    | some wanted => .ok { arguments with format := wanted }
    | none => .error (.invalidValue value)

/-- What an argument is by its looks. -/
inductive Form where
  /-- The end of the options. -/
  | divider
  | long (name : String) (value : Option String)
  | short (letters : List Char)
  | plain
deriving DecidableEq, Repr, Inhabited

/-- The text before and behind the first equals sign. -/
def splitEquals : List Char → List Char × Option (List Char)
  | [] => ([], none)
  | c :: cs =>
    if c == '=' then ([], some cs)
    else
      let (name, value) := splitEquals cs
      (c :: name, value)

/-- What an argument is by its looks. A lone hyphen is plain. -/
def Form.ofArgument (argument : String) : Form :=
  match argument.toList with
  | ['-', '-'] => .divider
  | '-' :: '-' :: cs =>
    let (name, value) := splitEquals cs
    .long (String.ofList name) (value.map String.ofList)
  | '-' :: c :: cs => .short (c :: cs)
  | _ => .plain

/-- Whether an argument may be the value of the option before it. -/
def isValue (argument : String) : Bool := Form.ofArgument argument == .plain

/-- Reads arguments. `given` are the options that have been given. -/
def readArguments (given : List Switch) (arguments : Arguments) :
    List String → Except ArgumentError Request
  | [] => .ok (.run arguments)
  | argument :: rest =>
    match Form.ofArgument argument with
    | .divider => .ok (.run { arguments with paths := arguments.paths ++ rest })
    | .plain => readArguments given { arguments with paths := arguments.paths ++ [argument] } rest
    | .short letters =>
      if letters.head? == some 'V' then .ok .version else .error (.unknownOption argument)
    | .long name value =>
      match Switch.ofName? name with
      | none => .error (.unknownOption argument)
      | some switch =>
        let set (value : String) : Except ArgumentError Arguments :=
          if switch ∈ given && switch != .ignore then .error (.repeatedOption argument)
          else switch.apply arguments value
        if switch.takesValue then
          match value, rest with
          | some value, rest => do readArguments (switch :: given) (← set value) rest
          | none, [] => .error (.missingValue argument)
          | none, value :: rest =>
            if isValue value then do readArguments (switch :: given) (← set value) rest
            else .error (.missingValue argument)
        else if value.isSome then .error (.unwantedValue argument)
        else if switch == .version then .ok .version
        else do readArguments (switch :: given) (← set "") rest

/-- What a command line asks for. -/
def Request.ofArguments (list : List String) : Except ArgumentError Request :=
  readArguments [] .standard list

end TypedProps.Command
