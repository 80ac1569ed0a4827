import TypedProps.Glob.Reader
import TypedProps.Diagnostic
import TypedProps.Json.Reader
import TypedProps.Text.Quoted

/-!
# `TypedProps.Command.Report`: what a run says about files

A report is a problem in a file at a position, written either as two lines for a reader or as a JSON
object. A summary counts what a run has done. What the readers of scripts, options and patterns say
about text that they refuse is a matter of `Wording`.
-/

set_option autoImplicit false

namespace TypedProps.Command

/-- How refused text is described. -/
structure Wording where
  script : String
  options : Json.ReadError → String
  pattern : Glob.ReadError → String
deriving Inhabited

/-- What is said about options that are refused. -/
def optionsMessage : Json.ReadError → String
  | .truncated => "the text ends too early"
  | .malformed => "the text is not JSON"
  | .mismatched => "a value has the wrong shape"
  | .invalid message => message

/-- The usual descriptions. -/
def Wording.standard : Wording := ⟨"unexpected text", optionsMessage, Glob.ReadError.message⟩

/-- A problem in a file. -/
structure Report where
  severity : Severity
  code : Code
  message : String
  position : Position
deriving DecidableEq, Repr, Inhabited

/-- The word for a severity in front of a message. -/
def severityLabel : Severity → String
  | .warning => "Warning"
  | .error => "Error"

namespace Report

/-- The report of a diagnostic, at the start of its span. -/
def ofDiagnostic (p : Program) (d : Diagnostic) : Report :=
  ⟨d.severity, d.code, d.message, p.position d.module d.span.start⟩

/-- The report of a file that could not be loaded. A file that cannot be read has no positions but
its start. -/
def ofLoadError (wording : Wording) : LoadError → Report
  | .unreadable path => ⟨.error, .parseError, unreadableMessage path, ⟨1, 1⟩⟩
  | .malformed _ position => ⟨.error, .parseError, wording.script, position⟩

/-- A report as lines for a reader, with an empty line behind them. -/
def text (file : String) (r : Report) : String :=
  s!"{file}:{r.position.line}:{r.position.column}\n"
    ++ s!"{severityLabel r.severity}: {r.message} ({r.code.name})\n\n"

/-- A report as an object in a list. -/
def json (file : String) (r : Report) : String :=
  "  \x7b\n    \"type\": " ++ Text.quote (severityLabel r.severity)
    ++ ",\n    \"filename\": " ++ Text.quote file
    ++ ",\n    \"start\": \x7b\n      \"line\": " ++ toString r.position.line
    ++ ",\n      \"column\": " ++ toString r.position.column
    ++ "\n    \x7d,\n    \"message\": " ++ Text.quote r.message
    ++ ",\n    \"code\": " ++ Text.quote r.code.name ++ "\n  \x7d"

/-- The reports of several files as a document. -/
def jsonAll (reports : List (String × Report)) : String :=
  if reports.isEmpty then "[]"
  else "[\n" ++ ",\n".intercalate (reports.map fun (file, r) => json file r) ++ "\n]"

end Report

/-- What is said about a module that another one depends on and that could not be loaded. -/
def dependencyMessage (wording : Wording) : LoadError → String
  | .unreadable path => unreadableMessage path
  | .malformed path position => s!"{path}:{position.line}:{position.column}: {wording.script}"

/-- What a run has done. -/
structure Summary where
  files : Nat
  components : Nat
  errors : Nat
  warnings : Nat
deriving DecidableEq, Repr, Inhabited

namespace Summary

/-- A number of things. -/
def count (n : Nat) (thing : String) : String :=
  toString n ++ " " ++ thing ++ if n == 1 then "" else "s"

/-- A summary as a line under a rule. -/
def text (s : Summary) : String :=
  "====================================\nvue-auto-props patched " ++ count s.components "component"
    ++ " in " ++ count s.files "file" ++ " and found " ++ count s.errors "error"
    ++ " and " ++ count s.warnings "warning"

/-- Whether a run has failed: errors always count, warnings on demand. -/
def failed (s : Summary) (failOnWarnings : Bool) : Bool :=
  s.errors > 0 || (failOnWarnings && s.warnings > 0)

end Summary

end TypedProps.Command
