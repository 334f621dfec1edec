import Namescope.Source.Span
import Namescope.Text.Decimal
/-!
# Diagnostics

What is reported to the user: a severity, a message and a place, with or without the path of the file.
-/
namespace Namescope

/-- Errors make a run fail, warnings do not. -/
inductive Severity where
  | error | warning
  deriving DecidableEq

/-- The word that a diagnostic begins with. -/
def Severity.label : Severity → String
  | error => "error"
  | warning => "warning"

/-- One message to the user. -/
structure Diagnostic where
  severity : Severity
  message : String
  span : Span
  path : Option String := none
  deriving DecidableEq

namespace Diagnostic

/-- Line and column, after the path if there is one. -/
def place (d : Diagnostic) : String :=
  let lineAndCol := String.ofList (Text.digits d.span.line ++ ':' :: Text.digits d.span.col)
  match d.path with
  | some path => path ++ ":" ++ lineAndCol
  | none => lineAndCol

/-- The diagnostic after a given spelling of its severity. -/
def renderWith (d : Diagnostic) (label : String) : String :=
  label ++ ": " ++ d.message ++ " (" ++ d.place ++ ")"

/-- The diagnostic on one line. -/
def render (d : Diagnostic) : String :=
  d.renderWith d.severity.label

end Diagnostic

/-- Something noticed at a place of the text. -/
structure Finding (Issue : Type) where
  issue : Issue
  span : Span
  deriving DecidableEq

/-- The diagnostic for a finding whose issues read `message`. -/
def Finding.toError {Issue : Type} (message : Issue → String) (f : Finding Issue) : Diagnostic :=
  ⟨.error, message f.issue, f.span, none⟩

/-- The diagnostics of a run in the order in which they were made. -/
abbrev Report := List Diagnostic

namespace Report

/-- Adds an error at the end. -/
def error (report : Report) (span : Span) (message : String) : Report :=
  report ++ [⟨.error, message, span, none⟩]

/-- Adds a warning at the end. -/
def warning (report : Report) (span : Span) (message : String) : Report :=
  report ++ [⟨.warning, message, span, none⟩]

/-- Adds diagnostics at the end. -/
def extend (report more : Report) : Report := report ++ more

/-- Whether a run with this report fails. -/
def hasErrors (report : Report) : Bool :=
  report.any (·.severity = .error)

/-- Gives the path to every diagnostic that has none. -/
def withPath (report : Report) (path : String) : Report :=
  report.map fun d => { d with path := some (d.path.getD path) }

end Report

end Namescope
