import Namescope.Command.Run
import Namescope.Naming.Resolution
import Namescope.Reading.Program
/-!
# Inspection of a source text

What the two stages of checking a text find, with everything that is said about it in order. How a
diagnostic is shown is left to the command.
-/
namespace Namescope

/-- Something said about a text: a diagnostic, or a word about the progress of the work. -/
inductive Remark where
  | diagnostic (d : Diagnostic)
  | log (level : LogLevel) (message : String)

/-- Why an inspection yields nothing. -/
inductive Failure where
  | rejected
  | broken (error : InternalError)

/-- What an inspection said and what it yields. -/
structure Inspection (α : Type) where
  remarks : List Remark
  result : Except Failure α

/-- Ends an inspection with a report, in which an error means that it fails. -/
def Inspection.conclude {α : Type} (remarks : List Remark) (report : Report) (value : α) :
    Inspection α :=
  ⟨remarks ++ report.map .diagnostic, if report.hasErrors then .error .rejected else .ok value⟩

/-- Reads a source text. -/
def inspectText (path source : String) : Inspection Program :=
  let parsed := parse source
  .conclude [] (parsed.report.withPath path) parsed.program

/-- Resolves the names of a program. -/
def inspectNames (path : String) (program : Program) : Inspection Analysis :=
  match analyze program with
  | .error e => ⟨[], .error (.broken e)⟩
  | .ok analysis =>
    let steps := analysis.events.map fun event => Remark.log .debug event.message
    .conclude (steps ++ [.log .info analysis.summary]) (analysis.report.withPath path) analysis

namespace Run

variable {m : Type → Type} [Monad m]

/-- Says what is to be said about a text. -/
def say (showDiagnostic : Diagnostic → String) : Remark → Run m Unit
  | .diagnostic d => printError (showDiagnostic d)
  | .log level message => log level message

/-- Says what an inspection found, and goes on with what it yields. -/
def follow {α : Type} (showDiagnostic : Diagnostic → String) (onBroken : InternalError → Run m Unit)
    (inspection : Inspection α) : Run m α := do
  inspection.remarks.forM (say showDiagnostic)
  match inspection.result with
  | .ok value => return value
  | .error .rejected => stop 1
  | .error (.broken e) =>
    onBroken e
    stop 101

end Run

end Namescope
