import Namescope.Diagnostic
import Namescope.Terminal.Paint
import Namescope.Text.Line
/-!
# Diagnostics with the source beside them

A diagnostic is shown with the line that it is about and a caret under the character where it begins.
-/
namespace Namescope

/-- The style for a severity. -/
def Severity.style : Severity → Style
  | error => .error
  | warning => .warning

namespace Diagnostic

/-- What stands left of the lines of an excerpt. -/
def margin : String := "  "

/-- The line that a diagnostic is about and the line with the caret; nothing if the text has no such
line. -/
def excerptLines (colored : Bool) (source : String) (d : Diagnostic) : List String :=
  match Text.line? source d.span.line with
  | none => []
  | some line =>
    [margin ++ line,
      margin ++ String.ofList (List.replicate (d.span.col - 1) ' ') ++ Style.error.paint colored "^"]

/-- A diagnostic with its excerpt, each line ended. -/
def excerpt (colored : Bool) (source : String) (d : Diagnostic) : String :=
  let head := d.renderWith (d.severity.style.paint colored d.severity.label)
  String.join ((head :: d.excerptLines colored source).map (· ++ "\n"))

end Diagnostic

end Namescope
