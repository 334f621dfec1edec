import Namescope.Settings.Environment
/-!
# The log

Lines about the progress of a run on the standard error stream, silent unless the environment asks for
them.
-/
namespace Namescope

/-- How much a line of the log matters. -/
inductive LogLevel where
  | debug | info | warn | error
  deriving DecidableEq

/-- The word in front of a line. -/
def LogLevel.label : LogLevel → String
  | debug => "debug"
  | info => "info"
  | warn => "warn"
  | error => "error"

namespace Environment

/-- Whether there is a log at all. -/
def logs (env : Environment) : Bool := env.get? "WUMBO_LOG" = some "1"

/-- Whether the log has the finest level too. -/
def logsDebug (env : Environment) : Bool :=
  env.logs && env.get? "WUMBO_LOG_LEVEL" = some "debug"

/-- Whether the log has lines of a level. -/
def logsAt (env : Environment) : LogLevel → Bool
  | .debug => env.logsDebug
  | _ => env.logs

/-- A message as the log shows it. -/
def log (env : Environment) (level : LogLevel) (message : String) : String :=
  if env.logsAt level then "[" ++ level.label ++ "] " ++ message ++ "\n" else ""

end Environment

end Namescope
