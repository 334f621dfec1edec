import Namescope.Settings.Environment
/-!
# Colours on a terminal

When output is coloured, and how. Without colour a text stays as it is.
-/
namespace Namescope

/-- What the user asked for. -/
inductive ColorChoice where
  | auto | always | never
  deriving DecidableEq

namespace ColorChoice

/-- The choice that a word on the command line stands for. -/
def ofWord? : String → Option ColorChoice
  | "auto" => some auto
  | "always" => some always
  | "never" => some never
  | _ => none

/-- Whether output is coloured. Left to itself it is on a terminal, unless the environment refuses
colour; the environment can also say what counts as a terminal. -/
def isOn (env : Environment) (terminal : Bool) : ColorChoice → Bool
  | always => true
  | never => false
  | auto =>
    (env.get? "NO_COLOR").isNone &&
      match env.get? "WUMBO_COLOR_FORCE_TTY" with
      | some force => force = "1"
      | none => terminal

end ColorChoice

/-- The roles that a text is coloured for. -/
inductive Style where
  | error | warning | header
  deriving DecidableEq

namespace Style

/-- The parameters of the escape sequence that switches the style on: bold in a colour. -/
def code : Style → String
  | error => "31;1"
  | warning => "33;1"
  | header => "36;1"

/-- A text in a style. -/
def paint (colored : Bool) (style : Style) (text : String) : String :=
  if colored then "\x1b[" ++ style.code ++ "m" ++ text ++ "\x1b[0m" else text

end Style

end Namescope
