import Namescope.Text.Blank
/-!
# Settings from the environment

Every setting of the manifest can be overridden by an environment variable. The name of the variable
does not depend on how the setting is spelled: `out_dir`, `outDir` and `out-dir` name the same one.
-/
namespace Namescope

/-- The variables of a process with their values. -/
abbrev Environment := List (String × String)

namespace Settings

/-- What stands before the next letter of a variable's name. -/
inductive Before where
  | nothing
  | underscore
  | lower
  | other
  deriving DecidableEq

/-- Whether `c` separates the words of a name. -/
def isSeparator (c : Char) : Bool := c = '_' || c = '-' || c = '.'

/-- The underscore, if one is due, for a separator or a capital. -/
def Before.gap : Before → List Char
  | nothing | underscore => []
  | lower | other => ['_']

/-- What stands before the letter after `c`. -/
def Before.next (c : Char) : Before :=
  if c.isLower || c.isDigit then lower else other

/-- The rest of a variable's name: capitals with one underscore for each run of separators and in
front of each capital that follows a small letter or a digit. -/
def keyFrom : Before → List Char → List Char
  | _, [] => []
  | before, c :: rest =>
    if isSeparator c then
      before.gap ++ keyFrom (if before = .nothing then .nothing else .underscore) rest
    else if c.isUpper && before = .lower then '_' :: c :: keyFrom (.next c) rest
    else c.toUpper :: keyFrom (.next c) rest

/-- What a section or a field contributes to the name of a variable. -/
def key (name : String) : String := String.ofList (keyFrom .nothing name.toList)

/-- The variable that overrides `field` of the section `sectionName`. -/
def variableName (sectionName field : String) : String :=
  "WUMBO_" ++ key sectionName ++ "_" ++ key field

/-- The words for yes. -/
def yesWords : List String := ["1", "true", "yes", "on"]

/-- The words for no. -/
def noWords : List String := ["0", "false", "no", "off"]

/-- Reads a truth value; blanks around it and capitals do not matter, and any other text is none. -/
def flag? (raw : String) : Option Bool :=
  let word := String.ofList ((Text.trim raw.toList).map Char.toLower)
  if word ∈ yesWords then some true
  else if word ∈ noWords then some false
  else none

end Settings

namespace Environment

/-- The value of a variable. -/
def get? (env : Environment) (name : String) : Option String := env.lookup name

/-- The truth value that overrides a field. -/
def flag? (env : Environment) (sectionName field : String) : Option Bool :=
  (env.get? (Settings.variableName sectionName field)).bind Settings.flag?

/-- The text that overrides a field; blank text does not. -/
def text? (env : Environment) (sectionName field : String) : Option String :=
  (env.get? (Settings.variableName sectionName field)).filter fun value =>
    !(Text.trim value.toList).isEmpty

end Environment

end Namescope
