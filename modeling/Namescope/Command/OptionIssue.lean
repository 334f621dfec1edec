/-!
# What can be wrong with a command line
-/
namespace Namescope

/-- What can be wrong with the words of a command line. -/
inductive OptionIssue where
  | manifestPathMissing
  | fileMissing
  | colorMissing
  | unknownColor (word : String)
  | annotateElsewhere
  | cleanElsewhere
  | unknownOption (word : String)
  | unexpectedArgument (word : String)
  deriving DecidableEq

/-- The text of an issue. -/
def OptionIssue.message : OptionIssue → String
  | manifestPathMissing => "--manifest-path expects a path"
  | fileMissing => "--file expects a path"
  | colorMissing => "--color expects auto, always, or never"
  | unknownColor word => "invalid --color value: " ++ word ++ " (expected auto|always|never)"
  | annotateElsewhere => "--annotate is only supported for wumbo unparse"
  | cleanElsewhere => "--clean is only supported for wumbo build"
  | unknownOption word => "unknown option: " ++ word
  | unexpectedArgument word => "unexpected argument: " ++ word

/-- Whether a word can only be an option. -/
def looksLikeOption (word : String) : Bool := "--".toList.isPrefixOf word.toList

end Namescope
