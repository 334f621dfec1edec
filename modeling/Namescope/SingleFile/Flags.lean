import Namescope.Command.OptionIssue
/-!
# Flags of the single file command
-/
namespace Namescope

/-- What to do with the file. -/
structure Flags where
  dump : Bool := false
  check : Bool := false
  print : Bool := false
  annotate : Bool := false
  path : Option String := none
  deriving DecidableEq

namespace Flags

/-- Takes one more word. -/
def take (flags : Flags) (word : String) : Except OptionIssue Flags :=
  match word with
  | "--dump-ast" => .ok { flags with dump := true }
  | "--check" => .ok { flags with check := true }
  | "--unparse" => .ok { flags with print := true }
  | "--annotate" => .ok { flags with annotate := true }
  | _ =>
    if looksLikeOption word then .error (.unknownOption word)
    else if flags.path.isNone then .ok { flags with path := some word }
    else .error (.unexpectedArgument word)

/-- The flags that words stand for; `annotate` says whether names are annotated anyway. -/
def ofWords (annotate : Bool) (words : List String) : Except OptionIssue Flags :=
  words.foldlM take { annotate }

/-- Whether the flags ask for name resolution: a program printed without annotations is shown as it was
read. -/
def resolves (flags : Flags) : Bool := flags.check || (flags.print && flags.annotate)

end Flags

end Namescope
