import Namescope.Command.OptionIssue
import Namescope.Terminal.Paint
/-!
# Options of a project command

The words after the name of a command are split into arguments, each of which is an option with its
value or a path, and the arguments are then taken in order.
-/
namespace Namescope

/-- What a project command does with the entry file. -/
inductive Task where
  | check | unparse | build
  deriving DecidableEq

/-- The task that a word on the command line stands for. -/
def Task.ofWord? : String → Option Task
  | "check" => some check
  | "unparse" => some unparse
  | "build" => some build
  | _ => none

/-- One argument. -/
inductive Argument where
  | manifest (path : String)
  | file (path : String)
  | color (choice : ColorChoice)
  | annotate
  | clean
  | path (text : String)
  deriving DecidableEq

namespace Argument

/-- The argument for a choice of colour. -/
def ofColor (word : String) : Except OptionIssue Argument :=
  match ColorChoice.ofWord? word with
  | some choice => .ok (.color choice)
  | none => .error (.unknownColor word)

/-- How an option reads the word after it, and what is wrong if there is none. -/
def pairing? : String → Option ((String → Except OptionIssue Argument) × OptionIssue)
  | "--manifest-path" => some (.ok ∘ .manifest, .manifestPathMissing)
  | "--file" => some (.ok ∘ .file, .fileMissing)
  | "--color" => some (ofColor, .colorMissing)
  | _ => none

/-- An argument of a single word. -/
def ofWord (word : String) : Except OptionIssue Argument :=
  match "--color=".toList.isPrefixOf? word.toList with
  | some choice => ofColor (String.ofList choice)
  | none =>
    if word = "--annotate" then .ok .annotate
    else if word = "--clean" then .ok .clean
    else if looksLikeOption word then .error (.unknownOption word)
    else .ok (.path word)

/-- The arguments that words make up, with what is wrong in the place where it is. -/
def split : List String → List (Except OptionIssue Argument)
  | [] => []
  | word :: rest =>
    match pairing? word with
    | none => ofWord word :: split rest
    | some (read, missing) =>
      match rest with
      | [] => [.error missing]
      | value :: rest => read value :: split rest

end Argument

/-- What the arguments of a command set. -/
structure Options where
  manifest : Option String := none
  entry : Option String := none
  color : Option ColorChoice := none
  annotate : Bool := false
  clean : Bool := false
  deriving DecidableEq

namespace Options

/-- Takes one more argument. A bare path is the project if it is the directory of one and no manifest is
given yet; otherwise it is the entry file. -/
def take (task : Task) (isProject : String → Bool) (o : Options) :
    Argument → Except OptionIssue Options
  | .manifest path => .ok { o with manifest := some path }
  | .file path => .ok { o with entry := some path }
  | .color choice => .ok { o with color := some choice }
  | .annotate =>
    if task = .unparse then .ok { o with annotate := true } else .error .annotateElsewhere
  | .clean => if task = .build then .ok { o with clean := true } else .error .cleanElsewhere
  | .path text =>
    if o.entry.isSome then .error (.unexpectedArgument text)
    else if o.manifest.isNone && isProject text then .ok { o with manifest := some text }
    else .ok { o with entry := some text }

/-- The options that the words after a command stand for; `isProject` tells the directories of
projects. -/
def ofWords (task : Task) (isProject : String → Bool) (words : List String) :
    Except OptionIssue Options :=
  (Argument.split words).foldlM (fun o argument => argument.bind (take task isProject o)) {}

end Options

end Namescope
