import Namescope.Command.Inspection
import Namescope.Outline.Tree
import Namescope.SingleFile.Flags
/-!
# The single file command

Checks, prints or outlines one source file, with no project around it.
-/
namespace Namescope.SingleFile

variable {m : Type → Type} [Monad m]

/-- How the command is called. -/
def usage : String := "usage: wumboc [--dump-ast] [--check] [--unparse] [--annotate] <file>"

/-- Ends the run with a word on how the command is called. -/
def stopWithUsage {α : Type} : Run m α := do
  Run.printErrorLine usage
  Run.stop 1

/-- Goes on with what an inspection yields. -/
def follow {α : Type} (inspection : Inspection α) : Run m α :=
  Run.follow (fun d => d.render ++ "\n")
    (fun e => Run.printErrorLine ("internal error: " ++ e.message)) inspection

/-- Prints a program as the flags ask for it. -/
def display (flags : Flags) (program : Program) (text : String) : Run m Unit := do
  if flags.dump then Run.print program.outlineText
  if flags.print then Run.print text

/-- Does what the flags ask for with a source text. -/
def process (flags : Flags) (path source : String) : Run m Unit := do
  Run.log .info ("parsing " ++ path)
  let program ← follow (inspectText path source)
  if flags.resolves then
    let analysis ← follow (inspectNames path program)
    let table := analysis.table
    display flags analysis.program
      (if flags.annotate then analysis.program.printAnnotated table else analysis.program.print)
  else display flags program program.print

/-- The command. -/
def command [FileSystem m] (words : List String) : Run m Unit := do
  let always := ((← read).env.flag? "unparse" "annotate").getD false
  match Flags.ofWords always words with
  | .error issue =>
    Run.printErrorLine issue.message
    stopWithUsage
  | .ok flags =>
    match flags.path with
    | none => stopWithUsage
    | some path =>
      match ← FileSystem.readText path with
      | .error e =>
        Run.printErrorLine ("failed to read " ++ path ++ ": " ++ e.message)
        Run.stop 1
      | .ok source => process flags path source

end Namescope.SingleFile
