import Namescope.Project.Command
import Namescope.SingleFile.Command
/-!
# The program

Runs a command on the files of the machine. The first word chooses the command line: `wumbo` for
projects, `wumboc` for single files.
-/
namespace Namescope.Machine

/-- Why an operation failed. -/
def failure : IO.Error → FileError
  | .noFileOrDirectory .. | .noSuchThing .. => .notFound
  | .inappropriateType _ code _ =>
    if code = 21 then .isADirectory else .notADirectory
  | .alreadyExists .. => .alreadyExists
  | .permissionDenied .. => .notPermitted
  | .invalidArgument .. => .invalidArgument
  | .unsatisfiedConstraints .. => .notEmpty
  | e => .other (toString e)

/-- The outcome of an operation on a file. -/
def outcomeOf {α : Type} (operation : IO α) : IO (Except FileError α) := do
  try
    return .ok (← operation)
  catch e => return .error (failure e)

/-- Whether something can be opened under a path. -/
def opens (path : Path) : IO Bool := do
  try
    let _ ← IO.FS.Handle.mk path .read
    return true
  catch _ => return false

/-- Whether a path leads to a directory. -/
def isDirectory (path : Path) : IO Bool :=
  if path = "" then return false else opens (path.join ".")

/-- The content of a file. -/
def readFile (path : Path) : IO (Except FileError Bytes) := do
  if ← isDirectory path then return .error .isADirectory
  outcomeOf do return (← IO.FS.readBinFile path).toList

instance : FileSystem IO where
  currentDirectory := outcomeOf do return toString (← IO.currentDir)
  isDirectory := isDirectory
  isPresent := opens
  read := readFile
  write path content := outcomeOf (IO.FS.writeBinFile path ⟨content.toArray⟩)
  createDirectory path := outcomeOf (IO.FS.createDir path)
  removeTree path := outcomeOf (IO.FS.removeDirAll path)

/-- The variables that a command may look at. -/
def variableNames : List String :=
  ["NO_COLOR", "WUMBO_COLOR_FORCE_TTY", "WUMBO_LOG", "WUMBO_LOG_LEVEL",
   Settings.variableName "unparse" "annotate", Settings.variableName "build" "out_dir"]

/-- The variables that are set. -/
def environment : IO Environment :=
  variableNames.filterMapM fun name => do return (← IO.getEnv name).map (name, ·)

/-- The tools that this program was built with. -/
def toolchain : Toolchain := ⟨"unknown", "unknown", "0.3.1"⟩

/-- The command line that a word names, with the words after it. -/
def command : List String → Run IO Unit
  | "wumboc" :: words => SingleFile.command words
  | "wumbo" :: words => Project.command words
  | words => Project.command words

end Namescope.Machine

open Namescope in
/-- Runs the command and prints what it has to say. -/
def main (words : List String) : IO UInt32 := do
  let terminal ← (← IO.getStderr).isTty
  let surroundings :=
    { env := ← Machine.environment, toolchain := Machine.toolchain, readManifest := Manifest.ofText, terminal }
  let (code, transcript) ← (Machine.command words).outcome surroundings
  IO.eprint transcript.err
  IO.print transcript.out
  return UInt32.ofNat code
