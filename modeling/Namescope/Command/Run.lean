import Namescope.Build.Metadata
import Namescope.Files.Basic
import Namescope.Project.Manifest
import Namescope.Settings.Log
import Namescope.Terminal.Paint
/-!
# Runs of a command

A run reads and writes files, prints on two streams and ends with an exit code. Code zero means that
nothing was wrong.
-/
namespace Namescope

/-- What a run has printed on its two streams. -/
structure Transcript where
  out : String := ""
  err : String := ""
  deriving DecidableEq

/-- What a run depends on besides files. How manifests are read, or what is wrong with one, is up to a library: what
is proved of runs holds for any reader, unless it says what it needs of the reader. -/
structure Surroundings where
  env : Environment
  toolchain : Toolchain
  readManifest : String → Except String Manifest := Manifest.ofText
  terminal : Bool := false
  colored : Bool := false

/-- The number that a run ends with. -/
abbrev ExitCode := Nat

/-- A part of a run on a file system: it goes on with a value, or the run stops with an exit code. -/
abbrev Run (m : Type → Type) := ReaderT Surroundings (ExceptT ExitCode (StateT Transcript m))

namespace Run

variable {m : Type → Type} [Monad m]

instance [FileSystem m] : FileSystem (Run m) where
  currentDirectory := liftM (FileSystem.currentDirectory : m _)
  isDirectory path := liftM (FileSystem.isDirectory path : m _)
  isPresent path := liftM (FileSystem.isPresent path : m _)
  read path := liftM (FileSystem.read path : m _)
  write path content := liftM (FileSystem.write path content : m _)
  createDirectory path := liftM (FileSystem.createDirectory path : m _)
  removeTree path := liftM (FileSystem.removeTree path : m _)

/-- Prints a text on the output stream. -/
def print (text : String) : Run m Unit :=
  modify fun t => { t with out := t.out ++ text }

/-- Prints a text on the error stream. -/
def printError (text : String) : Run m Unit :=
  modify fun t => { t with err := t.err ++ text }

/-- Prints a line on the error stream. -/
def printErrorLine (line : String) : Run m Unit := printError (line ++ "\n")

/-- A text in a style, if the run has colours. -/
def painted (style : Style) (text : String) : Run m String := do
  return style.paint (← read).colored text

/-- Writes to the log. -/
def log (level : LogLevel) (message : String) : Run m Unit := do
  printError ((← read).env.log level message)

/-- Ends the run. -/
def stop {α : Type} (code : ExitCode) : Run m α := throw code

/-- A part of a run with the colours that the user chose. -/
def withColor {α : Type} (choice : ColorChoice) (part : Run m α) : Run m α :=
  withReader (fun s => { s with colored := choice.isOn s.env s.terminal }) part

/-- The exit code of a whole run and what it printed. -/
def outcome (run : Run m Unit) (surroundings : Surroundings) : m (ExitCode × Transcript) := do
  let (result, transcript) ← ((ReaderT.run run surroundings).run).run {}
  match result with
  | .ok () => return (0, transcript)
  | .error code => return (code, transcript)

end Run

end Namescope
