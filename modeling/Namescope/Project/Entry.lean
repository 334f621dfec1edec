import Namescope.Command.Run
import Namescope.Project.Options
/-!
# Projects and their entry file

A project is a directory with a manifest. The manifest is given on the command line or is the nearest one
above the current directory, and there need not be one.
-/
namespace Namescope

/-- The name of a manifest. -/
def manifestName : Path := "wumbo.toml"

/-- The settings of a project and the directory that they are relative to. -/
structure Project where
  manifest : Manifest := {}
  directory : Option Path := none
  deriving DecidableEq

namespace Project

variable {m : Type → Type} [Monad m]

/-- Ends the run with an error message. -/
def fail {α : Type} (message : String) : Run m α := do
  Run.printErrorLine (← Run.painted .error ("error: " ++ message))
  Run.stop 1

/-- The value of an operation on a file, or the end of the run. -/
def orFail {α : Type} (doing : String) (path : Path) : Except FileError α → Run m α
  | .ok value => return value
  | .error e => fail ("failed to " ++ doing ++ " " ++ path ++ ": " ++ e.message)

variable [FileSystem m]

/-- The current directory, or the end of the run. -/
def workingDirectory : Run m Path := do
  match ← FileSystem.currentDirectory with
  | .ok path => return path
  | .error e => fail ("cwd error: " ++ e.message)

/-- Whether a path leads to the directory of a project. -/
def isProject (path : Path) : Run m Bool := do
  match ← FileSystem.isDirectory path with
  | true => FileSystem.isPresent (path.join manifestName)
  | false => return false

/-- The nearest manifest in some directories. -/
def nearestManifest? : List Path → Run m (Option Path)
  | [] => return none
  | directory :: more => do
    let candidate := directory.join manifestName
    match ← FileSystem.isPresent candidate with
    | true => return some candidate
    | false => nearestManifest? more

/-- The path of the manifest and its directory. -/
def manifestPath? (options : Options) : Run m (Option (Path × Option Path)) := do
  match options.manifest with
  | some path =>
    match ← FileSystem.isDirectory path with
    | true => return some (Path.join path manifestName, some path)
    | false => return some (path, Path.parent? path)
  | none =>
    let current ← workingDirectory
    let found ← nearestManifest? (current :: current.parents)
    return found.map fun path => (path, path.parent?)

/-- Loads the project that a command is for. -/
def load (options : Options) : Run m Project := do
  match ← manifestPath? options with
  | none => return {}
  | some (path, directory) =>
    let text ← orFail "read" path (← FileSystem.readText path)
    match (← read).readManifest text with
    | .error issue => fail ("invalid manifest: " ++ issue)
    | .ok manifest =>
      Run.log .debug ("loaded manifest " ++ path)
      return { manifest, directory }

/-- The directory of the project, or the current one. -/
def baseDirectory (project : Project) : Run m Path := do
  match project.directory with
  | some directory => return directory
  | none => workingDirectory

/-- The directory that the path of the entry file is relative to. One from the command line is relative to the current
directory, one from the manifest to the directory of the project. -/
def entryDirectory (project : Project) (options : Options) : Run m Path :=
  match options.entry with
  | some _ => workingDirectory
  | none => project.baseDirectory

/-- The path of the entry file. No directory is looked up for an absolute path. -/
def entry (project : Project) (options : Options) : Run m Path := do
  match options.entry.or project.manifest.entry with
  | none => fail "missing entry: pass a file path or set package.entry in wumbo.toml"
  | some path =>
    match Path.isAbsolute path with
    | true => return path
    | false => return (← project.entryDirectory options).join path

end Project

end Namescope
