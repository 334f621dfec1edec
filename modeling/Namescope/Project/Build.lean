import Namescope.Build.Artifact
import Namescope.Naming.Resolution
import Namescope.Project.Entry
/-!
# Builds

A build writes the resolved program into the build directory, and beside it what it was built from.
Nothing is written if what is there was built from the same text by the same tools.
-/
namespace Namescope.Project

variable {m : Type → Type} [Monad m] [FileSystem m]

/-- The build directory of a project that does not set one. -/
def defaultOutDir : Path := ".wumbo/build"

/-- The name of the file with the program. -/
def programName : Path := "program.bin"

/-- The name of the file with the metadata. -/
def metadataName : Path := "meta.bin"

/-- The build directory. -/
def outDir (project : Project) : Run m Path := do
  let configured := ((← read).env.text? "build" "out_dir").or project.manifest.outDir
  return (← project.baseDirectory).join (configured.getD defaultOutDir)

/-- Removes the build directory, if it is there. -/
def clean (directory : Path) : Run m Unit := do
  match ← FileSystem.isPresent directory with
  | true => orFail "remove" directory (← FileSystem.removeTree directory)
  | false => return ()

/-- The metadata in a file. -/
def storedMetadata? (path : Path) : Run m (Option Metadata) := do
  match ← FileSystem.read path with
  | .error _ => return none
  | .ok bytes =>
    match Metadata.read bytes with
    | .valid metadata => return some metadata
    | .unreadable => return none
    | .stale =>
      Run.log .warn ("stale build metadata in " ++ path)
      return none

/-- Whether the build directory holds a program with this metadata. -/
def isUpToDate (directory : Path) (metadata : Metadata) : Run m Bool := do
  let stored ← storedMetadata? (directory.join metadataName)
  match ← FileSystem.isPresent (directory.join programName) with
  | true => return stored = some metadata
  | false => return false

/-- Writes a program and its metadata. -/
def store (directory : Path) (analysis : Analysis) (metadata : Metadata) : Run m Unit := do
  orFail "create" directory (← FileSystem.createDirectories directory)
  let artifact : Artifact := ⟨formatVersion, analysis.program, analysis.table⟩
  let program := directory.join programName
  orFail "write" program (← FileSystem.write program artifact.encode)
  let description := directory.join metadataName
  orFail "write" description (← FileSystem.write description metadata.encode)

end Namescope.Project
