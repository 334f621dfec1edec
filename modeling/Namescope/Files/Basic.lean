import Namescope.Bytes.Decode
import Namescope.Files.Path
/-!
# Files

What a command asks of the file system, and how an operation on a file can fail. A command is written
for any file system: the one of the machine, or a disk in memory.
-/
namespace Namescope

/-- Why an operation on a file failed. -/
inductive FileError where
  | notFound
  | notADirectory
  | isADirectory
  | alreadyExists
  | notPermitted
  | invalidArgument
  | notEmpty
  | notText
  | invalidName
  | other (message : String)
  deriving DecidableEq

/-- The text of a failure. -/
def FileError.message : FileError → String
  | notFound => "No such file or directory (os error 2)"
  | notADirectory => "Not a directory (os error 20)"
  | isADirectory => "Is a directory (os error 21)"
  | alreadyExists => "File exists (os error 17)"
  | notPermitted => "Permission denied (os error 13)"
  | invalidArgument => "Invalid argument (os error 22)"
  | notEmpty => "Directory not empty (os error 39)"
  | notText => "stream did not contain valid UTF-8"
  | invalidName => "file name contained an unexpected NUL byte"
  | other message => message

/-- The operations of a file system. -/
class FileSystem (m : Type → Type) where
  /-- The directory that relative paths start from, as an absolute path; it may have been removed. -/
  currentDirectory : m (Except FileError Path)
  /-- Whether the path leads to a directory. -/
  isDirectory : Path → m Bool
  /-- Whether the path leads to anything. -/
  isPresent : Path → m Bool
  /-- The content of a file. -/
  read : Path → m (Except FileError Bytes)
  /-- Creates a file, or replaces what is in it. -/
  write : Path → Bytes → m (Except FileError Unit)
  /-- Creates a directory in one that is there. -/
  createDirectory : Path → m (Except FileError Unit)
  /-- Removes a directory with all that is below it. -/
  removeTree : Path → m (Except FileError Unit)

namespace FileSystem

variable {m : Type → Type} [Monad m] [FileSystem m]

/-- The content of a text file. -/
def readText (path : Path) : m (Except FileError String) := do
  match ← read path with
  | .error e => return .error e
  | .ok bytes =>
    match bytes.toText? with
    | some text => return .ok text
    | none => return .error .notText

/-- A failure to create a directory, unless the directory is there. -/
def unlessDirectory (path : Path) (failure : FileError) : m (Except FileError Unit) := do
  match ← isDirectory path with
  | true => return .ok ()
  | false => return .error failure

/-- Creates the first of some directories, each of which lies in the next one. -/
def createNested : List Path → m (Except FileError Unit)
  | [] => return .error (.other "failed to create whole tree")
  | path :: outer => do
    if path = "" then return .ok ()
    match ← createDirectory path with
    | .ok () => return .ok ()
    | .error .notFound =>
      match ← createNested outer with
      | .error e => return .error e
      | .ok () =>
        match ← createDirectory path with
        | .ok () => return .ok ()
        | .error e => unlessDirectory path e
    | .error e => unlessDirectory path e

/-- Creates a directory and those above it that are missing. -/
def createDirectories (path : Path) : m (Except FileError Unit) :=
  createNested (path :: path.parents)

end FileSystem

end Namescope
