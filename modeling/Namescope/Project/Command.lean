import Namescope.Command.Inspection
import Namescope.Project.Build
import Namescope.Terminal.Excerpt
/-!
# The project command

Checks, prints or builds the entry file of a project.
-/
namespace Namescope.Project

variable {m : Type → Type} [Monad m]

/-- The lines on how the command is called. -/
def usageLines : List String :=
  ["usage: wumbo <command> [options] [file]",
   "",
   "commands:",
   "  check     Parse + name analysis",
   "  unparse   Print the entry program",
   "  build     Analyze and write build artifacts",
   "",
   "options:",
   "  --manifest-path <path>  Path to wumbo.toml (defaults to nearest parent)",
   "  --file <path>           Entry file override",
   "  --annotate              Show resolved types in statements (unparse only)",
   "  --color <auto|always|never>  Colorized CLI output policy",
   "  --clean                 Remove the build directory (build only)"]

/-- How the command is called. -/
def usage : String := String.join (usageLines.map (· ++ "\n"))

/-- Ends the run with a word on how the command is called. -/
def stopWithUsage {α : Type} : Run m α := do
  Run.printErrorLine (← Run.painted .header usage)
  Run.stop 1

/-- Ends the run with an error message and a word on how the command is called. -/
def failWithUsage {α : Type} (message : String) : Run m α := do
  Run.printErrorLine (← Run.painted .error ("error: " ++ message))
  stopWithUsage

/-- Goes on with what an inspection of the entry file yields. -/
def follow {α : Type} (entry source : String) (inspection : Inspection α) : Run m α := do
  let colored := (← read).colored
  let onBroken (e : InternalError) : Run m Unit := do
    Run.log .error ("name analysis aborted on " ++ entry)
    Run.printErrorLine (← Run.painted .error ("internal error: " ++ e.message))
  Run.follow (Diagnostic.excerpt colored source) onBroken inspection

variable [FileSystem m]

/-- The text of the entry file. -/
def sourceOf (entry : Path) : Run m String := do
  orFail "read" entry (← FileSystem.readText entry)

/-- The program in the entry file, resolved. -/
def analyzed (entry : Path) (source : String) : Run m Analysis := do
  let program ← follow entry source (inspectText entry source)
  follow entry source (inspectNames entry program)

/-- Checks the entry file. -/
def check (entry : Path) : Run m Unit := do
  let _ ← analyzed entry (← sourceOf entry)

/-- Prints the program in the entry file, which is resolved only for annotations. -/
def unparse (entry : Path) (annotate : Bool) : Run m Unit := do
  let source ← sourceOf entry
  match annotate with
  | true =>
    let analysis ← analyzed entry source
    Run.print (analysis.program.printAnnotated analysis.table)
  | false =>
    let program ← follow entry source (inspectText entry source)
    Run.print program.print

/-- Whether names are annotated: the command line, the environment and the manifest can ask for it. -/
def annotates (project : Project) (options : Options) : Run m Bool := do
  if options.annotate then return true
  let wanted := ((← read).env.flag? "unparse" "annotate").or project.manifest.annotate
  return wanted.getD false

/-- The tag in front of the messages of a task. What unparse prints stands alone. -/
def tag? : Task → Option String
  | .check => some "[check]"
  | .build => some "[build]"
  | .unparse => none

/-- Says how a task goes. -/
def sayStep (task : Task) (message : String) : Run m Unit := do
  match tag? task with
  | none => return ()
  | some tag => Run.printErrorLine ((← Run.painted .header tag) ++ " " ++ message)

/-- Builds the program in the entry file. -/
def build (project : Project) (options : Options) (entry : Path) : Run m Unit := do
  let directory ← project.outDir
  match options.clean with
  | true => clean directory
  | false =>
    let source ← sourceOf entry
    let analysis ← analyzed entry source
    let metadata := Metadata.describe (← read).toolchain entry source
    match ← isUpToDate directory metadata with
    | true => sayStep .build "up to date"
    | false =>
      store directory analysis metadata
      sayStep .build ("wrote " ++ directory.join programName)

/-- Does a task and says how it went. -/
def concluded (task : Task) (work : Run m Unit) : Run m Unit := do
  tryCatch work fun code => do
    sayStep task "failed"
    Run.stop code
  sayStep task "ok"

/-- Does a task with the project and the entry file that the options mean. -/
def perform (task : Task) (options : Options) : Run m Unit := do
  let project ← load options
  let entry ← project.entry options
  Run.log .info ("entry: " ++ entry)
  concluded task <|
    match task with
    | .check => check entry
    | .unparse => do unparse entry (← project.annotates options)
    | .build => project.build options entry

/-- The command. -/
def command (words : List String) : Run m Unit :=
  Run.withColor .auto do
    match words with
    | [] => stopWithUsage
    | first :: rest =>
      match Task.ofWord? first with
      | none => failWithUsage ("unknown command: " ++ first)
      | some task =>
        let projects ← rest.filterM isProject
        match Options.ofWords task (· ∈ projects) rest with
        | .error issue => failWithUsage issue.message
        | .ok options => Run.withColor (options.color.getD .auto) (perform task options)

end Namescope.Project
