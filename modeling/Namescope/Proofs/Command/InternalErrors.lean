import Namescope.Files.Disk
import Namescope.Project.Command
import Namescope.Proofs.Command.Stops
import Namescope.Proofs.Naming.Trees
import Namescope.SingleFile.Command
/-!
# Internal errors do not occur

One resolver may be given programs one after the other: it resolves each of them and always ends at the
global scope. So a command never gets to the exit code that is set aside for internal errors; a run that
is stopped ends with exit code 1.
-/
namespace Namescope

/-! ## The commands -/

theorem inspectNames_result_ne_broken (path : String) (p : Program) (e : InternalError) :
    (inspectNames path p).result ≠ .error (.broken e) := by
  obtain ⟨a, -, ha, -⟩ := analyze_steps p
  unfold inspectNames Inspection.conclude
  rw [ha]
  dsimp only
  split <;> simp

theorem inspectText_result_ne_broken (path source : String) (e : InternalError) :
    (inspectText path source).result ≠ .error (.broken e) := by
  unfold inspectText Inspection.conclude
  dsimp only
  split <;> simp

namespace Run.Fair
variable {m : Type → Type} [Monad m] [LawfulMonad m]

theorem printError (text : String) : Fair (printError text : Run m Unit) := .modify _

theorem print (text : String) : Fair (print text : Run m Unit) := .modify _

theorem printErrorLine (line : String) : Fair (printErrorLine line : Run m Unit) := .modify _

theorem painted (style : Style) (text : String) : Fair (painted style text : Run m String) :=
  .bind .read fun _ => .pure _

theorem log (level : LogLevel) (message : String) : Fair (log level message : Run m Unit) :=
  .bind .read fun _ => .printError _

/-- An inspection that meets no internal error goes on or ends with exit code 1. -/
theorem follow {α : Type} {showDiagnostic : Diagnostic → String} {onBroken : InternalError → Run m Unit}
    {inspection : Inspection α} (h : ∀ e, inspection.result ≠ .error (.broken e)) :
    Fair (follow showDiagnostic onBroken inspection) := by
  refine .bind (Fair.forM _ (fun remark => ?_) _) fun _ => ?_
  · cases remark with
    | diagnostic d => exact .printError _
    | log level message => exact .log level message
  · split
    · exact .pure _
    · exact .stop
    · rename_i e he
      exact absurd he (h e)

end Run.Fair

open Run (Fair)

/-! ### Files -/

namespace FileSystem
variable {m : Type → Type} [Monad m] [LawfulMonad m] [FileSystem m]

theorem fair_readText (path : Path) : Fair (readText path : Run m (Except FileError String)) := by
  unfold readText
  refine .bind (.ask _) fun content => ?_
  cases content with
  | error e => exact .pure _
  | ok bytes =>
    dsimp only
    split <;> exact .pure _

theorem fair_unlessDirectory (path : Path) (failure : FileError) :
    Fair (unlessDirectory path failure : Run m (Except FileError Unit)) := by
  refine .bind (.ask _) fun there => ?_
  cases there <;> exact .pure _

theorem fair_createNested : ∀ paths : List Path,
    Fair (createNested paths : Run m (Except FileError Unit))
  | [] => .pure _
  | path :: outer => by
    unfold createNested
    split
    · exact .pure _
    · refine .bind (.ask _) fun created => ?_
      split
      · exact .pure _
      · refine .bind (fair_createNested outer) fun above => ?_
        split
        · exact .pure _
        · refine .bind (.ask _) fun again => ?_
          split
          · exact .pure _
          · exact fair_unlessDirectory _ _
      · exact fair_unlessDirectory _ _

end FileSystem

/-! ### The single file command -/

namespace SingleFile
variable {m : Type → Type} [Monad m] [LawfulMonad m]

theorem fair_stopWithUsage {α : Type} : Fair (stopWithUsage : Run m α) :=
  .bind (.printErrorLine _) fun _ => .stop

theorem fair_display (flags : Flags) (p : Program) (text : String) :
    Fair (display flags p text : Run m Unit) := by
  have hprint : Fair (if flags.print then Run.print text else pure () : Run m Unit) := by
    split
    · exact .print _
    · exact .pure _
  unfold display
  dsimp only
  split
  · exact .bind (.print _) fun _ => hprint
  · exact hprint

theorem fair_process (flags : Flags) (path source : String) :
    Fair (process flags path source : Run m Unit) := by
  unfold process
  refine .bind (.log _ _) fun _ => ?_
  refine .bind (.follow (inspectText_result_ne_broken path source)) fun p => ?_
  split
  · refine .bind (.follow (inspectNames_result_ne_broken path p)) fun analysis => ?_
    exact fair_display _ _ _
  · exact fair_display _ _ _

theorem fair_command [FileSystem m] (words : List String) : Fair (command words : Run m Unit) := by
  unfold command
  refine .bind .read fun _ => ?_
  dsimp only
  split
  · exact .bind (.printErrorLine _) fun _ => fair_stopWithUsage
  · split
    · exact fair_stopWithUsage
    · refine .bind (FileSystem.fair_readText _) fun content => ?_
      split
      · exact .bind (.printErrorLine _) fun _ => .stop
      · exact fair_process _ _ _

end SingleFile

/-! ### The project command -/

namespace Project
variable {m : Type → Type} [Monad m] [LawfulMonad m]

theorem fair_stopWithUsage {α : Type} : Fair (stopWithUsage : Run m α) :=
  .bind (.painted _ _) fun _ => .bind (.printErrorLine _) fun _ => .stop

theorem fair_failWithUsage {α : Type} (message : String) : Fair (failWithUsage message : Run m α) :=
  .bind (.painted _ _) fun _ => .bind (.printErrorLine _) fun _ => fair_stopWithUsage

theorem fair_fail {α : Type} (message : String) : Fair (fail message : Run m α) :=
  .bind (.painted _ _) fun _ => .bind (.printErrorLine _) fun _ => .stop

theorem fair_orFail {α : Type} (doing : String) (path : Path) :
    ∀ result : Except FileError α, Fair (orFail doing path result : Run m α)
  | .ok value => .pure value
  | .error _ => fair_fail _

theorem fair_follow {α : Type} (entry source : String) {inspection : Inspection α}
    (h : ∀ e, inspection.result ≠ .error (.broken e)) :
    Fair (follow entry source inspection : Run m α) :=
  .bind .read fun _ => .follow h

theorem fair_sayStep (task : Task) (message : String) : Fair (sayStep task message : Run m Unit) := by
  unfold sayStep
  split
  · exact .pure _
  · exact .bind (.painted _ _) fun _ => .printErrorLine _

variable [FileSystem m]

theorem fair_workingDirectory : Fair (workingDirectory : Run m Path) := by
  refine .bind (.ask _) fun current => ?_
  cases current
  · exact fair_fail _
  · exact .pure _

theorem fair_isProject (path : Path) : Fair (isProject path : Run m Bool) := by
  refine .bind (.ask _) fun there => ?_
  cases there
  · exact .pure _
  · exact .ask _

theorem fair_nearestManifest? : ∀ paths : List Path, Fair (nearestManifest? paths : Run m (Option Path))
  | [] => .pure _
  | path :: more => by
    refine .bind (.ask _) fun there => ?_
    cases there
    · exact fair_nearestManifest? more
    · exact .pure _

theorem fair_manifestPath? (options : Options) :
    Fair (manifestPath? options : Run m (Option (Path × Option Path))) := by
  unfold manifestPath?
  split
  · refine .bind (.ask _) fun there => ?_
    cases there <;> exact .pure _
  · exact .bind fair_workingDirectory fun _ => .bind (fair_nearestManifest? _) fun _ => .pure _

theorem fair_load (options : Options) : Fair (load options : Run m Project) := by
  refine .bind (fair_manifestPath? options) fun found => ?_
  split
  · exact .pure _
  · refine .bind (FileSystem.fair_readText _) fun content => .bind (fair_orFail _ _ _) fun text => ?_
    refine .bind .read fun _ => ?_
    split
    · exact fair_fail _
    · exact .bind (.log _ _) fun _ => .pure _

theorem fair_baseDirectory (project : Project) : Fair (project.baseDirectory : Run m Path) := by
  unfold baseDirectory
  split
  · exact .pure _
  · exact fair_workingDirectory

theorem fair_entryDirectory (project : Project) (options : Options) :
    Fair (project.entryDirectory options : Run m Path) := by
  unfold entryDirectory
  split
  · exact fair_workingDirectory
  · exact fair_baseDirectory project

theorem fair_entry (project : Project) (options : Options) :
    Fair (project.entry options : Run m Path) := by
  unfold entry
  split
  · exact fair_fail _
  · split
    · exact .pure _
    · exact .bind (fair_entryDirectory project options) fun _ => .pure _

theorem fair_sourceOf (entry : Path) : Fair (sourceOf entry : Run m String) :=
  .bind (FileSystem.fair_readText entry) fun _ => fair_orFail _ _ _

omit [FileSystem m] in
theorem fair_analyzed (entry : Path) (source : String) : Fair (analyzed entry source : Run m Analysis) :=
  .bind (fair_follow _ _ (inspectText_result_ne_broken entry source)) fun p =>
    fair_follow _ _ (inspectNames_result_ne_broken entry p)

theorem fair_unparse (entry : Path) (annotate : Bool) : Fair (unparse entry annotate : Run m Unit) := by
  refine .bind (fair_sourceOf entry) fun source => ?_
  cases annotate
  · exact .bind (fair_follow _ _ (inspectText_result_ne_broken entry source)) fun _ => .print _
  · exact .bind (fair_analyzed entry source) fun _ => .print _

omit [FileSystem m] in
theorem fair_annotates (project : Project) (options : Options) :
    Fair (project.annotates options : Run m Bool) := by
  unfold annotates
  split
  · exact .pure _
  · exact .bind .read fun _ => .pure _

theorem fair_clean (directory : Path) : Fair (clean directory : Run m Unit) := by
  refine .bind (.ask _) fun there => ?_
  cases there
  · exact .pure _
  · exact .bind (.ask _) fun _ => fair_orFail _ _ _

theorem fair_isUpToDate (directory : Path) (metadata : Metadata) :
    Fair (isUpToDate directory metadata : Run m Bool) := by
  refine .bind ?_ fun stored => .bind (.ask _) fun there => ?_
  · unfold storedMetadata?
    refine .bind (.ask _) fun content => ?_
    split
    · exact .pure _
    · split
      · exact .pure _
      · exact .pure _
      · exact .bind (.log _ _) fun _ => .pure _
  · cases there <;> exact .pure _

theorem fair_store (directory : Path) (analysis : Analysis) (metadata : Metadata) :
    Fair (store directory analysis metadata : Run m Unit) := by
  unfold store
  refine .bind (FileSystem.fair_createNested _) fun _ => .bind (fair_orFail _ _ _) fun _ => ?_
  refine .bind (.ask _) fun _ => .bind (fair_orFail _ _ _) fun _ => ?_
  exact .bind (.ask _) fun _ => fair_orFail _ _ _

theorem fair_build (project : Project) (options : Options) (entry : Path) :
    Fair (project.build options entry : Run m Unit) := by
  have hdirectory : Fair (project.outDir : Run m Path) :=
    .bind .read fun _ => .bind (fair_baseDirectory project) fun _ => .pure _
  refine .bind hdirectory fun directory => ?_
  split
  · exact fair_clean directory
  · refine .bind (fair_sourceOf entry) fun source => .bind (fair_analyzed entry source) fun analysis => ?_
    refine .bind .read fun _ => .bind (fair_isUpToDate _ _) fun current => ?_
    cases current
    · exact .bind (fair_store _ _ _) fun _ => fair_sayStep _ _
    · exact fair_sayStep _ _

omit [FileSystem m] in
theorem fair_concluded (task : Task) {work : Run m Unit} (h : Fair work) : Fair (concluded task work) := by
  refine .bind (.tryCatch h ?_) fun _ => fair_sayStep task "ok"
  -- a failure is announced and then goes on as the same failure
  exact .bind (fair_sayStep task "failed") fun _ => .stop

theorem fair_perform (task : Task) (options : Options) : Fair (perform task options : Run m Unit) := by
  refine .bind (fair_load options) fun project => .bind (fair_entry project options) fun entry => ?_
  refine .bind (.log _ _) fun _ => fair_concluded task ?_
  cases task with
  | check => exact .bind (fair_sourceOf entry) fun _ => .bind (fair_analyzed entry _) fun _ => .pure _
  | unparse => exact .bind (fair_annotates project options) fun _ => fair_unparse entry _
  | build => exact fair_build project options entry

theorem fair_command (words : List String) : Fair (command words : Run m Unit) := by
  refine .withColor .auto ?_
  split
  · exact fair_stopWithUsage
  · split
    · exact fair_failWithUsage _
    · refine .bind (.filterM _ fair_isProject _) fun projects => ?_
      split
      · exact fair_failWithUsage _
      · exact .withColor _ (fair_perform _ _)

end Project

/-! ## Exit codes -/

/-- On a disk in memory both commands end with exit code 0 or 1. -/
theorem exitCode_on_disk (surroundings : Surroundings) (words : List String) (disk : Disk) :
    let single := ((SingleFile.command words).outcome surroundings : StateM Disk _).run disk
    let project := ((Project.command words).outcome surroundings : StateM Disk _).run disk
    (single.1.1 = 0 ∨ single.1.1 = 1) ∧ (project.1.1 = 0 ∨ project.1.1 = 1) := by
  constructor
  · exact ((SingleFile.fair_command words).outcome surroundings).run disk
  · exact ((Project.fair_command words).outcome surroundings).run disk

/-- Programs resolved one after the other from the start, however many and whatever they are, never meet
an internal error, and only the global scope is open after the last of them. No run of either command, on
any file system, ends with exit code 101. -/
theorem internal_errors_unreachable :
    (∀ ps : List Program, ∃ ps' r, (Resolve.programs ps).run {} = .ok (ps', r) ∧ r.scopes.depth = 1) ∧
      ∀ (m : Type → Type) [Monad m] [LawfulMonad m] [FileSystem m] (surroundings : Surroundings)
        (words : List String),
        Always (·.1 ≠ 101) ((SingleFile.command words).outcome surroundings : m (ExitCode × Transcript)) ∧
          Always (·.1 ≠ 101) ((Project.command words).outcome surroundings : m (ExitCode × Transcript)) := by
  have hcode : ∀ r : ExitCode × Transcript, r.1 = 0 ∨ r.1 = 1 → r.1 ≠ 101 := by
    rintro r (h | h) <;> rw [h] <;> decide
  refine ⟨fun ps => ?_, fun m _ _ _ surroundings words => ⟨?_, ?_⟩⟩
  · obtain ⟨ps', S', fs, hy, -, hout⟩ := Resolve.yields_programs ps ScopeStack.sound_empty
    obtain ⟨events, e⟩ := hy [] []
    refine ⟨ps', _, e, ?_⟩
    simp [ScopeStack.depth, ScopeStack.scopes, hout]
  · exact ((SingleFile.fair_command words).outcome surroundings).mono hcode
  · exact ((Project.fair_command words).outcome surroundings).mono hcode

end Namescope
