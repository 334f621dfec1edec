import Namescope.Files.Disk
import Namescope.Project.Command
import Namescope.Proofs.Command.InternalErrors
import Namescope.SingleFile.Command
/-!
# Runs on a disk

A part of a run is started with what is printed so far and a disk, and it leaves both with a value or an exit code.
Parts that follow one another are run one after the other. The two commands inspect a text in the same way and differ
in how they show what is found.
-/
namespace Namescope

namespace Transcript

/-- The transcript with more on the error stream. -/
def addErr (t : Transcript) (text : String) : Transcript := { t with err := t.err ++ text }

/-- The transcript with more on the output stream. -/
def addOut (t : Transcript) (text : String) : Transcript := { t with out := t.out ++ text }

@[simp] theorem addOut_empty (t : Transcript) : t.addOut "" = t := by
  simp [addOut]

@[simp] theorem addErr_addErr (t : Transcript) (a b : String) : (t.addErr a).addErr b = t.addErr (a ++ b) := by
  simp [addErr, String.append_assoc]

@[simp] theorem addErr_empty (t : Transcript) : t.addErr "" = t := by
  simp [addErr]

end Transcript

namespace Run

variable {α β : Type}

/-- What a part of a run ends with, started after a transcript on a disk. -/
def on (x : Run (StateM Disk) α) (s : Surroundings) (t : Transcript) (disk : Disk) :
    (Except ExitCode α × Transcript) × Disk :=
  (((ReaderT.run x s).run).run t).run disk

section
variable {s : Surroundings} {t t' : Transcript} {disk disk' : Disk}

@[simp] theorem on_pure (a : α) : (pure a : Run (StateM Disk) α).on s t disk = ((.ok a, t), disk) := rfl

@[simp] theorem on_stop (code : ExitCode) :
    (stop code : Run (StateM Disk) α).on s t disk = ((.error code, t), disk) := rfl

@[simp] theorem on_printErrorLine (line : String) :
    (printErrorLine line : Run (StateM Disk) Unit).on s t disk = ((.ok (), t.addErr (line ++ "\n")), disk) := rfl

@[simp] theorem on_read : (read : Run (StateM Disk) Surroundings).on s t disk = ((.ok s, t), disk) := rfl

@[simp] theorem on_log (level : LogLevel) (message : String) :
    (log level message : Run (StateM Disk) Unit).on s t disk = ((.ok (), t.addErr (s.env.log level message)), disk) :=
  rfl

@[simp] theorem on_withColor (choice : ColorChoice) (x : Run (StateM Disk) α) :
    (withColor choice x).on s t disk = x.on { s with colored := choice.isOn s.env s.terminal } t disk := rfl

theorem on_isPresent (path : Path) :
    (FileSystem.isPresent path : Run (StateM Disk) Bool).on s t disk = ((.ok (disk.find? path).isSome, t), disk) := rfl

theorem on_isDirectory (path : Path) :
    (FileSystem.isDirectory path : Run (StateM Disk) Bool).on s t disk =
      ((.ok (disk.find? path = some .directory : Bool), t), disk) := rfl

theorem on_currentDirectory :
    (FileSystem.currentDirectory : Run (StateM Disk) (Except FileError Path)).on s t disk =
      ((.ok disk.currentDirectory, t), disk) := rfl

theorem on_readBytes (path : Path) :
    (FileSystem.read path : Run (StateM Disk) (Except FileError Bytes)).on s t disk =
      ((.ok (disk.read path), t), disk) := rfl

/-- Two parts are run one after the other, unless the first one stops the run. -/
theorem on_bind (x : Run (StateM Disk) α) (f : α → Run (StateM Disk) β) :
    (x >>= f).on s t disk =
      match x.on s t disk with
      | ((.ok a, t'), disk') => (f a).on s t' disk'
      | ((.error code, t'), disk') => ((.error code, t'), disk') := by
  unfold on
  rw [ReaderT.run_bind, ExceptT.run_bind, StateT.run_bind, StateT.run_bind]
  rcases ((ReaderT.run x s).run.run t).run disk with ⟨⟨code | a, t'⟩, disk'⟩ <;> rfl

/-- After a part that gives a value the run goes on with it. -/
theorem on_bind_ok {x : Run (StateM Disk) α} {f : α → Run (StateM Disk) β} {a : α}
    (h : x.on s t disk = ((.ok a, t'), disk')) : (x >>= f).on s t disk = (f a).on s t' disk' := by
  rw [on_bind, h]

/-- After a part that stops the run nothing is done. -/
theorem on_bind_error {x : Run (StateM Disk) α} {f : α → Run (StateM Disk) β} {code : ExitCode}
    (h : x.on s t disk = ((.error code, t'), disk')) : (x >>= f).on s t disk = ((.error code, t'), disk') := by
  rw [on_bind, h]

/-- What is done about a stopped part. -/
theorem on_tryCatch (x : Run (StateM Disk) α) (handle : ExitCode → Run (StateM Disk) α) :
    (tryCatch x handle).on s t disk =
      match x.on s t disk with
      | ((.ok a, t'), disk') => ((.ok a, t'), disk')
      | ((.error code, t'), disk') => (handle code).on s t' disk' := by
  have e : (ReaderT.run (tryCatch x handle) s).run =
      (tryCatch (ReaderT.run x s) fun code => ReaderT.run (handle code) s).run := rfl
  unfold on
  rw [e, ExceptT.run_tryCatch, StateT.run_bind, StateT.run_bind]
  rcases ((ReaderT.run x s).run.run t).run disk with ⟨⟨code | a, t'⟩, disk'⟩ <;> rfl

/-- A whole run on a disk: its exit code, what it prints and the disk that it leaves. -/
def execute (x : Run (StateM Disk) Unit) (s : Surroundings) (disk : Disk) : (ExitCode × Transcript) × Disk :=
  (x.outcome s : StateM Disk (ExitCode × Transcript)).run disk

/-- A whole run ends with exit code 0 or with the one that stopped it. -/
theorem execute_eq (x : Run (StateM Disk) Unit) :
    x.execute s disk =
      match x.on s {} disk with
      | ((.ok (), t'), disk') => ((0, t'), disk')
      | ((.error code, t'), disk') => ((code, t'), disk') := by
  unfold execute outcome on
  rw [StateT.run_bind]
  rcases ((ReaderT.run x s).run.run {}).run disk with ⟨⟨code | a, t'⟩, disk'⟩ <;> rfl

theorem disk_of_execute (x : Run (StateM Disk) Unit) : (x.execute s disk).2 = (x.on s {} disk).2 := by
  rw [execute_eq]
  rcases x.on s {} disk with ⟨⟨code | a, t'⟩, disk'⟩ <;> rfl

end

end Run

/-! ## Texts of files -/

namespace Disk

/-- The text of a file. -/
def text (disk : Disk) (path : Path) : Except FileError String :=
  match disk.read path with
  | .error e => .error e
  | .ok bytes =>
    match bytes.toText? with
    | some text => .ok text
    | none => .error .notText

theorem text_eq_ok {disk : Disk} {path : Path} {text : String} :
    disk.text path = .ok text ↔ ∃ bytes, disk.read path = .ok bytes ∧ bytes.toText? = some text := by
  unfold Disk.text
  cases disk.read path with
  | error e => simp
  | ok bytes => cases h : bytes.toText? <;> simp [h]

end Disk

theorem Run.on_readText {s : Surroundings} {t : Transcript} {disk : Disk} (path : Path) :
    (FileSystem.readText path : Run (StateM Disk) (Except FileError String)).on s t disk =
      ((.ok (disk.text path), t), disk) := by
  rw [FileSystem.readText, on_bind_ok (on_readBytes path), Disk.text]
  cases disk.read path with
  | error e => rfl
  | ok bytes =>
    dsimp only
    cases bytes.toText? <;> rfl

/-! ## Inspections -/

namespace Report

@[simp] theorem hasErrors_withPath (report : Report) (path : String) :
    (report.withPath path).hasErrors = report.hasErrors := by
  simp [hasErrors, withPath, List.any_map, Function.comp_def]

end Report

/-- The program in a text that reads without errors. -/
def Program.ofText? (source : String) : Option Program :=
  if (parse source).report.hasErrors then none else some (parse source).program

/-- The analysis of a program without errors. -/
def Analysis.ofProgram? (p : Program) : Option Analysis :=
  match analyze p with
  | .ok analysis => if analysis.report.hasErrors then none else some analysis
  | .error _ => none

/-- The analysis of a text without errors. -/
def Analysis.ofText? (source : String) : Option Analysis :=
  (Program.ofText? source).bind Analysis.ofProgram?

/-- What a remark prints, given how a command shows diagnostics. -/
def Remark.text (env : Environment) (render : Diagnostic → String) : Remark → String
  | .diagnostic d => render d
  | .log level message => env.log level message

/-- What remarks print one after the other. -/
def said (env : Environment) (render : Diagnostic → String) (remarks : List Remark) : String :=
  String.join (remarks.map (Remark.text env render))

theorem said_append (env : Environment) (render : Diagnostic → String) (before after : List Remark) :
    said env render (before ++ after) = said env render before ++ said env render after := by
  simp [said]

namespace Inspection

variable {α β : Type}

/-- A second inspection of what the first one yields. -/
def andThen (first : Inspection α) (next : α → Inspection β) : Inspection β :=
  match first.result with
  | .ok a => ⟨first.remarks ++ (next a).remarks, (next a).result⟩
  | .error e => ⟨first.remarks, .error e⟩

/-- A text, read and resolved. -/
def ofText (path source : String) : Inspection Analysis :=
  (inspectText path source).andThen (inspectNames path)

/-- An inspection that fails rejects the text and yields a value otherwise. -/
def Yields (inspection : Inspection α) (a? : Option α) : Prop :=
  inspection.result = match a? with
    | some a => .ok a
    | none => .error .rejected

theorem yields_inspectText (path source : String) :
    (inspectText path source).Yields (Program.ofText? source) := by
  unfold Yields inspectText conclude Program.ofText?
  dsimp only
  rw [Report.hasErrors_withPath]
  cases (parse source).report.hasErrors <;> rfl

theorem yields_inspectNames (path : String) (p : Program) :
    (inspectNames path p).Yields (Analysis.ofProgram? p) := by
  obtain ⟨analysis, -, hanalyze, -⟩ := analyze_steps p
  unfold Yields inspectNames conclude Analysis.ofProgram?
  rw [hanalyze]
  dsimp only
  rw [Report.hasErrors_withPath]
  cases analysis.report.hasErrors <;> rfl

end Inspection

namespace Run

variable {α : Type} {s : Surroundings} {t : Transcript} {disk : Disk} {render : Diagnostic → String}

theorem on_say (remark : Remark) :
    (say render remark : Run (StateM Disk) Unit).on s t disk =
      ((.ok (), t.addErr (remark.text s.env render)), disk) := by
  cases remark <;> rfl

theorem on_sayAll (remarks : List Remark) :
    (remarks.forM (say render) : Run (StateM Disk) Unit).on s t disk =
      ((.ok (), t.addErr (said s.env render remarks)), disk) := by
  induction remarks generalizing t with
  | nil => simp [said, List.forM]
  | cons remark remarks ih =>
    change (say render remark >>= fun _ => remarks.forM (say render)).on s t disk = _
    rw [on_bind_ok (on_say remark), ih, Transcript.addErr_addErr]
    simp [said]

/-- The part of a run prints what an inspection finds and gives its value, or stops with exit code 1. -/
def Tells (s : Surroundings) (render : Diagnostic → String) (inspection : Inspection α) (a? : Option α)
    (x : Run (StateM Disk) α) : Prop :=
  ∀ t disk, x.on s t disk =
    ((a?.elim (.error 1) .ok, t.addErr (said s.env render inspection.remarks)), disk)

theorem tells_follow {inspection : Inspection α} {a? : Option α} (h : inspection.Yields a?)
    (onBroken : InternalError → Run (StateM Disk) Unit) :
    Tells s render inspection a? (follow render onBroken inspection) := by
  intro t disk
  rw [follow, on_bind_ok (on_sayAll inspection.remarks), h]
  cases a? <;> rfl

/-- Two inspections, one after the other, print what they find together. -/
theorem Tells.andThen {β : Type} {first : Inspection α} {next : α → Inspection β} {a? : Option α}
    {f : α → Option β} {x : Run (StateM Disk) α} {g : α → Run (StateM Disk) β} (h : first.Yields a?)
    (hx : Tells s render first a? x) (hg : ∀ a, a? = some a → Tells s render (next a) (f a) (g a)) :
    Tells s render (first.andThen next) (a?.bind f) (x >>= g) := by
  intro t disk
  have hfirst := hx t disk
  unfold Inspection.Yields at h
  cases a? with
  | none =>
    rw [on_bind_error hfirst, Inspection.andThen, h]
    rfl
  | some a =>
    rw [on_bind_ok hfirst, hg a rfl, Transcript.addErr_addErr, ← said_append, Inspection.andThen, h]
    rfl

/-- How a run ends that prints a text at the end, or stops because there is none. -/
def ended (text? : Option String) (t : Transcript) : Except ExitCode Unit × Transcript :=
  match text? with
  | some text => (.ok (), t.addOut text)
  | none => (.error 1, t)

/-- The run prints a text made of what an inspection yields. -/
theorem Tells.on_printing {inspection : Inspection α} {a? : Option α} {x : Run (StateM Disk) α}
    (h : Tells s render inspection a? x) {next : α → Run (StateM Disk) Unit} {text : α → String}
    (hnext : ∀ a t disk, (next a).on s t disk = ((.ok (), t.addOut (text a)), disk)) :
    (x >>= next).on s t disk = (ended (a?.map text) (t.addErr (said s.env render inspection.remarks)), disk) := by
  have hx := h t disk
  cases a? with
  | none => exact on_bind_error hx
  | some a =>
    rw [on_bind_ok hx, hnext]
    rfl

end Run

end Namescope
