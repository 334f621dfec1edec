import Mathlib.Data.List.Forall2
import Namescope.Proofs.Command.Plans
/-!
# The two commands agree

What the single file command and the project command are both asked for, to check a file or to print it, they do alike
when there is no project: the exit code and the output are the same, and both show the same diagnostics, each in its
own form.
-/
namespace Namescope

open Run

theorem Disk.toOption_text_join {disk : Disk} (h : disk.Grounded) (path : Path) :
    (disk.text (Path.join disk.currentPath path)).toOption = (disk.text path).toOption := by
  have hread := read_join_currentPath h path
  unfold text
  cases hpath : disk.read path with
  | ok bytes => rw [(hread bytes).2 hpath]
  | error e =>
    cases hjoin : disk.read (Path.join disk.currentPath path) with
    | ok bytes => rw [(hread bytes).1 hjoin] at hpath; cases hpath
    | error e => rfl

/-- What both commands can be asked for: to check a file or to print it, with annotations or as the environment
has it. -/
inductive Request where
  | check
  | print (annotate : Bool)
  deriving DecidableEq

namespace Request

/-- The words for the single file command. -/
def singleWords (file : String) : Request → List String
  | check => ["--check", file]
  | print false => ["--unparse", file]
  | print true => ["--unparse", "--annotate", file]

/-- The words for the project command. -/
def projectWords (file : String) : Request → List String
  | check => ["check", "--file", file]
  | print false => ["unparse", "--file", file]
  | print true => ["unparse", "--annotate", "--file", file]

/-- Whether names are resolved for the request. -/
def resolves (env : Environment) : Request → Bool
  | check => true
  | print annotate => annotate || (env.flag? "unparse" "annotate").getD false

/-- What is said about a text. -/
def remarks (env : Environment) (path source : String) (r : Request) : List Remark :=
  if r.resolves env then (Inspection.ofText path source).remarks else (inspectText path source).remarks

/-- What is printed for a text without errors. -/
def output? (env : Environment) (source : String) (r : Request) : Option String :=
  match r, r.resolves env with
  | check, _ => (Analysis.ofText? source).map fun _ => ""
  | print _, true => (Analysis.ofText? source).map fun a => a.program.printAnnotated a.table
  | print _, false => (Program.ofText? source).map Program.print

/-! ## The single file command -/

/-- The flags that the words stand for, where `always` is what the environment says on annotations. -/
def flags (always : Bool) (file : String) : Request → Flags
  | check => { check := true, annotate := always, path := some file }
  | print annotate => { print := true, annotate := annotate || always, path := some file }

/-- A file is taken as the last word. -/
theorem foldlM_take_file {flags : Flags} {file : String} (h : looksLikeOption file = false)
    (hpath : flags.path = none) : [file].foldlM Flags.take flags = .ok { flags with path := some file } := by
  have htake : flags.take file = .ok { flags with path := some file } := by
    unfold Flags.take
    split
    · cases h
    · cases h
    · cases h
    · cases h
    · rw [h, hpath]
      rfl
  rw [List.foldlM_cons, htake]
  rfl

theorem ofWords_singleWords {file : String} (h : looksLikeOption file = false) (always : Bool) (r : Request) :
    Flags.ofWords always (r.singleWords file) = .ok (r.flags always file) := by
  match r with
  | check => exact foldlM_take_file h (by rfl)
  | print false => exact foldlM_take_file h (by rfl)
  | print true => exact foldlM_take_file h (by rfl)

/-- A diagnostic as the single file command shows it. -/
def line (d : Diagnostic) : String := d.render ++ "\n"

variable {s : Surroundings} {t : Transcript} {disk : Disk}

theorem on_display {flags : Flags} (hdump : flags.dump = false) (p : Program) (text : String) :
    (SingleFile.display flags p text : Run (StateM Disk) Unit).on s t disk =
      ((.ok (), t.addOut (if flags.print then text else "")), disk) := by
  rw [SingleFile.display, hdump]
  cases flags.print
  · simp [on_pure]
  · rfl

/-- With name resolution the program is shown as it was resolved. -/
theorem on_process_resolved {flags : Flags} (hdump : flags.dump = false) (hresolves : flags.resolves = true)
    (file source : String) :
    (SingleFile.process flags file source).on s t disk =
      (ended ((Analysis.ofText? source).map fun a => if flags.print then
          (if flags.annotate then a.program.printAnnotated a.table else a.program.print) else "")
        (t.addErr (s.env.log .info ("parsing " ++ file) ++
          said s.env line (Inspection.ofText file source).remarks)), disk) := by
  have htext : Tells s line (inspectText file source) (Program.ofText? source)
      (SingleFile.follow (inspectText file source)) := tells_follow (Inspection.yields_inspectText file source) _
  have hnames (p : Program) : Tells s line (inspectNames file p) (Analysis.ofProgram? p)
      (SingleFile.follow (inspectNames file p)) := tells_follow (Inspection.yields_inspectNames file p) _
  have htells := htext.andThen (Inspection.yields_inspectText file source) fun p _ => hnames p
  rw [SingleFile.process, on_bind_ok (on_log _ _), hresolves, ← Transcript.addErr_addErr]
  simp only [if_true]
  rw [← bind_assoc]
  exact htells.on_printing fun a t disk => on_display hdump _ _

/-- Without name resolution the program is shown as it was read. -/
theorem on_process_read {flags : Flags} (hdump : flags.dump = false) (hresolves : flags.resolves = false)
    (file source : String) :
    (SingleFile.process flags file source).on s t disk =
      (ended ((Program.ofText? source).map fun p => if flags.print then p.print else "")
        (t.addErr (s.env.log .info ("parsing " ++ file) ++
          said s.env line (inspectText file source).remarks)), disk) := by
  have htext : Tells s line (inspectText file source) (Program.ofText? source)
      (SingleFile.follow (inspectText file source)) := tells_follow (Inspection.yields_inspectText file source) _
  rw [SingleFile.process, on_bind_ok (on_log _ _), hresolves, ← Transcript.addErr_addErr]
  exact htext.on_printing fun p t disk => on_display hdump _ _

theorem on_process (file source : String) (r : Request) :
    (SingleFile.process (r.flags ((s.env.flag? "unparse" "annotate").getD false) file) file source).on s t disk =
      (ended (r.output? s.env source) (t.addErr (s.env.log .info ("parsing " ++ file) ++
        said s.env line (r.remarks s.env file source))), disk) := by
  have hdump {always : Bool} : (r.flags always file).dump = false := by cases r <;> rfl
  cases r with
  | check => exact on_process_resolved hdump rfl file source
  | print annotate =>
    have hannotate : (flags ((s.env.flag? "unparse" "annotate").getD false) file (.print annotate)).annotate =
      resolves s.env (.print annotate) := rfl
    have hresolves : (flags ((s.env.flag? "unparse" "annotate").getD false) file (.print annotate)).resolves =
      resolves s.env (.print annotate) := rfl
    unfold output? remarks
    cases h : resolves s.env (.print annotate) with
    | true =>
      rw [on_process_resolved hdump (hresolves.trans h), hannotate, h]
      rfl
    | false =>
      rw [on_process_read hdump (hresolves.trans h)]
      rfl

/-- What the single file command prints before diagnostics. -/
def singleOpening (env : Environment) (disk : Disk) (file : Path) : String :=
  match disk.text file with
  | .ok _ => env.log .info ("parsing " ++ file)
  | .error e => "failed to read " ++ file ++ ": " ++ e.message ++ "\n"

/-- What is found in a file. -/
def found (env : Environment) (disk : Disk) (path : Path) (r : Request) : List Remark :=
  match disk.text path with
  | .ok source => r.remarks env path source
  | .error _ => []

/-- What is printed for a file, unless it cannot be read or has errors. -/
def printed? (env : Environment) (disk : Disk) (path : Path) (r : Request) : Option String :=
  (disk.text path).toOption.bind fun source => r.output? env source

theorem on_single {file : String} (h : looksLikeOption file = false) (r : Request) :
    (SingleFile.command (r.singleWords file)).on s t disk =
      (ended (r.printed? s.env disk file) (t.addErr (singleOpening s.env disk file ++
        said s.env line (r.found s.env disk file))), disk) := by
  have hpath {always : Bool} : (r.flags always file).path = some file := by cases r <;> rfl
  rw [SingleFile.command, on_bind_ok on_read]
  dsimp only
  rw [ofWords_singleWords h]
  dsimp only
  rw [hpath]
  dsimp only
  rw [on_bind_ok (on_readText file)]
  unfold singleOpening found printed?
  cases disk.text file with
  | ok source => exact on_process file source r
  | error e =>
    change _ = (ended none _, disk)
    simp [ended, said, on_bind]

/-! ## The project command -/

/-- The task that is asked for. -/
def task : Request → Task
  | check => .check
  | print _ => .unparse

/-- The options that the words stand for. -/
def options (file : String) : Request → Options
  | check => { entry := some file }
  | print annotate => { entry := some file, annotate }

theorem on_planned {file : String} (hcurrent : disk.currentDirectory = .ok disk.currentPath)
    (h : Project.NoManifest disk) (r : Request) :
    (Project.planned (r.projectWords file)).on s t disk =
      ((.ok ⟨r.task, r.options file, {}, Path.join disk.currentPath file, ColorChoice.auto.isOn s.env s.terminal⟩,
        t.addErr (s.env.log .info ("entry: " ++ Path.join disk.currentPath file))), disk) := by
  match r with
  | check => exact Project.on_planned rfl rfl rfl hcurrent h
  | print false => exact Project.on_planned rfl rfl rfl hcurrent h
  | print true => exact Project.on_planned rfl rfl rfl hcurrent h

/-- What the project command prints before diagnostics, once it has its plan. -/
def projectOpening (colored : Bool) (disk : Disk) (entry : Path) : String :=
  match disk.text entry with
  | .ok _ => ""
  | .error e => Project.failureLine colored "read" entry e

/-- A diagnostic as the project command shows it, with the text of the file beside it. -/
def excerpt (colored : Bool) (disk : Disk) (entry : Path) (d : Diagnostic) : String :=
  d.excerpt colored ((disk.text entry).toOption.getD "")

/-- What is done with the text of the entry file is all that is said, unless it cannot be read. -/
theorem on_entry {entry : Path} {r : Request} {work : String → Run (StateM Disk) Unit}
    (hwork : ∀ source t, (work source).on s t disk =
      (ended (r.output? s.env source) (t.addErr (said s.env (Diagnostic.excerpt s.colored source)
        (r.remarks s.env entry source))), disk)) :
    (Project.sourceOf entry >>= work).on s t disk =
      (ended (r.printed? s.env disk entry) (t.addErr (projectOpening s.colored disk entry ++
        said s.env (excerpt s.colored disk entry) (r.found s.env disk entry))), disk) := by
  have hsource : (Project.sourceOf entry : Run (StateM Disk) String).on s t disk = _ := Project.on_sourceOf entry
  have hexcerpt : excerpt s.colored disk entry =
    Diagnostic.excerpt s.colored ((disk.text entry).toOption.getD "") := rfl
  rw [hexcerpt]
  unfold projectOpening found printed?
  cases htext : disk.text entry with
  | error e =>
    rw [htext] at hsource
    rw [on_bind_error hsource]
    change _ = (ended none _, disk)
    simp [ended, said]
  | ok source =>
    rw [htext] at hsource
    rw [on_bind_ok hsource, hwork]
    change _ = (ended (r.output? s.env source) _, disk)
    simp [Except.toOption]

theorem on_check (entry : Path) :
    (Project.check entry).on s t disk =
      (ended (check.printed? s.env disk entry) (t.addErr (projectOpening s.colored disk entry ++
        said s.env (excerpt s.colored disk entry) (check.found s.env disk entry))), disk) := by
  refine on_entry fun source t => ?_
  exact (Project.tells_analyzed entry source).on_printing fun _ t _ => by rw [on_pure, Transcript.addOut_empty]

theorem on_unparse (entry : Path) (annotate : Bool) :
    (Project.unparse entry (resolves s.env (.print annotate))).on s t disk =
      (ended ((print annotate).printed? s.env disk entry) (t.addErr (projectOpening s.colored disk entry ++
        said s.env (excerpt s.colored disk entry) ((print annotate).found s.env disk entry))), disk) := by
  refine on_entry fun source t => ?_
  unfold output? remarks
  cases resolves s.env (.print annotate) with
  | true => exact (Project.tells_analyzed entry source).on_printing fun _ _ _ => rfl
  | false =>
    exact (Project.tells_follow entry source (Inspection.yields_inspectText entry source)).on_printing fun _ _ _ => rfl

theorem on_work (file entry : Path) (r : Request) (colored : Bool) :
    (Project.Plan.work ⟨r.task, r.options file, {}, entry, colored⟩).on s t disk =
      let t' := t.addErr (projectOpening s.colored disk entry ++
        said s.env (excerpt s.colored disk entry) (r.found s.env disk entry))
      match r.printed? s.env disk entry with
      | some text => ((.ok (), (t'.addOut text).addErr (Project.stepLine s.colored r.task "ok")), disk)
      | none => ((.error 1, t'.addErr (Project.stepLine s.colored r.task "failed")), disk) := by
  rw [Project.Plan.work, Project.on_concluded]
  cases r with
  | check =>
    dsimp only [task]
    rw [on_check]
    cases check.printed? s.env disk entry <;> rfl
  | print annotate =>
    have hannotates : (Project.annotates {} (options file (.print annotate)) : Run (StateM Disk) Bool).on s t disk =
        ((.ok (resolves s.env (.print annotate)), t), disk) := by
      rw [Project.annotates, resolves]
      cases annotate
      · change (do return (((← read).env.flag? "unparse" "annotate").or none).getD false :
          Run (StateM Disk) Bool).on s t disk = _
        rw [on_bind_ok on_read, Option.or_none]
        rfl
      · rfl
    dsimp only [task]
    rw [on_bind_ok hannotates, on_unparse]
    cases (print annotate).printed? s.env disk entry <;> rfl

/-! ## Both -/

/-- How a whole run ends that prints a text, or nothing because of errors. -/
def whole (text? : Option String) (err : String) : ExitCode × Transcript :=
  match text? with
  | some text => (0, ⟨text, err⟩)
  | none => (1, ⟨"", err⟩)

theorem single_outcome {file : String} (h : looksLikeOption file = false) (r : Request) :
    (SingleFile.command (r.singleWords file)).execute s disk =
      (whole (r.printed? s.env disk file) (singleOpening s.env disk file ++
        said s.env line (r.found s.env disk file)), disk) := by
  rw [execute_eq, on_single h]
  cases r.printed? s.env disk file <;> simp [ended, whole, Transcript.addErr, Transcript.addOut]

/-- The lines of the project command around what is found. -/
theorem project_outcome {file : String} (hcurrent : disk.currentDirectory = .ok disk.currentPath)
    (h : Project.NoManifest disk) (r : Request) :
    (Project.command (r.projectWords file)).execute s disk =
      let entry := Path.join disk.currentPath file
      let colored := ColorChoice.auto.isOn s.env s.terminal
      let last := if (r.printed? s.env disk entry).isSome then "ok" else "failed"
      (whole (r.printed? s.env disk entry) (s.env.log .info ("entry: " ++ entry) ++
        projectOpening colored disk entry ++ said s.env (excerpt colored disk entry) (r.found s.env disk entry) ++
        Project.stepLine colored r.task last), disk) := by
  rw [execute_eq, Project.carries_command, on_planned hcurrent h]
  dsimp only
  rw [on_work]
  dsimp only
  cases r.printed? s.env disk (Path.join disk.currentPath file) <;>
    simp [whole, Transcript.addErr, Transcript.addOut, String.append_assoc]

end Request

/-- Remarks that agree but for the path of the file. -/
def Remark.Alike : Remark → Remark → Prop
  | .diagnostic d, .diagnostic d' => d.severity = d'.severity ∧ d.message = d'.message ∧ d.span = d'.span
  | .log level message, .log level' message' => level = level' ∧ message = message'
  | _, _ => False

namespace Remark

theorem Alike.refl_log (level : LogLevel) (message : String) :
    Alike (.log level message) (.log level message) := ⟨rfl, rfl⟩

theorem alike_withPath (report : Report) (path path' : String) :
    List.Forall₂ Alike ((report.withPath path).map .diagnostic) ((report.withPath path').map .diagnostic) := by
  unfold Report.withPath
  rw [List.map_map, List.map_map, List.forall₂_map_left_iff, List.forall₂_map_right_iff, List.forall₂_same]
  exact fun d _ => ⟨rfl, rfl, rfl⟩

theorem alike_inspectText (path path' source : String) :
    List.Forall₂ Alike (inspectText path source).remarks (inspectText path' source).remarks :=
  alike_withPath _ path path'

theorem alike_inspectNames (path path' : String) (p : Program) :
    List.Forall₂ Alike (inspectNames path p).remarks (inspectNames path' p).remarks := by
  unfold inspectNames
  cases analyze p with
  | error e => exact .nil
  | ok analysis =>
    refine List.rel_append (List.rel_append ?_ (.cons (.refl_log _ _) .nil)) (alike_withPath _ path path')
    rw [List.forall₂_map_left_iff, List.forall₂_map_right_iff, List.forall₂_same]
    exact fun event _ => .refl_log _ _

/-- Two files with one text give rise to the same remarks. -/
theorem alike_ofText (path path' source : String) :
    List.Forall₂ Alike (Inspection.ofText path source).remarks (Inspection.ofText path' source).remarks := by
  have htext := alike_inspectText path path' source
  have hresult : (inspectText path' source).result = (inspectText path source).result :=
    (Inspection.yields_inspectText path' source).trans (Inspection.yields_inspectText path source).symm
  unfold Inspection.ofText Inspection.andThen
  rw [hresult]
  cases (inspectText path source).result with
  | error e => exact htext
  | ok p => exact List.rel_append htext (alike_inspectNames path path' p)

end Remark

namespace Request

theorem alike_remarks (env : Environment) (path path' source : String) (r : Request) :
    List.Forall₂ Remark.Alike (r.remarks env path source) (r.remarks env path' source) := by
  unfold remarks
  cases r.resolves env with
  | true => exact Remark.alike_ofText path path' source
  | false => exact Remark.alike_inspectText path path' source

theorem alike_found {disk : Disk} {path path' : Path}
    (h : (disk.text path').toOption = (disk.text path).toOption) (env : Environment) (r : Request) :
    List.Forall₂ Remark.Alike (r.found env disk path) (r.found env disk path') := by
  unfold found
  cases hpath : disk.text path with
  | ok source =>
    cases hpath' : disk.text path' with
    | ok source' =>
      obtain rfl : source' = source := by simpa [hpath, hpath', Except.toOption] using h
      exact alike_remarks env path path' source' r
    | error e => simp [hpath, hpath', Except.toOption] at h
  | error e =>
    cases hpath' : disk.text path' with
    | ok source' => simp [hpath, hpath', Except.toOption] at h
    | error e' => exact .nil

/-- A run of the single file command and one of the project command that agree: in exit code and output, and in what
they say about the file, each in its own form. -/
structure Agreement (r : Request) (disk : Disk) (file : Path) (one two : Surroundings)
    (first second : ExitCode × Transcript) : Prop where
  code : first.1 = second.1
  out : first.2.out = second.2.out
  quiet : first.1 ≠ 0 → first.2.out = ""
  alike : List.Forall₂ Remark.Alike (r.found one.env disk file)
    (r.found two.env disk (Path.join disk.currentPath file))
  first_err : first.2.err =
    singleOpening one.env disk file ++ said one.env line (r.found one.env disk file)
  second_err :
    let entry := Path.join disk.currentPath file
    let colored := ColorChoice.auto.isOn two.env two.terminal
    second.2.err = two.env.log .info ("entry: " ++ entry) ++ projectOpening colored disk entry ++
      said two.env (excerpt colored disk entry) (r.found two.env disk entry) ++
      Project.stepLine colored r.task (if second.1 = 0 then "ok" else "failed")

end Request

/-- Where no manifest is found, the two commands do alike what both can be asked for, whatever the file holds, readable
or not, and whatever the environment says. -/
theorem commands_agree {disk : Disk} (hdisk : disk.Grounded) (hmanifest : Project.NoManifest disk) {file : String}
    (hfile : looksLikeOption file = false) {one two : Surroundings} (henv : one.env = two.env) (r : Request) :
    r.Agreement disk file one two
      ((SingleFile.command (r.singleWords file)).execute one disk).1
      ((Project.command (r.projectWords file)).execute two disk).1 := by
  have htext := Disk.toOption_text_join hdisk file
  have hprinted : r.printed? two.env disk (Path.join disk.currentPath file) = r.printed? one.env disk file := by
    rw [Request.printed?, htext, ← henv]
    rfl
  have halike := Request.alike_found htext one.env r
  rw [Request.single_outcome hfile, Request.project_outcome hdisk.currentDirectory hmanifest]
  dsimp only
  rw [hprinted]
  cases r.printed? one.env disk file with
  | none => exact ⟨rfl, rfl, fun _ => rfl, henv ▸ halike, rfl, rfl⟩
  | some text => exact ⟨rfl, rfl, fun h => absurd rfl h, henv ▸ halike, rfl, rfl⟩

/-- A directory with one file, which is to be printed with annotations because the environment says so. -/
theorem commands_agree_on_annotated :
    let disk : Disk :=
      { nodes := [(["work"], .directory), (["work", "n.wb"], .file (Bytes.ofText "int n;"))], current := ["work"] }
    let s : Surroundings := { env := [("WUMBO_UNPARSE_ANNOTATE", "yes")], toolchain := ⟨"", "", ""⟩ }
    disk.Grounded ∧ Project.NoManifest disk ∧ looksLikeOption "n.wb" = false ∧
      (Request.print false).Agreement disk "n.wb" s s
        ((SingleFile.command ["--unparse", "n.wb"]).execute s disk).1
        ((Project.command ["unparse", "--file", "n.wb"]).execute s disk).1 := by
  intro disk s
  have hgrounded : disk.Grounded := by
    refine ⟨fun name hname => ?_, fun front hfront => ?_⟩
    · obtain rfl : name = "work" := by simpa [disk] using hname
      unfold Disk.IsName
      decide
    · obtain rfl | rfl : front = [] ∨ front = ["work"] := by
        obtain ⟨back, e⟩ := hfront
        cases front with
        | nil => exact .inl rfl
        | cons name more => simp_all [disk]
      · rfl
      · decide
  have hmanifest : Project.NoManifest disk := by
    unfold Project.NoManifest
    decide
  exact ⟨hgrounded, hmanifest, by decide, commands_agree hgrounded hmanifest (by decide) rfl (.print false)⟩

end Namescope
