import Namescope.Proofs.Command.Runs
import Namescope.Proofs.Files.Places
/-!
# Plans of the project command

Before it does anything, the project command finds out what its words ask for: a task, a project and an entry file.
This plan is made without a change to any file, and the rest of the run is the work on it.
-/
namespace Namescope.Project

open Run

/-! ## The plan and the work -/

/-- What the words of a command line ask for. -/
structure Plan where
  task : Task
  options : Options
  project : Project
  entry : Path
  colored : Bool
  deriving DecidableEq

section
variable {m : Type → Type} [Monad m] [FileSystem m]

/-- Finds out what a task with some options is about. -/
def planFor (task : Task) (options : Options) : Run m Plan :=
  Run.withColor (options.color.getD .auto) do
    let project ← load options
    let entry ← project.entry options
    Run.log .info ("entry: " ++ entry)
    return ⟨task, options, project, entry, (← read).colored⟩

/-- Finds out what the words ask for. -/
def planned (words : List String) : Run m Plan :=
  Run.withColor .auto do
    match words with
    | [] => stopWithUsage
    | first :: rest =>
      match Task.ofWord? first with
      | none => failWithUsage ("unknown command: " ++ first)
      | some task =>
        let projects ← rest.filterM isProject
        match Options.ofWords task (· ∈ projects) rest with
        | .error issue => failWithUsage issue.message
        | .ok options => planFor task options

/-- Does what a plan says. -/
def Plan.work (plan : Plan) : Run m Unit :=
  concluded plan.task <|
    match plan.task with
    | .check => check plan.entry
    | .unparse => do unparse plan.entry (← plan.project.annotates plan.options)
    | .build => plan.project.build plan.options plan.entry

end

section
variable {s : Surroundings} {t : Transcript} {disk : Disk}

/-- The second part of a run makes the plan that the first one makes, and then does the work. -/
def Carries (plan : Run (StateM Disk) Plan) (whole : Run (StateM Disk) Unit) : Prop :=
  ∀ s t disk, whole.on s t disk =
    match plan.on s t disk with
    | ((.ok plan, t'), disk') => plan.work.on { s with colored := plan.colored } t' disk'
    | ((.error code, t'), disk') => ((.error code, t'), disk')

theorem Carries.bind {α : Type} (x : Run (StateM Disk) α) {f : α → Run (StateM Disk) Plan}
    {g : α → Run (StateM Disk) Unit} (h : ∀ a, Carries (f a) (g a)) : Carries (x >>= f) (x >>= g) := by
  intro s t disk
  rw [on_bind, on_bind]
  rcases x.on s t disk with ⟨⟨code | a, t'⟩, disk'⟩
  · rfl
  · exact h a s t' disk'

theorem Carries.withColor {plan : Run (StateM Disk) Plan} {whole : Run (StateM Disk) Unit}
    (choice : ColorChoice) (h : Carries plan whole) :
    Carries (Run.withColor choice plan) (Run.withColor choice whole) :=
  fun _ _ _ => h _ _ _

/-- The command makes its plan and does the work. -/
theorem carries_command (words : List String) : Carries (planned words) (command words) := by
  refine .withColor .auto ?_
  cases words with
  | nil => exact fun _ _ _ => rfl
  | cons first rest =>
    dsimp only
    cases Task.ofWord? first with
    | none => exact fun _ _ _ => rfl
    | some task =>
      refine .bind _ fun projects => ?_
      cases Options.ofWords task (· ∈ projects) rest with
      | error issue => exact fun _ _ _ => rfl
      | ok options =>
        refine .withColor _ (.bind _ fun project => .bind _ fun entry => .bind _ fun _ => ?_)
        cases task <;> exact fun _ _ _ => rfl

/-! ## What is printed -/

/-- The line on an operation on a file that failed. -/
def failureLine (colored : Bool) (doing : String) (path : Path) (e : FileError) : String :=
  Style.error.paint colored ("error: " ++ ("failed to " ++ doing ++ " " ++ path ++ ": " ++ e.message)) ++ "\n"

/-- The line on how a task goes. -/
def stepLine (colored : Bool) (task : Task) (message : String) : String :=
  match tag? task with
  | none => ""
  | some tag => Style.header.paint colored tag ++ " " ++ message ++ "\n"

theorem on_sayStep (task : Task) (message : String) :
    (sayStep task message : Run (StateM Disk) Unit).on s t disk =
      ((.ok (), t.addErr (stepLine s.colored task message)), disk) := by
  unfold sayStep stepLine
  cases tag? task with
  | none => simp
  | some tag => rfl

/-- A task ends with a line on how it went. -/
theorem on_concluded (task : Task) (work : Run (StateM Disk) Unit) :
    (concluded task work).on s t disk =
      match work.on s t disk with
      | ((.ok (), t'), disk') => ((.ok (), t'.addErr (stepLine s.colored task "ok")), disk')
      | ((.error code, t'), disk') => ((.error code, t'.addErr (stepLine s.colored task "failed")), disk') := by
  unfold concluded
  rw [on_bind, on_tryCatch]
  rcases work.on s t disk with ⟨⟨code | a, t'⟩, disk'⟩
  · dsimp only
    rw [on_bind_ok (on_sayStep task "failed")]
    rfl
  · exact on_sayStep task "ok"

theorem on_orFail_ok {α : Type} (doing : String) (path : Path) (a : α) :
    (orFail doing path (.ok a) : Run (StateM Disk) α).on s t disk = ((.ok a, t), disk) := rfl

theorem on_orFail_error {α : Type} (doing : String) (path : Path) (e : FileError) :
    (orFail doing path (.error e) : Run (StateM Disk) α).on s t disk =
      ((.error 1, t.addErr (failureLine s.colored doing path e)), disk) := rfl

/-! ## The entry file -/

theorem on_sourceOf (entry : Path) :
    (sourceOf entry : Run (StateM Disk) String).on s t disk =
      match disk.text entry with
      | .ok source => ((.ok source, t), disk)
      | .error e => ((.error 1, t.addErr (failureLine s.colored "read" entry e)), disk) := by
  rw [sourceOf, on_bind_ok (on_readText entry)]
  cases disk.text entry <;> rfl

theorem tells_follow {α : Type} (entry source : String) {inspection : Inspection α} {a? : Option α}
    (h : inspection.Yields a?) :
    Tells s (Diagnostic.excerpt s.colored source) inspection a? (follow entry source inspection) := by
  intro t disk
  rw [follow, on_bind_ok on_read]
  exact Run.tells_follow h _ t disk

theorem tells_analyzed (entry source : String) :
    Tells s (Diagnostic.excerpt s.colored source) (.ofText entry source) (Analysis.ofText? source)
      (analyzed entry source) :=
  .andThen (Inspection.yields_inspectText entry source)
    (tells_follow entry source (Inspection.yields_inspectText entry source))
    fun p _ => tells_follow entry source (Inspection.yields_inspectNames entry p)

/-! ## The current directory -/

/-- The line on a current directory that cannot be told. -/
def directoryLine (colored : Bool) (e : FileError) : String :=
  Style.error.paint colored ("error: " ++ ("cwd error: " ++ e.message)) ++ "\n"

/-- A run ends where its current directory cannot be told. -/
theorem on_workingDirectory :
    (workingDirectory : Run (StateM Disk) Path).on s t disk =
      match disk.currentDirectory with
      | .ok path => ((.ok path, t), disk)
      | .error e => ((.error 1, t.addErr (directoryLine s.colored e)), disk) := by
  rw [workingDirectory, on_bind_ok on_currentDirectory]
  cases disk.currentDirectory <;> rfl

/-- The directory of the project, or the current one. -/
def baseOn (disk : Disk) (project : Project) : Except FileError Path :=
  match project.directory with
  | some directory => .ok directory
  | none => disk.currentDirectory

theorem on_baseDirectory (project : Project) :
    (project.baseDirectory : Run (StateM Disk) Path).on s t disk =
      match baseOn disk project with
      | .ok path => ((.ok path, t), disk)
      | .error e => ((.error 1, t.addErr (directoryLine s.colored e)), disk) := by
  unfold baseDirectory baseOn
  cases project.directory with
  | some directory => rfl
  | none => exact on_workingDirectory

/-! ## Plans without a project -/

/-- Whether a path leads to a directory with a manifest. -/
def isProjectOn (disk : Disk) (path : Path) : Bool :=
  disk.find? path = some .directory && (disk.find? (Path.join path manifestName)).isSome

theorem on_isProject (path : Path) :
    (isProject path : Run (StateM Disk) Bool).on s t disk = ((.ok (isProjectOn disk path), t), disk) := by
  rw [isProject, on_bind_ok (on_isDirectory path), isProjectOn]
  cases decide (disk.find? path = some .directory) <;> rfl

theorem on_projects (words : List String) :
    (words.filterM isProject : Run (StateM Disk) (List String)).on s t disk =
      ((.ok (words.filter (isProjectOn disk)), t), disk) := by
  have general (kept : List String) : (words.filterAuxM isProject kept : Run (StateM Disk) _).on s t disk =
      ((.ok ((words.filter (isProjectOn disk)).reverse ++ kept), t), disk) := by
    induction words generalizing kept with
    | nil => rfl
    | cons word words ih =>
      rw [List.filterAuxM, on_bind_ok (on_isProject word), ih]
      cases h : isProjectOn disk word <;> simp [h]
  rw [List.filterM, on_bind_ok (general [])]
  simp

/-- The task and the options that words ask for. Which of the words name projects is seen on the disk. -/
def optionsOn? (disk : Disk) : List String → Option (Task × Options)
  | [] => none
  | first :: rest => (Task.ofWord? first).bind fun task =>
    (Options.ofWords task (· ∈ rest.filter (isProjectOn disk)) rest).toOption.map (task, ·)

theorem optionsOn?_cons_eq_some {first : String} {rest : List String} {task : Task} {options : Options} :
    optionsOn? disk (first :: rest) = some (task, options) ↔
      Task.ofWord? first = some task ∧
        Options.ofWords task (· ∈ rest.filter (isProjectOn disk)) rest = .ok options := by
  rw [optionsOn?]
  cases Task.ofWord? first with
  | none => simp
  | some task' =>
    simp only [Option.bind_some, Option.map_eq_some_iff, Prod.mk.injEq, Option.some.injEq]
    constructor
    · rintro ⟨options', h, rfl, rfl⟩
      refine ⟨rfl, ?_⟩
      cases hwords : Options.ofWords task' (· ∈ rest.filter (isProjectOn disk)) rest with
      | error issue =>
        rw [hwords] at h
        cases h
      | ok options =>
        rw [hwords] at h
        cases h
        rfl
    · rintro ⟨rfl, h⟩
      rw [h]
      exact ⟨options, rfl, rfl, rfl⟩

/-- The plan for words is the one for their options. -/
theorem on_planned_of_options {words : List String} {task : Task} {options : Options}
    (h : optionsOn? disk words = some (task, options)) :
    (planned words).on s t disk =
      (planFor task options).on { s with colored := ColorChoice.auto.isOn s.env s.terminal } t disk := by
  cases words with
  | nil => cases h
  | cons first rest =>
    obtain ⟨htask, hoptions⟩ := optionsOn?_cons_eq_some.1 h
    rw [planned, on_withColor, htask]
    dsimp only
    rw [on_bind_ok (on_projects rest), hoptions]

/-- A plan is only made for words that ask for something. -/
theorem optionsOn?_of_planned {words : List String} {plan : Plan} {t' : Transcript} {disk' : Disk}
    (h : (planned words).on s t disk = ((.ok plan, t'), disk')) :
    ∃ task options, optionsOn? disk words = some (task, options) := by
  cases words with
  | nil => cases h
  | cons first rest =>
    rw [planned, on_withColor] at h
    cases htask : Task.ofWord? first with
    | none =>
      rw [htask] at h
      cases h
    | some task =>
      rw [htask] at h
      dsimp only at h
      rw [on_bind_ok (on_projects rest)] at h
      cases hoptions : Options.ofWords task (· ∈ rest.filter (isProjectOn disk)) rest with
      | error issue =>
        rw [hoptions] at h
        cases h
      | ok options => exact ⟨task, options, optionsOn?_cons_eq_some.2 ⟨htask, hoptions⟩⟩

/-- The nearest manifest in some directories. -/
def nearestOn? (disk : Disk) : List Path → Option Path
  | [] => none
  | directory :: more =>
    if (disk.find? (Path.join directory manifestName)).isSome then some (Path.join directory manifestName)
    else nearestOn? disk more

theorem on_nearestManifest? (directories : List Path) :
    (nearestManifest? directories : Run (StateM Disk) (Option Path)).on s t disk =
      ((.ok (nearestOn? disk directories), t), disk) := by
  induction directories with
  | nil => rfl
  | cons directory more ih =>
    rw [nearestManifest?, on_bind_ok (on_isPresent _), nearestOn?]
    cases (disk.find? (Path.join directory manifestName)).isSome
    · exact ih
    · rfl

theorem nearestOn?_eq_none {directories : List Path}
    (h : ∀ directory ∈ directories, disk.find? (Path.join directory manifestName) = none) :
    nearestOn? disk directories = none := by
  induction directories with
  | nil => rfl
  | cons directory more ih =>
    obtain ⟨hnone, hmore⟩ := List.forall_mem_cons.1 h
    rw [nearestOn?, hnone]
    exact ih hmore

/-- The manifest that options lead to, with its directory. -/
def manifestOn (disk : Disk) (options : Options) : Except FileError (Option (Path × Option Path)) :=
  match options.manifest with
  | some path =>
    if disk.find? path = some .directory then .ok (some (Path.join path manifestName, some path))
    else .ok (some (path, Path.parent? path))
  | none => disk.currentDirectory.map fun current =>
    (nearestOn? disk (current :: Path.parents current)).map fun path => (path, Path.parent? path)

theorem on_manifestPath? (options : Options) :
    (manifestPath? options : Run (StateM Disk) (Option (Path × Option Path))).on s t disk =
      match manifestOn disk options with
      | .ok found => ((.ok found, t), disk)
      | .error e => ((.error 1, t.addErr (directoryLine s.colored e)), disk) := by
  unfold manifestPath? manifestOn
  cases options.manifest with
  | some path =>
    dsimp only
    rw [on_bind_ok (on_isDirectory path)]
    by_cases hdirectory : disk.find? path = some .directory
    · rw [if_pos hdirectory, decide_eq_true hdirectory]
      rfl
    · rw [if_neg hdirectory, decide_eq_false hdirectory]
      rfl
  | none =>
    have hworking : (workingDirectory : Run (StateM Disk) Path).on s t disk = _ := on_workingDirectory
    dsimp only
    cases hcurrent : disk.currentDirectory with
    | error e =>
      rw [hcurrent] at hworking
      exact on_bind_error hworking
    | ok current =>
      rw [hcurrent] at hworking
      rw [on_bind_ok hworking, on_bind_ok (on_nearestManifest? _)]
      rfl

/-- No manifest is found from the current directory. -/
def NoManifest (disk : Disk) : Prop :=
  ∀ directory ∈ disk.currentPath :: Path.parents disk.currentPath,
    disk.find? (Path.join directory manifestName) = none

theorem on_load {options : Options} (hoptions : options.manifest = none)
    (hcurrent : disk.currentDirectory = .ok disk.currentPath) (h : NoManifest disk) :
    (load options : Run (StateM Disk) Project).on s t disk = ((.ok {}, t), disk) := by
  have hpath : (manifestPath? options : Run (StateM Disk) _).on s t disk = _ := on_manifestPath? options
  have hnone : manifestOn disk options = .ok none := by
    rw [manifestOn, hoptions, hcurrent]
    dsimp only [Except.map]
    rw [nearestOn?_eq_none h, Option.map_none]
  rw [hnone] at hpath
  rw [load, on_bind_ok hpath]
  rfl

/-- Without a project, the words of a command line that name a file ask for that file. -/
theorem on_planned {words : List String} {task : Task} {options : Options} {file : String}
    (hwords : optionsOn? disk words = some (task, options)) (hmanifest : options.manifest = none)
    (hfile : options.entry = some file) (hcurrent : disk.currentDirectory = .ok disk.currentPath)
    (h : NoManifest disk) :
    (planned words).on s t disk =
      ((.ok ⟨task, options, {}, Path.join disk.currentPath file, (options.color.getD .auto).isOn s.env s.terminal⟩,
        t.addErr (s.env.log .info ("entry: " ++ Path.join disk.currentPath file))), disk) := by
  have hentry {s : Surroundings} {t : Transcript} :
      (Project.entry {} options : Run (StateM Disk) Path).on s t disk =
        ((.ok (Path.join disk.currentPath file), t), disk) := by
    have hworking : (workingDirectory : Run (StateM Disk) Path).on s t disk = _ := on_workingDirectory
    rw [hcurrent] at hworking
    rw [Project.entry, entryDirectory, hfile, Option.some_or]
    dsimp only
    cases hpath : Path.isAbsolute file with
    | true =>
      rw [Path.join, hpath, if_pos rfl]
      rfl
    | false => exact on_bind_ok hworking
  rw [on_planned_of_options hwords, planFor, on_withColor, on_bind_ok (on_load hmanifest hcurrent h), on_bind_ok hentry]
  rfl

/-! ## What changes no file -/

/-- The part of a run leaves the disk as it is. -/
def Keeps {α : Type} (x : Run (StateM Disk) α) : Prop := ∀ s t disk, (x.on s t disk).2 = disk

namespace Keeps
variable {α β : Type}

theorem bind {x : Run (StateM Disk) α} {f : α → Run (StateM Disk) β} (h : Keeps x) (h' : ∀ a, Keeps (f a)) :
    Keeps (x >>= f) := by
  intro s t disk
  have hx := h s t disk
  rw [on_bind]
  rcases hrun : x.on s t disk with ⟨⟨code | a, t'⟩, disk'⟩
  · rw [hrun] at hx
    exact hx
  · obtain rfl : disk' = disk := by rw [← hx, hrun]
    exact h' a s t' disk'

theorem withColor {x : Run (StateM Disk) α} (choice : ColorChoice) (h : Keeps x) : Keeps (Run.withColor choice x) :=
  fun _ _ _ => h _ _ _

theorem orFail (doing : String) (path : Path) (result : Except FileError α) :
    Keeps (orFail doing path result : Run (StateM Disk) α) := by
  cases result <;> exact fun _ _ _ => rfl

theorem readText (path : Path) : Keeps (FileSystem.readText path : Run (StateM Disk) (Except FileError String)) :=
  fun _ _ _ => by rw [on_readText]

theorem workingDirectory : Keeps (workingDirectory : Run (StateM Disk) Path) := by
  refine .bind (fun _ _ _ => rfl) fun current => ?_
  cases current <;> exact fun _ _ _ => rfl

theorem baseDirectory (project : Project) : Keeps (project.baseDirectory : Run (StateM Disk) Path) := by
  unfold Project.baseDirectory
  split
  · exact fun _ _ _ => rfl
  · exact workingDirectory

theorem manifestPath? (options : Options) :
    Keeps (manifestPath? options : Run (StateM Disk) (Option (Path × Option Path))) := by
  intro s t disk
  rw [on_manifestPath?]
  cases manifestOn disk options <;> rfl

theorem load (options : Options) : Keeps (load options : Run (StateM Disk) Project) := by
  refine .bind (manifestPath? options) fun found => ?_
  cases found with
  | none => exact fun _ _ _ => rfl
  | some found =>
    refine .bind (readText _) fun content => .bind (orFail _ _ _) fun text => .bind (fun _ _ _ => rfl) fun s => ?_
    split <;> exact fun _ _ _ => rfl

theorem entryDirectory (project : Project) (options : Options) :
    Keeps (project.entryDirectory options : Run (StateM Disk) Path) := by
  unfold Project.entryDirectory
  split
  · exact workingDirectory
  · exact baseDirectory project

theorem entry (project : Project) (options : Options) : Keeps (project.entry options : Run (StateM Disk) Path) := by
  unfold Project.entry
  split
  · exact fun _ _ _ => rfl
  · split
    · exact fun _ _ _ => rfl
    · exact .bind (entryDirectory project options) fun _ _ _ _ => rfl

/-- A plan is made without a change to any file. -/
theorem planned (words : List String) : Keeps (planned words : Run (StateM Disk) Plan) := by
  refine .withColor .auto ?_
  cases words with
  | nil => exact fun _ _ _ => rfl
  | cons first rest =>
    dsimp only
    cases Task.ofWord? first with
    | none => exact fun _ _ _ => rfl
    | some task =>
      refine .bind (fun _ _ _ => by rw [on_projects]) fun projects => ?_
      cases Options.ofWords task (· ∈ projects) rest with
      | error issue => exact fun _ _ _ => rfl
      | ok options =>
        exact .withColor _ (.bind (load options) fun project => .bind (entry project options) fun _ _ _ _ => rfl)

theorem sourceOf (entry : Path) : Keeps (sourceOf entry : Run (StateM Disk) String) :=
  .bind (readText entry) fun _ => orFail _ _ _

theorem analyzed (entry source : String) : Keeps (analyzed entry source : Run (StateM Disk) Analysis) :=
  fun s t disk => by rw [tells_analyzed entry source t disk]

theorem check (entry : Path) : Keeps (check entry : Run (StateM Disk) Unit) :=
  .bind (sourceOf entry) fun source => .bind (analyzed entry source) fun _ _ _ _ => rfl

theorem unparse (entry : Path) (annotate : Bool) : Keeps (unparse entry annotate : Run (StateM Disk) Unit) := by
  refine .bind (sourceOf entry) fun source => ?_
  cases annotate with
  | true => exact .bind (analyzed entry source) fun _ _ _ _ => rfl
  | false =>
    refine .bind (fun s t disk => ?_) fun _ _ _ _ => rfl
    rw [tells_follow entry source (Inspection.yields_inspectText entry source) t disk]

theorem annotates (project : Project) (options : Options) :
    Keeps (project.annotates options : Run (StateM Disk) Bool) := by
  unfold Project.annotates
  split <;> exact fun _ _ _ => rfl

end Keeps

end

end Namescope.Project
