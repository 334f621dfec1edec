import Namescope.Proofs.Build.Storing
import Namescope.Proofs.Command.SamePlans
/-!
# How builds end

A build of an entry file ends with its rejection, with the word that what is stored is up to date, or with what it
stored. A run that builds nothing takes things away from the disk at most.
-/
namespace Namescope.Project

open Run

/-- On this disk the words ask for a build of an entry file into the directory of a path. -/
def Builds (words : List String) (s : Surroundings) (disk : Disk) (entry path : Path) : Prop :=
  ∃ plan t, (planned words).on s {} disk = ((.ok plan, t), disk) ∧ plan.task = .build ∧
    plan.options.clean = false ∧ plan.entry = entry ∧ outDirOn s.env disk plan.project = .ok path

/-- How a build of an entry file ends: with a rejected text, with what was there before or with what it stored. -/
inductive BuildEnd (s : Surroundings) (disk : Disk) (entry path : Path) : (ExitCode × Transcript) × Disk → Prop
  | rejected (t : Transcript) : accepted? disk entry = none → BuildEnd s disk entry path ((1, t), disk)
  | skipped (source : String) (analysis : Analysis) (t : Transcript) :
      accepted? disk entry = some (source, analysis) →
      upToDateOn disk path (.describe s.toolchain entry source) = true →
      BuildEnd s disk entry path ((0, t), disk)
  | stored (source : String) (analysis : Analysis) (t : Transcript) (disk' : Disk) :
      accepted? disk entry = some (source, analysis) →
      upToDateOn disk path (.describe s.toolchain entry source) = false →
      Stored path analysis.artifact.encode
        (Metadata.describe s.toolchain entry source).encode disk disk' →
      BuildEnd s disk entry path ((0, t), disk')

section
variable {words : List String} {s : Surroundings} {disk disk' : Disk} {entry path : Path}

/-- A build is the work on a plan. -/
theorem Builds.on (h : Builds words s disk entry path) :
    ∃ project options colored t, options.clean = false ∧ outDirOn s.env disk project = .ok path ∧
      (command words).execute s disk =
        match (concluded .build (project.build options entry)).on { s with colored } t disk with
        | ((.ok (), t'), disk') => ((0, t'), disk')
        | ((.error code, t'), disk') => ((code, t'), disk') := by
  obtain ⟨⟨task, options, project, entry', colored⟩, t, hplan, htask, hclean, hentry, hpath⟩ := h
  obtain rfl : task = .build := htask
  obtain rfl : entry' = entry := hentry
  refine ⟨project, options, colored, t, hclean, hpath, ?_⟩
  rw [execute_eq, carries_command, hplan]
  rfl

/-- A build of a text that is rejected changes nothing. -/
theorem Builds.rejects (h : Builds words s disk entry path) (hrejected : accepted? disk entry = none) :
    ∃ t, (command words).execute s disk = ((1, t), disk) := by
  obtain ⟨project, options, colored, t, hclean, hpath, hrun⟩ := h.on
  obtain ⟨t', hbuild⟩ :
      ∃ t', (project.build options entry).on { s with colored := colored } t disk = ((.error 1, t'), disk) :=
    on_build_rejected hclean hpath hrejected
  rw [hrun, on_concluded, hbuild]
  exact ⟨_, rfl⟩

/-- A build of what is there changes nothing and says so. -/
theorem Builds.skips (h : Builds words s disk entry path) {source : String} {analysis : Analysis}
    (haccepted : accepted? disk entry = some (source, analysis))
    (hcurrent : upToDateOn disk path (.describe s.toolchain entry source) = true) :
    ∃ colored t, (command words).execute s disk =
      ((0, Transcript.addErr t (stepLine colored .build "up to date" ++ stepLine colored .build "ok")), disk) := by
  obtain ⟨project, options, colored, t, hclean, hpath, hrun⟩ := h.on
  obtain ⟨t', hbuild⟩ := on_build_accepted (s := { s with colored := colored }) (t := t) hclean hpath haccepted
  rw [hcurrent] at hbuild
  refine ⟨colored, t', ?_⟩
  rw [hrun, on_concluded, hbuild, on_sayStep]
  dsimp only
  rw [Transcript.addErr_addErr]

/-- A build of what is not there stores it. -/
theorem Builds.stores (h : Builds words s disk entry path) (hstore : CanStore disk path) {source : String}
    {analysis : Analysis} (haccepted : accepted? disk entry = some (source, analysis))
    (hcurrent : upToDateOn disk path (.describe s.toolchain entry source) = false) :
    ∃ t disk', (command words).execute s disk = ((0, t), disk') ∧
      Stored path analysis.artifact.encode
        (Metadata.describe s.toolchain entry source).encode disk disk' := by
  obtain ⟨project, options, colored, t, hclean, hpath, hrun⟩ := h.on
  obtain ⟨t', hbuild⟩ := on_build_accepted (s := { s with colored := colored }) (t := t) hclean hpath haccepted
  obtain ⟨disk', hstored, hend⟩ := hstore.stored (s := { s with colored := colored }) (t := t') analysis
    (.describe s.toolchain entry source)
  rw [hcurrent] at hbuild
  dsimp only at hbuild
  rw [on_bind_ok hstored, on_sayStep] at hbuild
  rw [hrun, on_concluded, hbuild]
  exact ⟨_, disk', rfl, hend⟩

theorem Builds.ends (h : Builds words s disk entry path) (hstore : CanStore disk path) :
    BuildEnd s disk entry path ((command words).execute s disk) := by
  cases haccepted : accepted? disk entry with
  | none =>
    obtain ⟨t, hrun⟩ := h.rejects haccepted
    rw [hrun]
    exact .rejected t haccepted
  | some found =>
    obtain ⟨source, analysis⟩ := found
    cases hcurrent : upToDateOn disk path (.describe s.toolchain entry source) with
    | true =>
      obtain ⟨colored, t, hrun⟩ := h.skips haccepted hcurrent
      rw [hrun]
      exact .skipped source analysis _ haccepted hcurrent
    | false =>
      obtain ⟨t, disk', hrun, hstored⟩ := h.stores hstore haccepted hcurrent
      rw [hrun]
      exact .stored source analysis t disk' haccepted hcurrent hstored

/-- Whatever way a build ends, other files are as they were. -/
theorem BuildEnd.spares {r : (ExitCode × Transcript) × Disk} (h : BuildEnd s disk entry path r) :
    disk.Spares (buildFiles (Disk.target disk.current path)) r.2 := by
  cases h with
  | rejected | skipped => exact .refl _ disk
  | stored source analysis t disk' haccepted hcurrent hstored => exact hstored.spares

theorem manifest_notMem_buildFiles (directory other : Place) : other ++ [manifestName] ∉ buildFiles directory := by
  rw [mem_buildFiles, programPlace, metadataPlace]
  rintro (h | h)
  · exact absurd (List.append_inj_right' h rfl) (by decide)
  · exact absurd (List.append_inj_right' h rfl) (by decide)

/-- A build that adds no directory changes no manifest. -/
theorem BuildEnd.sameManifest {r : (ExitCode × Transcript) × Disk} (h : BuildEnd s disk entry path r)
    (words : List String)
    (hnone : ∀ place, r.2.node? place = some .directory → disk.node? place = some .directory) :
    SameManifest words disk r.2 := by
  have hspares := h.spares
  have hname := manifest_notMem_buildFiles (Disk.target disk.current path)
  apply SameManifest.of_offers
  · refine ⟨hspares.below, fun directory hthere => ?_⟩
    obtain ⟨node, hnode⟩ := Option.isSome_iff_exists.1 hthere
    rw [hspares.keeps (hname directory) hnode]
    rfl
  · refine ⟨⟨hspares.below.1.symm, hnone⟩, fun directory hthere => ?_⟩
    rcases hspares.node _ (hname directory) with e | ⟨hmissing, hnew⟩
    · rwa [e] at hthere
    · rw [hnone _ hnew] at hmissing
      cases hmissing

/-- The same words ask for the same build again, if they lead to the same manifest. -/
theorem Builds.again (h : Builds words s disk entry path) {places : List Place} (hspares : disk.Spares places disk')
    (hunread : NoManifestAt places s disk) (hsame : SameManifest words disk disk') :
    Builds words s disk' entry path := by
  obtain ⟨plan, t, hplan, htask, hclean, hentry, hpath⟩ := h
  exact ⟨plan, t, on_planned_again hspares hunread hsame hplan, htask, hclean, hentry, outDirOn_again hspares hpath⟩

/-! ## Runs that build nothing -/

/-- How a task is said to have gone changes nothing on the disk. -/
theorem disk_of_concluded (task : Task) (work : Run (StateM Disk) Unit) (t : Transcript) (disk : Disk) :
    ((concluded task work).on s t disk).2 = (work.on s t disk).2 := by
  rw [on_concluded]
  rcases work.on s t disk with ⟨⟨code | a, t'⟩, disk'⟩
  · rfl
  · rfl

/-- Work that is no build takes things away at most. -/
theorem shrinks_work {plan : Plan}
    (h : ∀ path, plan.task = .build → plan.options.clean = false → outDirOn s.env disk plan.project ≠ .ok path)
    (t : Transcript) : disk.Shrinks (plan.work.on s t disk).2 := by
  rw [Plan.work, disk_of_concluded]
  cases htask : plan.task with
  | check =>
    dsimp only
    rw [Keeps.check]
    exact .refl disk
  | unparse =>
    dsimp only
    rw [Keeps.bind (Keeps.annotates plan.project plan.options) fun annotate => Keeps.unparse plan.entry annotate]
    exact .refl disk
  | build =>
    cases hclean : plan.options.clean with
    | true => exact shrinks_clean plan.project hclean plan.entry
    | false =>
      cases hpath : outDirOn s.env disk plan.project with
      | ok path => exact absurd hpath (h path htask hclean)
      | error e =>
        dsimp only
        rw [disk_of_build_error hpath]
        exact .refl disk

/-- A run that builds nothing takes things away at most. -/
theorem shrinks_of_not_builds (h : ∀ entry path, ¬ Builds words s disk entry path) :
    disk.Shrinks ((command words).execute s disk).2 := by
  have hkeeps := Keeps.planned words s {} disk
  rw [disk_of_execute, carries_command]
  rcases hplan : (planned words).on s {} disk with ⟨⟨code | plan, t⟩, disk'⟩
  · obtain rfl : disk' = disk := by rw [← hkeeps, hplan]
    exact .refl disk'
  · -- the work on the plan has the colours that the user chose
    obtain rfl : disk' = disk := by rw [← hkeeps, hplan]
    apply shrinks_work (s := { s with colored := plan.colored })
    exact fun path htask hclean hpath => h _ path ⟨plan, t, hplan, htask, hclean, rfl, hpath⟩

end

end Namescope.Project
