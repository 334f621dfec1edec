import Namescope.Proofs.Command.Plans
import Namescope.Proofs.Files.Changes
/-!
# Plans that stay the same

A plan depends on little of what is on the disk: on the current directory, on which manifest is found and on what is in
it. So where these are as before, the same words lead to the same plan, whatever else was added or overwritten.
-/
namespace Namescope.Project

open Run

/-- On the second disk the words stand for the same options as on the first one, and lead to the same manifest. -/
structure SameManifest (words : List String) (disk disk' : Disk) : Prop where
  options : optionsOn? disk' words = optionsOn? disk words
  found : ∀ task options, optionsOn? disk words = some (task, options) →
    manifestOn disk' options = manifestOn disk options

/-- The directories and the manifests of the first disk are on the second one. -/
structure Offers (disk disk' : Disk) : Prop where
  below : disk.Below disk'
  manifests : ∀ directory : Place, (disk.node? (directory ++ [manifestName])).isSome = true →
    (disk'.node? (directory ++ [manifestName])).isSome = true

theorem Offers.isPresent {disk disk' : Disk} (h : Offers disk disk') {path : Path}
    (hfind : (disk.find? (Path.join path manifestName)).isSome = true) :
    (disk'.find? (Path.join path manifestName)).isSome = true := by
  obtain ⟨node, hfind⟩ := Option.isSome_iff_exists.1 hfind
  obtain ⟨place, hplace, hnode⟩ := Disk.find?_eq_some.1 hfind
  have htarget : place = Disk.target disk.current path ++ [manifestName] := by
    rw [Disk.eq_target_of_place hplace]
    exact Disk.target_join disk.current path (by decide) (by decide) (by decide)
  have hthere : (disk'.node? place).isSome = true := by
    rw [htarget] at hnode ⊢
    exact h.manifests _ (by rw [hnode]; rfl)
  obtain ⟨node', hnode'⟩ := Option.isSome_iff_exists.1 hthere
  rw [Disk.find?_eq_some.2 ⟨place, h.below.place hplace, hnode'⟩]
  rfl

/-- Words lead to the same manifest where the same directories and the same manifests are. -/
theorem SameManifest.of_offers {disk disk' : Disk} (h : Offers disk disk') (h' : Offers disk' disk)
    (words : List String) : SameManifest words disk disk' := by
  have hdirectory (path : Path) : disk'.find? path = some .directory ↔ disk.find? path = some .directory :=
    ⟨h'.below.find?_directory, h.below.find?_directory⟩
  have hpresent (path : Path) : (disk'.find? (Path.join path manifestName)).isSome =
      (disk.find? (Path.join path manifestName)).isSome :=
    Bool.eq_iff_iff.2 ⟨h'.isPresent, h.isPresent⟩
  have hprojects : isProjectOn disk' = isProjectOn disk := by
    funext path
    rw [isProjectOn, isProjectOn, hpresent]
    simp only [hdirectory]
  have hnearest (directories : List Path) : nearestOn? disk' directories = nearestOn? disk directories := by
    induction directories with
    | nil => rfl
    | cons directory more ih => rw [nearestOn?, nearestOn?, hpresent, ih]
  have hcurrent : disk'.currentDirectory = disk.currentDirectory := by
    have hthere : disk'.node? disk.current = some .directory ↔ disk.node? disk.current = some .directory :=
      ⟨h'.below.2 _, h.below.2 _⟩
    unfold Disk.currentDirectory Disk.currentPath
    simp only [h.below.1, hthere]
  constructor
  case options =>
    cases words with
    | nil => rfl
    | cons first rest => rw [optionsOn?, optionsOn?, hprojects]
  case found =>
    intro task options _
    unfold manifestOn
    cases options.manifest with
    | some path => simp only [hdirectory]
    | none => simp only [hcurrent, hnearest]

/-- No file at one of the places can be read as a manifest. -/
def NoManifestAt (places : List Place) (s : Surroundings) (disk : Disk) : Prop :=
  ∀ path text manifest, disk.text path = .ok text → s.readManifest text = .ok manifest →
    Disk.target disk.current path ∉ places

/-! ## Parts of a run that stay the same -/

/-- If the part of a run gives a value on the first disk and leaves that as it is, it does the same on the second. -/
def Repeats {α : Type} (s : Surroundings) (disk disk' : Disk) (x : Run (StateM Disk) α) : Prop :=
  ∀ t a t', x.on s t disk = ((.ok a, t'), disk) → x.on s t disk' = ((.ok a, t'), disk')

namespace Repeats
variable {α β : Type} {s : Surroundings} {disk disk' : Disk}

theorem bind {x : Run (StateM Disk) α} {f : α → Run (StateM Disk) β} (hkeeps : Keeps x) (h : Repeats s disk disk' x)
    (h' : ∀ a, Repeats s disk disk' (f a)) : Repeats s disk disk' (x >>= f) := by
  intro t b t'' hrun
  have hx := hkeeps s t disk
  rw [on_bind] at hrun
  rcases hfirst : x.on s t disk with ⟨⟨code | a, t'⟩, disk₁⟩
  · rw [hfirst] at hrun
    cases hrun
  · rw [hfirst] at hrun hx
    -- the first part left the disk as it was, so the second one is repeated from there
    obtain rfl : disk₁ = disk := hx
    rw [on_bind_ok (h t a t' hfirst)]
    exact h' a t' b t'' hrun

theorem pure (a : α) : Repeats s disk disk' (Pure.pure a : Run (StateM Disk) α) := by
  intro t b t' hrun
  cases hrun
  rfl

theorem read : Repeats s disk disk' (MonadReader.read : Run (StateM Disk) Surroundings) := by
  intro t b t' hrun
  cases hrun
  rfl

theorem log (level : LogLevel) (message : String) :
    Repeats s disk disk' (Run.log level message : Run (StateM Disk) Unit) := by
  intro t b t' hrun
  cases hrun
  rfl

theorem withColor {x : Run (StateM Disk) α} (choice : ColorChoice)
    (h : Repeats { s with colored := choice.isOn s.env s.terminal } disk disk' x) :
    Repeats s disk disk' (Run.withColor choice x) :=
  fun t a t' hrun => h t a t' hrun

section
variable {places : List Place} (hspares : disk.Spares places disk')
include hspares

theorem workingDirectory : Repeats s disk disk' (workingDirectory : Run (StateM Disk) Path) := by
  intro t path t' hrun
  rw [on_workingDirectory] at hrun ⊢
  cases hcurrent : disk.currentDirectory with
  | error e =>
    rw [hcurrent] at hrun
    cases hrun
  | ok current =>
    rw [hcurrent] at hrun
    cases hrun
    rw [hspares.currentDirectory hcurrent]

theorem baseDirectory (project : Project) :
    Repeats s disk disk' (project.baseDirectory : Run (StateM Disk) Path) := by
  unfold Project.baseDirectory
  split
  · exact .pure _
  · exact workingDirectory hspares

theorem entry (project : Project) (options : Options) :
    Repeats s disk disk' (project.entry options : Run (StateM Disk) Path) := by
  have hdirectory : Repeats s disk disk' (project.entryDirectory options : Run (StateM Disk) Path) := by
    unfold entryDirectory
    split
    · exact workingDirectory hspares
    · exact baseDirectory hspares project
  unfold Project.entry
  split
  · intro t path t' hrun
    cases hrun
  · split
    · exact .pure _
    · exact .bind (Keeps.entryDirectory project options) hdirectory fun _ => .pure _

/-- A manifest that is read is not one of the files that may be overwritten. -/
theorem readManifest (hunread : NoManifestAt places s disk) (path : Path) (directory : Option Path) :
    Repeats s disk disk' (do
      let text ← orFail "read" path (← FileSystem.readText path)
      match (← MonadReader.read).readManifest text with
      | .error issue => fail ("invalid manifest: " ++ issue)
      | .ok manifest =>
        Run.log .debug ("loaded manifest " ++ path)
        return ({ manifest, directory } : Project) : Run (StateM Disk) Project) := by
  intro t project t' hrun
  rw [on_bind_ok (on_readText path)] at hrun ⊢
  cases htext : disk.text path with
  | error e =>
    rw [htext] at hrun
    cases hrun
  | ok text =>
    rw [htext, on_bind_ok (on_orFail_ok "read" path text), on_bind_ok on_read] at hrun
    cases hmanifest : s.readManifest text with
    | error issue =>
      rw [hmanifest] at hrun
      cases hrun
    | ok manifest =>
      rw [hmanifest] at hrun
      rw [hspares.text (hunread path text manifest htext hmanifest) htext, on_bind_ok (on_orFail_ok "read" path text),
        on_bind_ok on_read, hmanifest]
      cases hrun
      rfl

theorem load {options : Options} (hunread : NoManifestAt places s disk)
    (hfound : manifestOn disk' options = manifestOn disk options) :
    Repeats s disk disk' (load options : Run (StateM Disk) Project) := by
  have hpath : Repeats s disk disk' (manifestPath? options : Run (StateM Disk) _) := by
    intro t found t' hrun
    rw [on_manifestPath?] at hrun ⊢
    rw [hfound]
    cases hmanifest : manifestOn disk options with
    | error e =>
      rw [hmanifest] at hrun
      cases hrun
    | ok found =>
      rw [hmanifest] at hrun
      cases hrun
      rfl
  refine .bind (Keeps.manifestPath? options) hpath fun found => ?_
  cases found with
  | none => exact .pure _
  | some found => exact readManifest hspares hunread found.1 found.2

end

end Repeats

/-- Words lead to the same plan again, if they lead to the same manifest and no manifest is read from what may be
overwritten. -/
theorem on_planned_again {places : List Place} {words : List String} {s : Surroundings} {t t' : Transcript}
    {disk disk' : Disk} {plan : Plan} (hspares : disk.Spares places disk') (hunread : NoManifestAt places s disk)
    (hsame : SameManifest words disk disk') (hplan : (planned words).on s t disk = ((.ok plan, t'), disk)) :
    (planned words).on s t disk' = ((.ok plan, t'), disk') := by
  obtain ⟨task, options, hoptions⟩ := optionsOn?_of_planned hplan
  rw [on_planned_of_options hoptions] at hplan
  rw [on_planned_of_options (hsame.options.trans hoptions)]
  refine Repeats.withColor _ ?_ t plan t' hplan
  refine .bind (Keeps.load options) (Repeats.load hspares hunread (hsame.found task options hoptions)) fun project => ?_
  refine .bind (Keeps.entry project options) (Repeats.entry hspares project options) fun entry => ?_
  refine .bind (fun _ _ _ => rfl) (.log _ _) fun _ => ?_
  exact .bind (fun _ _ _ => rfl) .read fun _ => .pure _

end Namescope.Project
