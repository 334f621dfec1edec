import Mathlib.Data.Set.Function
import Namescope.Proofs.Build.Builds
import Namescope.Proofs.Settings.Manifests
/-!
# The build directory as a cache

A build is skipped if metadata of the same text is stored and some program is there. That this is right is an invariant
of the build directory over all runs of the command, changes of other files and removals: a program beside metadata is
the one that the text with that hash gives. A build that is repeated is skipped, unless it changed which manifest is
found.
-/
namespace Namescope.Project

open Run

/-! ## Histories -/

/-- What a build relies on: what it has to store can be stored, elsewhere than where the entry file is, and the text
that it reads is one of `texts`. -/
structure Reliable (texts : Set String) (s : Surroundings) (disk : Disk) (entry path : Path) : Prop where
  canStore : CanStore disk path
  apart : Disk.target disk.current entry ∉ buildFiles (Disk.target disk.current path)
  known : ∀ source, disk.text entry = .ok source → source ∈ texts
  fits : ∀ source, (Metadata.describe s.toolchain entry source).Fits

/-- The disks that there can be after any runs of the command, of which those that build do so into one directory, and
any changes by others in between; others only remove the two files of the directory. A run may start in any current
directory, and name the build directory and its entry file as it likes. -/
inductive History (directory : Place) (texts : Set String) : Disk → Prop
  | start {disk : Disk} : (∀ place ∈ buildFiles directory, disk.node? place = none) → History directory texts disk
  | change {disk disk' : Disk} : History directory texts disk →
      (∀ place ∈ buildFiles directory, disk'.node? place = disk.node? place ∨ disk'.node? place = none) →
      History directory texts disk'
  | run {disk : Disk} (words : List String) (s : Surroundings) : History directory texts disk →
      (∀ entry path, Builds words s disk entry path →
        Disk.target disk.current path = directory ∧ Reliable texts s disk entry path) →
      History directory texts ((command words).execute s disk).2

/-! ## The invariant -/

/-- What is in a build directory that only builds write to. -/
structure Consistent (directory : Place) (texts : Set String) (disk : Disk) : Prop where
  /-- A program beside metadata is the one of the text with the hash in the metadata. -/
  program : ∀ metadata bytes node, disk.node? (metadataPlace directory) = some (.file bytes) →
    Metadata.ofBytes? bytes = some metadata → disk.node? (programPlace directory) = some node →
    ∃ source ∈ texts, ∃ analysis, Analysis.ofText? source = some analysis ∧
      SipHash.ofString source = metadata.sourceHash ∧ node = .file analysis.artifact.encode
  /-- What is in the two files begins with the format version. -/
  versioned : ∀ place ∈ buildFiles directory, ∀ bytes, disk.node? place = some (.file bytes) → Versioned bytes

section
variable {directory : Place} {texts : Set String} {disk disk' : Disk}

theorem Consistent.change (h : Consistent directory texts disk)
    (hnode : ∀ place ∈ buildFiles directory, disk'.node? place = disk.node? place ∨ disk'.node? place = none) :
    Consistent directory texts disk' := by
  have hkept : ∀ place ∈ buildFiles directory, ∀ node, disk'.node? place = some node →
      disk.node? place = some node := by
    intro place hplace node hsome
    rcases hnode place hplace with e | e
    · rw [← e, hsome]
    · rw [e] at hsome
      cases hsome
  constructor
  case program =>
    intro metadata bytes node hmetadata hbytes hprogram
    apply h.program metadata bytes node _ hbytes
    · exact hkept _ (mem_buildFiles.2 (.inl rfl)) _ hprogram
    · exact hkept _ (mem_buildFiles.2 (.inr rfl)) _ hmetadata
  case versioned => exact fun place hplace bytes hbytes => h.versioned place hplace bytes (hkept place hplace _ hbytes)

theorem Consistent.shrinks (h : Consistent directory texts disk) (hshrinks : disk.Shrinks disk') :
    Consistent directory texts disk' :=
  h.change fun place _ => hshrinks.node place

/-- What a build stores is consistent. -/
theorem Stored.consistent {path : Path} {source : String} {analysis : Analysis} {metadata : Metadata}
    (hsource : source ∈ texts) (hanalysis : Analysis.ofText? source = some analysis)
    (hhash : metadata.sourceHash = SipHash.ofString source) (hfits : metadata.Fits)
    (hversion : metadata.version = formatVersion)
    (h : Stored path analysis.artifact.encode metadata.encode disk disk') :
    Consistent (Disk.target disk.current path) texts disk' := by
  have hprogram : disk'.node? (programPlace (Disk.target disk.current path)) =
      some (.file analysis.artifact.encode) := h.program_node
  have hmetadata : disk'.node? (metadataPlace (Disk.target disk.current path)) = some (.file metadata.encode) :=
    h.metadata_node
  constructor
  case program =>
    intro metadata' bytes node hmetadata' hbytes hnode
    rw [hmetadata] at hmetadata'
    cases hmetadata'
    rw [Metadata.ofBytes?_encode hfits hversion] at hbytes
    cases hbytes
    rw [hprogram] at hnode
    exact ⟨source, hsource, analysis, hanalysis, hhash.symm, (Option.some.inj hnode).symm⟩
  case versioned =>
    intro place hplace bytes hbytes
    rcases mem_buildFiles.1 hplace with rfl | rfl
    · rw [hprogram] at hbytes
      cases hbytes
      exact analysis.versioned
    · rw [hmetadata] at hbytes
      cases hbytes
      exact Metadata.versioned hversion

/-- What builds wrote is not read as a manifest. -/
theorem Consistent.noManifestAt (h : Consistent directory texts disk) {s : Surroundings} (hreader : s.RefusesBinary) :
    NoManifestAt (buildFiles directory) s disk := by
  intro path text manifest htext hmanifest hplace
  obtain ⟨bytes, hread, hbytes⟩ := Disk.text_eq_ok.1 htext
  obtain ⟨more, hmore⟩ := (h.versioned _ hplace bytes (Disk.read_eq_ok hread).2).toList_eq hbytes
  exact hreader text more hmore manifest hmanifest

variable {words : List String} {s : Surroundings} {entry path : Path}

/-- A build keeps the program and its metadata consistent. -/
theorem Consistent.build (h : Consistent (Disk.target disk.current path) texts disk)
    (hbuilds : Builds words s disk entry path) (hreliable : Reliable texts s disk entry path) :
    Consistent (Disk.target disk.current path) texts ((command words).execute s disk).2 := by
  have hend := hbuilds.ends hreliable.canStore
  generalize (command words).execute s disk = r at hend
  cases hend with
  | rejected t haccepted => exact h
  | skipped source analysis t haccepted hcurrent => exact h
  | stored source analysis t disk' haccepted hcurrent hstored =>
    obtain ⟨htext, hanalysis⟩ := accepted?_eq_some.1 haccepted
    exact hstored.consistent (hreliable.known source htext) hanalysis rfl (hreliable.fits source) rfl

/-- After any history, the program and its metadata are consistent. -/
theorem History.consistent (h : History directory texts disk) : Consistent directory texts disk := by
  induction h with
  | start hnone =>
    constructor
    · intro metadata bytes node hmetadata
      rw [hnone _ (mem_buildFiles.2 (.inr rfl))] at hmetadata
      cases hmetadata
    · intro place hplace bytes hbytes
      rw [hnone place hplace] at hbytes
      cases hbytes
  | change h hnode ih => exact ih.change hnode
  | @run disk words s h hbuilds ih =>
    by_cases hbuild : ∃ entry path, Builds words s disk entry path
    · obtain ⟨entry, path, hbuild⟩ := hbuild
      obtain ⟨rfl, hreliable⟩ := hbuilds entry path hbuild
      exact ih.build hbuild hreliable
    · -- a run that builds nothing may still empty the directory
      exact ih.shrinks (shrinks_of_not_builds fun entry path hbuild' => hbuild ⟨entry, path, hbuild'⟩)

/-! ## Any build -/

/-- The directory of a path holds the program of a text, and the metadata of its build. -/
structure Holds (disk : Disk) (path : Path) (analysis : Analysis) (metadata : Metadata) : Prop where
  program : disk.read (programPath path) = .ok analysis.artifact.encode
  metadata : metadataOn? disk (metadataPath path) = some metadata

theorem Holds.upToDateOn {analysis : Analysis} {metadata : Metadata} (h : Holds disk path analysis metadata) :
    upToDateOn disk path metadata = true := by
  obtain ⟨hplace, hnode⟩ := Disk.read_eq_ok h.program
  have hfind := Disk.find?_eq_some.2 ⟨_, hplace, hnode⟩
  rw [Project.upToDateOn, hfind, h.metadata]
  simp

/-- What a build finds to be up to date is what it would store. -/
theorem Consistent.holds (h : Consistent (Disk.target disk.current path) texts disk)
    (hinj : Set.InjOn SipHash.ofString texts) {source : String} (hsource : source ∈ texts) {analysis : Analysis}
    (hanalysis : Analysis.ofText? source = some analysis) {metadata : Metadata}
    (hhash : metadata.sourceHash = SipHash.ofString source) (hcurrent : upToDateOn disk path metadata = true) :
    Holds disk path analysis metadata := by
  obtain ⟨hfind, hmetadata⟩ : (disk.find? (programPath path)).isSome = true ∧
      metadataOn? disk (metadataPath path) = some metadata := by
    simpa [upToDateOn] using hcurrent
  obtain ⟨node, hfind⟩ := Option.isSome_iff_exists.1 hfind
  obtain ⟨place, hplace, hnode⟩ := Disk.find?_eq_some.1 hfind
  obtain ⟨bytes, hread, hbytes⟩ := metadataOn?_eq_some.1 hmetadata
  have hmetadataNode := (Disk.read_eq_ok hread).2
  rw [target_metadataPath] at hmetadataNode
  obtain rfl : place = programPlace (Disk.target disk.current path) := by
    rw [Disk.eq_target_of_place hplace, target_programPath]
  obtain ⟨source', hsource', analysis', hanalysis', hhash', rfl⟩ :=
    h.program metadata bytes node hmetadataNode hbytes hnode
  -- the metadata names the text by its hash alone, so it takes that no other text in question has this hash
  obtain rfl : source' = source := hinj hsource' hsource (hhash'.trans hhash)
  obtain rfl : analysis' = analysis := by simpa [hanalysis] using hanalysis'.symm
  exact ⟨Disk.read_of_node hplace hnode, hmetadata⟩

theorem Stored.holds {analysis : Analysis} {metadata : Metadata} (hfits : metadata.Fits)
    (hversion : metadata.version = formatVersion)
    (h : Stored path analysis.artifact.encode metadata.encode disk disk') :
    Holds disk' path analysis metadata :=
  ⟨h.program, metadataOn?_eq_some.2 ⟨_, h.metadata, Metadata.ofBytes?_encode hfits hversion⟩⟩

/-- A build that ends well leaves what it stands for, and its entry file as it was. -/
theorem BuildEnd.holds {r : (ExitCode × Transcript) × Disk} (h : BuildEnd s disk entry path r)
    (hinj : Set.InjOn SipHash.ofString texts) (hconsistent : Consistent (Disk.target disk.current path) texts disk)
    (hreliable : Reliable texts s disk entry path) (hcode : r.1.1 = 0) :
    ∃ source analysis, accepted? disk entry = some (source, analysis) ∧
      accepted? r.2 entry = some (source, analysis) ∧
      Holds r.2 path analysis (.describe s.toolchain entry source) := by
  have hspares := h.spares
  have hkept : ∀ source analysis, accepted? disk entry = some (source, analysis) →
      accepted? r.2 entry = some (source, analysis) := by
    intro source analysis haccepted
    obtain ⟨htext, hanalysis⟩ := accepted?_eq_some.1 haccepted
    exact accepted?_eq_some.2 ⟨hspares.text hreliable.apart htext, hanalysis⟩
  cases h with
  | rejected t hrejected => cases hcode
  | skipped source analysis t haccepted hcurrent =>
    obtain ⟨htext, hanalysis⟩ := accepted?_eq_some.1 haccepted
    exact ⟨source, analysis, haccepted, haccepted,
      hconsistent.holds hinj (hreliable.known source htext) hanalysis rfl hcurrent⟩
  | stored source analysis t disk' haccepted hcurrent hstored =>
    exact ⟨source, analysis, haccepted, hkept source analysis haccepted, hstored.holds (hreliable.fits source) rfl⟩

/-- A run that says that the build is up to date and changes nothing. -/
def FindsUpToDate (words : List String) (s : Surroundings) (disk : Disk) : Prop :=
  ∃ colored t, (command words).execute s disk =
    ((0, Transcript.addErr t (stepLine colored .build "up to date" ++ stepLine colored .build "ok")), disk)

/-- What can be relied on after a build. -/
structure Sound (words : List String) (s : Surroundings) (disk : Disk) (entry path : Path)
    (r : (ExitCode × Transcript) × Disk) : Prop where
  accepted : ∀ source analysis, disk.text entry = .ok source → Analysis.ofText? source = some analysis → r.1.1 = 0
  rejected : (∀ source analysis, disk.text entry = .ok source → Analysis.ofText? source ≠ some analysis) →
    r.1.1 = 1 ∧ r.2 = disk
  holds : r.1.1 = 0 → ∃ source analysis, disk.text entry = .ok source ∧ Analysis.ofText? source = some analysis ∧
    Holds r.2 path analysis (.describe s.toolchain entry source)
  /-- Any build of the entry file into the directory by the same tools finds what is there. -/
  found : r.1.1 = 0 → ∀ words' s', s'.toolchain = s.toolchain → Builds words' s' r.2 entry path →
    FindsUpToDate words' s' r.2
  /-- The same words ask for the same build again, unless the first one changed which manifest they lead to. -/
  repeated : r.1.1 = 0 → SameManifest words disk r.2 → FindsUpToDate words s r.2
  /-- Only a build that adds a directory can change that. -/
  settled : (∀ place, r.2.node? place = some .directory → disk.node? place = some .directory) →
    SameManifest words disk r.2

/-- After any history a build leaves the program of the text that it reads, or nothing new if it rejects the text, and
if it is repeated it finds what it left. -/
theorem build_cache_sound (hinj : Set.InjOn SipHash.ofString texts) (hhistory : History directory texts disk)
    (hbuilds : Builds words s disk entry path) (hdirectory : Disk.target disk.current path = directory)
    (hreliable : Reliable texts s disk entry path) (hreader : s.RefusesBinary) :
    Sound words s disk entry path ((command words).execute s disk) := by
  subst hdirectory
  have hconsistent := hhistory.consistent
  have hend := hbuilds.ends hreliable.canStore
  have hholds := hend.holds hinj hconsistent hreliable
  have hfound : ((command words).execute s disk).1.1 = 0 → ∀ words' s', s'.toolchain = s.toolchain →
      Builds words' s' ((command words).execute s disk).2 entry path →
      FindsUpToDate words' s' ((command words).execute s disk).2 := by
    intro hcode words' s' htoolchain hagain
    obtain ⟨source, analysis, -, haccepted, hholds⟩ := hholds hcode
    exact hagain.skips haccepted (htoolchain ▸ hholds.upToDateOn)
  constructor
  case accepted =>
    intro source analysis htext hanalysis
    have haccepted := accepted?_eq_some.2 ⟨htext, hanalysis⟩
    generalize (command words).execute s disk = r at hend
    cases hend with
    | rejected t hrejected =>
      rw [haccepted] at hrejected
      cases hrejected
    | skipped | stored => rfl
  case rejected =>
    intro hrejected
    have hnone : accepted? disk entry = none := by
      rw [Option.eq_none_iff_forall_ne_some]
      rintro ⟨source, analysis⟩ haccepted
      obtain ⟨htext, hanalysis⟩ := accepted?_eq_some.1 haccepted
      exact hrejected source analysis htext hanalysis
    obtain ⟨t, hrun⟩ := hbuilds.rejects hnone
    rw [hrun]
    exact ⟨rfl, rfl⟩
  case holds =>
    intro hcode
    obtain ⟨source, analysis, haccepted, -, hholds⟩ := hholds hcode
    obtain ⟨htext, hanalysis⟩ := accepted?_eq_some.1 haccepted
    exact ⟨source, analysis, htext, hanalysis, hholds⟩
  case found => exact hfound
  case repeated =>
    intro hcode hsame
    exact hfound hcode words s rfl (hbuilds.again hend.spares (hconsistent.noManifestAt hreader) hsame)
  case settled => exact hend.sameManifest words

end

/-! ## A build that changes which manifest is found -/

/-- A directory with one file. -/
def oneFile : Disk where
  nodes := [(["work"], .directory), (["work", "n.wb"], .file (Bytes.ofText "int n;"))]
  current := ["work"]

/-- Surroundings with a setting for the build directory. -/
def buildingInto (directory : String) : Surroundings where
  env := [("WUMBO_BUILD_OUT_DIR", directory)]
  toolchain := ⟨"linux", "0.1", "debug"⟩

/-- The words that ask for a build of the file. -/
def buildWords : List String := ["build", "--file", "n.wb"]

theorem builds_oneFile (directory path : String)
    (hpath : outDirOn (buildingInto directory).env oneFile {} = .ok path) :
    Builds buildWords (buildingInto directory) oneFile "/work/n.wb" path := by
  have hmanifest : NoManifest oneFile := by
    unfold NoManifest
    decide
  have hplanned : (planned buildWords).on (buildingInto directory) {} oneFile = _ :=
    on_planned rfl rfl rfl rfl hmanifest
  have hentry : Path.join oneFile.currentPath "n.wb" = "/work/n.wb" := by decide
  exact ⟨_, _, hplanned, rfl, rfl, hentry, hpath⟩

theorem reliable_oneFile {directory path : String} (hstore : CanStore oneFile path)
    (hapart : ["work", "n.wb"] ∉ buildFiles (Disk.target oneFile.current path)) :
    Reliable {"int n;"} (buildingInto directory) oneFile "/work/n.wb" path := by
  have htext : oneFile.text "/work/n.wb" = .ok "int n;" := by decide
  refine ⟨hstore, hapart, fun source hsource => ?_, fun source => ?_⟩
  · simpa [htext] using hsource.symm
  · change formatVersion < 256 ^ 4 ∧ TextFits "/work/n.wb" ∧ TextFits "linux" ∧ TextFits "0.1" ∧ TextFits "debug"
    unfold TextFits
    decide

theorem refusesBinary_buildingInto (directory : String) : (buildingInto directory).RefusesBinary :=
  fun _ _ h manifest => Manifest.ofText_ne_ok h manifest

/-- A build of the file, and the same once more. -/
theorem build_cache_sound_of_start :
    let s := buildingInto "out"
    let r := (command buildWords).execute s oneFile
    Set.InjOn SipHash.ofString {"int n;"} ∧ History ["work", "out"] {"int n;"} oneFile ∧
      Builds buildWords s oneFile "/work/n.wb" "/work/out" ∧
      Disk.target oneFile.current "/work/out" = ["work", "out"] ∧
      Reliable {"int n;"} s oneFile "/work/n.wb" "/work/out" ∧ s.RefusesBinary ∧
      Sound buildWords s oneFile "/work/n.wb" "/work/out" r ∧
      r.1.1 = 0 ∧ SameManifest buildWords oneFile r.2 ∧ FindsUpToDate buildWords s r.2 := by
  intro s r
  have hinj : Set.InjOn SipHash.ofString {"int n;"} := Set.injOn_singleton _ _
  have hhistory : History ["work", "out"] {"int n;"} oneFile := .start (by decide)
  have hbuilds : Builds buildWords s oneFile "/work/n.wb" "/work/out" := builds_oneFile "out" _ (by decide)
  have hdirectory : Disk.target oneFile.current "/work/out" = ["work", "out"] := by decide
  have hstore : CanStore oneFile "/work/out" :=
    ⟨oneFile.put ["work", "out"] .directory, fun _ _ => rfl, fun program metadata =>
      ⟨(oneFile.put ["work", "out"] .directory).put ["work", "out", "program.bin"] (.file program), _, by rfl, by rfl⟩⟩
  have hreliable : Reliable {"int n;"} s oneFile "/work/n.wb" "/work/out" := reliable_oneFile hstore (by decide)
  have hreader : s.RefusesBinary := refusesBinary_buildingInto "out"
  have hsound : Sound buildWords s oneFile "/work/n.wb" "/work/out" r :=
    build_cache_sound hinj hhistory hbuilds hdirectory hreliable hreader
  have hcode : r.1.1 = 0 := by decide +kernel
  have hsame : SameManifest buildWords oneFile r.2 := by
    constructor
    · decide +kernel
    · intro task options hoptions
      obtain rfl : options = { entry := some "n.wb" } := by
        cases hoptions
        rfl
      decide +kernel
  exact ⟨hinj, hhistory, hbuilds, hdirectory, hreliable, hreader, hsound, hcode, hsame, hsound.repeated hcode hsame⟩

/-- If the build directory has the name of a manifest, the same build once more takes it for one and fails. -/
theorem repeated_build_refused :
    let s := buildingInto manifestName
    let r := (command buildWords).execute s oneFile
    Set.InjOn SipHash.ofString {"int n;"} ∧ History ["work", "wumbo.toml"] {"int n;"} oneFile ∧
      Builds buildWords s oneFile "/work/n.wb" "/work/wumbo.toml" ∧
      Disk.target oneFile.current "/work/wumbo.toml" = ["work", "wumbo.toml"] ∧
      Reliable {"int n;"} s oneFile "/work/n.wb" "/work/wumbo.toml" ∧ s.RefusesBinary ∧ r.1.1 = 0 ∧
      (command buildWords).execute s r.2 =
        ((1, { err := "error: failed to read /work/wumbo.toml: Is a directory (os error 21)\n" }), r.2) ∧
      ¬ FindsUpToDate buildWords s r.2 := by
  intro s r
  have hstore : CanStore oneFile "/work/wumbo.toml" :=
    ⟨oneFile.put ["work", "wumbo.toml"] .directory, fun _ _ => rfl, fun program metadata =>
      ⟨(oneFile.put ["work", "wumbo.toml"] .directory).put ["work", "wumbo.toml", "program.bin"] (.file program), _,
        by rfl, by rfl⟩⟩
  have hfails : (command buildWords).execute s r.2 =
      ((1, { err := "error: failed to read /work/wumbo.toml: Is a directory (os error 21)\n" }), r.2) := by
    decide +kernel
  refine ⟨Set.injOn_singleton _ _, .start (by decide), builds_oneFile manifestName _ (by decide), by decide,
    reliable_oneFile hstore (by decide), refusesBinary_buildingInto manifestName, by decide +kernel, hfails, ?_⟩
  rintro ⟨colored, t, hrun⟩
  rw [hfails] at hrun
  cases hrun

end Namescope.Project
