import Namescope.Proofs.Build.Decoding
import Namescope.Proofs.Command.Plans
import Namescope.Proofs.Files.Changes
/-!
# What a build stores

A build looks into the build directory, and if what is there does not do it writes a program and its metadata. The two
files have places of their own, and what is written there is read back.
-/
namespace Namescope

open Run

/-! ## Metadata -/

namespace Metadata

/-- The texts in metadata have lengths that fit eight bytes. -/
def Fits (m : Metadata) : Prop :=
  m.version < 256 ^ 4 ∧ TextFits m.entry ∧ TextFits m.toolchain.target ∧ TextFits m.toolchain.compiler ∧
    TextFits m.toolchain.release

instance (m : Metadata) : Decidable m.Fits :=
  inferInstanceAs (Decidable (m.version < 256 ^ 4 ∧ TextFits m.entry ∧ TextFits m.toolchain.target ∧
    TextFits m.toolchain.compiler ∧ TextFits m.toolchain.release))

/-- Of a source text metadata keeps a hash, which always fits. -/
theorem fits_describe {toolchain : Toolchain} {entry source other : String}
    (h : (describe toolchain entry other).Fits) : (describe toolchain entry source).Fits := by
  unfold Fits describe at h ⊢
  exact h

theorem reads_encode {m : Metadata} (h : m.Fits) : Decoder.Reads decoder m.encode m := by
  obtain ⟨hversion, hentry, htarget, hcompiler, hrelease⟩ := h
  have hlt : m.sourceHash.toNat < 256 ^ 8 := Nat.lt_of_lt_of_eq m.sourceHash.toNat_lt (by decide)
  have hhash : Decoder.Reads Decoder.nat64 (Bytes.ofNat64 m.sourceHash.toNat) m.sourceHash.toNat :=
    Decoder.reads_nat hlt
  simp only [encode, List.append_assoc]
  refine (Decoder.reads_nat hversion).bind ((Decoder.reads_string hentry).bind (hhash.bind ?_))
  refine (Decoder.reads_string htarget).bind ((Decoder.reads_string hcompiler).bind ?_)
  rw [UInt64.ofNat_toNat]
  exact (Decoder.reads_string hrelease).last _

/-- Metadata of the current version is found in what it is written as. -/
theorem ofBytes?_encode {m : Metadata} (h : m.Fits) (hversion : m.version = formatVersion) :
    ofBytes? m.encode = some m := by
  have hreads := reads_encode h []
  rw [List.append_nil] at hreads
  rw [ofBytes?, read, hreads]
  dsimp only
  rw [if_pos hversion]

end Metadata

/-- What a build makes of an analysis. -/
abbrev Analysis.artifact (analysis : Analysis) : Artifact := ⟨formatVersion, analysis.program, analysis.table⟩

/-! ## The version in front -/

/-- The bytes begin with the format version, as all that a build writes does. -/
def Versioned (bytes : Bytes) : Prop := Bytes.ofNat32 formatVersion <+: bytes

theorem Analysis.versioned (analysis : Analysis) : Versioned analysis.artifact.encode := by
  rw [Artifact.encode, List.append_assoc]
  exact List.prefix_append ..

theorem Metadata.versioned {m : Metadata} (h : m.version = formatVersion) : Versioned m.encode := by
  simp only [encode, h, List.append_assoc]
  exact List.prefix_append ..

/-- As a text, such bytes begin with a control character. -/
theorem Versioned.toList_eq {bytes : Bytes} (h : Versioned bytes) {text : String} (htext : bytes.toText? = some text) :
    ∃ more, text.toList = '\x01' :: more := by
  obtain ⟨rest, rfl⟩ := h
  obtain ⟨c, more, hlist, hc⟩ := Bytes.exists_cons_of_ofText (Bytes.toText?_eq_some.1 htext).symm (by decide)
  obtain rfl : c = '\x01' := Char.ext (UInt32.toNat_inj.1 hc)
  exact ⟨more, hlist⟩

namespace Project

/-! ## The two files -/

/-- The path of the program in a build directory. -/
abbrev programPath (path : Path) : Path := Path.join path programName

/-- The path of the metadata in a build directory. -/
abbrev metadataPath (path : Path) : Path := Path.join path metadataName

/-- Where the program is in a build directory. -/
def programPlace (directory : Place) : Place := directory ++ [programName]

/-- Where the metadata is in a build directory. -/
def metadataPlace (directory : Place) : Place := directory ++ [metadataName]

/-- Where the files of a build are. -/
def buildFiles (directory : Place) : List Place := [programPlace directory, metadataPlace directory]

theorem mem_buildFiles {directory place : Place} :
    place ∈ buildFiles directory ↔ place = programPlace directory ∨ place = metadataPlace directory := by
  simp [buildFiles]

theorem target_programPath (current : Place) (path : Path) :
    Disk.target current (programPath path) = programPlace (Disk.target current path) :=
  Disk.target_join current path (by decide) (by decide) (by decide)

theorem target_metadataPath (current : Place) (path : Path) :
    Disk.target current (metadataPath path) = metadataPlace (Disk.target current path) :=
  Disk.target_join current path (by decide) (by decide) (by decide)

theorem programPlace_ne (directory : Place) : programPlace directory ≠ metadataPlace directory := by
  intro h
  have hname : [programName] = [metadataName] := List.append_cancel_left h
  exact absurd hname (by decide)

/-! ## Looking into the directory -/

variable {s : Surroundings} {t : Transcript} {disk : Disk}

/-- The metadata in a file. -/
def metadataOn? (disk : Disk) (path : Path) : Option Metadata :=
  (disk.read path).toOption.bind Metadata.ofBytes?

/-- Whether the build directory holds a program with this metadata. -/
def upToDateOn (disk : Disk) (directory : Path) (metadata : Metadata) : Bool :=
  (disk.find? (programPath directory)).isSome && metadataOn? disk (metadataPath directory) = some metadata

theorem metadataOn?_eq_some {path : Path} {metadata : Metadata} :
    metadataOn? disk path = some metadata ↔
      ∃ bytes, disk.read path = .ok bytes ∧ Metadata.ofBytes? bytes = some metadata := by
  unfold metadataOn?
  cases disk.read path <;> simp [Except.toOption]

theorem on_storedMetadata? (s : Surroundings) (t : Transcript) (disk : Disk) (path : Path) :
    ∃ text, (storedMetadata? path : Run (StateM Disk) (Option Metadata)).on s t disk =
      ((.ok (metadataOn? disk path), t.addErr text), disk) := by
  rw [storedMetadata?, on_bind_ok (on_readBytes path), metadataOn?]
  cases disk.read path with
  | error e => exact ⟨"", by rw [Transcript.addErr_empty]; rfl⟩
  | ok bytes =>
    simp only [Except.toOption, Option.bind_some, Metadata.ofBytes?]
    cases Metadata.read bytes with
    | valid m => exact ⟨"", by rw [Transcript.addErr_empty]; rfl⟩
    | unreadable => exact ⟨"", by rw [Transcript.addErr_empty]; rfl⟩
    | stale => exact ⟨_, rfl⟩

theorem on_isUpToDate (s : Surroundings) (t : Transcript) (disk : Disk) (directory : Path) (metadata : Metadata) :
    ∃ text, (isUpToDate directory metadata : Run (StateM Disk) Bool).on s t disk =
      ((.ok (upToDateOn disk directory metadata), t.addErr text), disk) := by
  obtain ⟨text, hstored⟩ := on_storedMetadata? s t disk (metadataPath directory)
  refine ⟨text, ?_⟩
  rw [isUpToDate, on_bind_ok hstored, on_bind_ok (on_isPresent _), upToDateOn]
  cases (disk.find? (programPath directory)).isSome <;> rfl

/-! ## Storing -/

/-- Directories can be created and files written where a build stores them, whatever is in the files. -/
def CanStore (disk : Disk) (path : Path) : Prop :=
  ∃ disk₁, (∀ s t, (FileSystem.createDirectories path : Run (StateM Disk) (Except FileError Unit)).on s t disk =
      ((.ok (.ok ()), t), disk₁)) ∧
    ∀ program metadata, ∃ disk₂ disk₃, disk₁.write (programPath path) program = .ok disk₂ ∧
      disk₂.write (metadataPath path) metadata = .ok disk₃

/-- The disk after something was stored in the build directory of a path. -/
structure Stored (path : Path) (program metadata : Bytes) (disk disk' : Disk) : Prop where
  spares : disk.Spares (buildFiles (Disk.target disk.current path)) disk'
  program : disk'.read (programPath path) = .ok program
  metadata : disk'.read (metadataPath path) = .ok metadata

theorem Stored.program_node {path : Path} {program metadata : Bytes} {disk' : Disk}
    (h : Stored path program metadata disk disk') :
    disk'.node? (programPlace (Disk.target disk.current path)) = some (.file program) := by
  have hnode := (Disk.read_eq_ok h.program).2
  rwa [h.spares.below.1, target_programPath] at hnode

theorem Stored.metadata_node {path : Path} {program metadata : Bytes} {disk' : Disk}
    (h : Stored path program metadata disk disk') :
    disk'.node? (metadataPlace (Disk.target disk.current path)) = some (.file metadata) := by
  have hnode := (Disk.read_eq_ok h.metadata).2
  rwa [h.spares.below.1, target_metadataPath] at hnode

/-- A write that fails leaves the disk as it was. -/
theorem on_write (path : Path) (content : Bytes) :
    (FileSystem.write path content : Run (StateM Disk) (Except FileError Unit)).on s t disk =
      match disk.write path content with
      | .ok disk' => ((.ok (.ok ()), t), disk')
      | .error e => ((.ok (.error e), t), disk) := by
  have hask : (FileSystem.write path content : Run (StateM Disk) (Except FileError Unit)).on s t disk =
      ((.ok (Disk.attempt (fun disk => disk.write path content) disk).1, t),
        (Disk.attempt (fun disk => disk.write path content) disk).2) := rfl
  rw [hask, Disk.attempt]
  cases disk.write path content <;> rfl

/-- What is written to the one and then to the other file can be read in both. -/
theorem stored_of_writes {path : Path} {program metadata : Bytes} {disk₁ disk₂ disk₃ : Disk}
    (hgrows : disk.Grows disk₁) (hprogram : disk₁.write (programPath path) program = .ok disk₂)
    (hmetadata : disk₂.write (metadataPath path) metadata = .ok disk₃) :
    Stored path program metadata disk disk₃ := by
  have hcurrent : disk₁.current = disk.current := hgrows.current
  have hcurrent₂ : disk₂.current = disk.current := (Disk.current_of_write hprogram).trans hcurrent
  have hnode (place : Place) : disk₃.node? place =
      if place = metadataPlace (Disk.target disk.current path) then some (.file metadata)
      else if place = programPlace (Disk.target disk.current path) then some (.file program)
      else disk₁.node? place := by
    rw [Disk.node?_of_write hmetadata, Disk.node?_of_write hprogram, hcurrent, hcurrent₂, target_programPath,
      target_metadataPath]
  have hbelow₁ := Disk.below_of_write hprogram
  have hbelow₂ := Disk.below_of_write hmetadata
  refine ⟨⟨(hgrows.below.trans hbelow₁).trans hbelow₂, fun place hne => ?_⟩, ?_, ?_⟩
  · rw [mem_buildFiles, not_or] at hne
    rw [hnode, if_neg hne.2, if_neg hne.1]
    exact hgrows.node place
  · obtain ⟨place, hplace, -, -⟩ := Disk.write_eq_ok hprogram
    refine Disk.read_of_node ((hbelow₁.trans hbelow₂).place hplace) ?_
    obtain rfl : place = programPlace (Disk.target disk.current path) := by
      rw [Disk.eq_target_of_place hplace, hcurrent, target_programPath]
    rw [hnode, if_neg (programPlace_ne _), if_pos rfl]
  · obtain ⟨place, hplace, -, -⟩ := Disk.write_eq_ok hmetadata
    refine Disk.read_of_node (hbelow₂.place hplace) ?_
    obtain rfl : place = metadataPlace (Disk.target disk.current path) := by
      rw [Disk.eq_target_of_place hplace, hcurrent₂, target_metadataPath]
    rw [hnode, if_pos rfl]

theorem CanStore.stored {path : Path} (h : CanStore disk path) (analysis : Analysis) (metadata : Metadata) :
    ∃ disk', (store path analysis metadata : Run (StateM Disk) Unit).on s t disk = ((.ok (), t), disk') ∧
      Stored path analysis.artifact.encode metadata.encode disk disk' := by
  obtain ⟨disk₁, hcreate, hwrite⟩ := h
  obtain ⟨disk₂, disk₃, hprogram, hmetadata⟩ :=
    hwrite analysis.artifact.encode metadata.encode
  obtain ⟨r, disk₁', hquiet, hgrows⟩ := FileSystem.quietly_createNested (path :: Path.parents path) s t disk
  have e : disk₁' = disk₁ := by
    have hcreate := hcreate s t
    rw [FileSystem.createDirectories, hquiet] at hcreate
    exact (Prod.mk.inj hcreate).2
  subst e
  refine ⟨disk₃, ?_, stored_of_writes hgrows hprogram hmetadata⟩
  rw [store, on_bind_ok (hcreate s t), on_bind_ok (on_orFail_ok _ _ _)]
  dsimp only
  rw [on_bind, on_write, hprogram]
  dsimp only
  rw [on_bind_ok (on_orFail_ok _ _ _), on_bind, on_write, hmetadata]
  exact on_orFail_ok _ _ _

/-! ## A build -/

/-- The path of the build directory of a project. -/
def outDirOn (env : Environment) (disk : Disk) (project : Project) : Except FileError Path :=
  (baseOn disk project).map fun base =>
    Path.join base (((env.text? "build" "out_dir").or project.manifest.outDir).getD defaultOutDir)

theorem on_outDir (project : Project) :
    (project.outDir : Run (StateM Disk) Path).on s t disk =
      match outDirOn s.env disk project with
      | .ok path => ((.ok path, t), disk)
      | .error e => ((.error 1, t.addErr (directoryLine s.colored e)), disk) := by
  have hbase : (project.baseDirectory : Run (StateM Disk) Path).on s t disk = _ := on_baseDirectory project
  rw [outDir, on_bind_ok on_read, outDirOn]
  dsimp only
  cases hdirectory : baseOn disk project with
  | error e =>
    rw [hdirectory] at hbase
    exact on_bind_error hbase
  | ok path =>
    rw [hdirectory] at hbase
    exact on_bind_ok hbase

theorem outDirOn_again {env : Environment} {places : List Place} {disk' : Disk} {project : Project} {path : Path}
    (hspares : disk.Spares places disk') (h : outDirOn env disk project = .ok path) :
    outDirOn env disk' project = .ok path := by
  unfold outDirOn baseOn at h ⊢
  cases hdirectory : project.directory with
  | some directory =>
    rw [hdirectory] at h
    exact h
  | none =>
    rw [hdirectory] at h
    cases hcurrent : disk.currentDirectory with
    | error e =>
      rw [hcurrent] at h
      cases h
    | ok current =>
      rw [hcurrent] at h
      dsimp only
      rw [hspares.currentDirectory hcurrent]
      exact h

/-- The text of the entry file with its analysis, if it can be read and has no errors. -/
def accepted? (disk : Disk) (entry : Path) : Option (String × Analysis) :=
  (disk.text entry).toOption.bind fun source => (Analysis.ofText? source).map (source, ·)

theorem accepted?_eq_some {entry : Path} {source : String} {analysis : Analysis} :
    accepted? disk entry = some (source, analysis) ↔
      disk.text entry = .ok source ∧ Analysis.ofText? source = some analysis := by
  unfold accepted?
  cases disk.text entry with
  | error e => simp [Except.toOption]
  | ok text =>
    simp only [Except.toOption, Option.bind_some, Option.map_eq_some_iff, Prod.mk.injEq, Except.ok.injEq]
    constructor
    · rintro ⟨found, hfound, rfl, rfl⟩
      exact ⟨rfl, hfound⟩
    · rintro ⟨rfl, hanalysis⟩
      exact ⟨analysis, hanalysis, rfl, rfl⟩

section
variable {project : Project} {options : Options} (hclean : options.clean = false) {entry path : Path}
  (hpath : outDirOn s.env disk project = .ok path)
include hclean hpath

/-- A build gets to its work if its directory can be told. -/
theorem on_build :
    (project.build options entry).on s t disk = (do
      let source ← sourceOf entry
      let analysis ← analyzed entry source
      let metadata := Metadata.describe (← read).toolchain entry source
      match ← isUpToDate path metadata with
      | true => sayStep .build "up to date"
      | false =>
        store path analysis metadata
        sayStep .build ("wrote " ++ programPath path) : Run (StateM Disk) Unit).on s t disk := by
  have houtDir : (project.outDir : Run (StateM Disk) Path).on s t disk = _ := on_outDir project
  rw [hpath] at houtDir
  rw [build, hclean]
  exact on_bind_ok houtDir

/-- A text that is rejected, or cannot be read, ends a build. -/
theorem on_build_rejected (h : accepted? disk entry = none) :
    ∃ t', (project.build options entry).on s t disk = ((.error 1, t'), disk) := by
  have hsource : (sourceOf entry : Run (StateM Disk) String).on s t disk = _ := on_sourceOf entry
  unfold accepted? at h
  rw [on_build hclean hpath]
  cases htext : disk.text entry with
  | error e =>
    rw [htext] at hsource
    exact ⟨_, on_bind_error hsource⟩
  | ok source =>
    rw [htext] at hsource h
    have hnone : Analysis.ofText? source = none := by simpa [Except.toOption] using h
    have hanalyzed := tells_analyzed (s := s) entry source t disk
    rw [hnone] at hanalyzed
    rw [on_bind_ok hsource]
    exact ⟨_, on_bind_error hanalyzed⟩

/-- A text that is accepted is stored, unless what is there does. -/
theorem on_build_accepted {source : String} {analysis : Analysis} (h : accepted? disk entry = some (source, analysis)) :
    ∃ t', (project.build options entry).on s t disk =
      (match upToDateOn disk path (.describe s.toolchain entry source) with
        | true => sayStep .build "up to date"
        | false =>
          store path analysis (.describe s.toolchain entry source) >>= fun _ =>
            sayStep .build ("wrote " ++ programPath path)).on s t' disk := by
  have hsource : (sourceOf entry : Run (StateM Disk) String).on s t disk = _ := on_sourceOf entry
  unfold accepted? at h
  rw [on_build hclean hpath]
  cases htext : disk.text entry with
  | error e =>
    rw [htext] at h
    cases h
  | ok text =>
    rw [htext] at hsource h
    obtain ⟨hanalysis, rfl⟩ : Analysis.ofText? text = some analysis ∧ text = source := by
      simpa [Except.toOption, and_comm] using h
    have hanalyzed := tells_analyzed (s := s) entry text t disk
    rw [hanalysis] at hanalyzed
    rw [on_bind_ok hsource, on_bind_ok hanalyzed, on_bind_ok on_read]
    obtain ⟨t', hcurrent⟩ := on_isUpToDate s
      (t.addErr (said s.env (Diagnostic.excerpt s.colored text) (Inspection.ofText entry text).remarks)) disk
      path (.describe s.toolchain entry text)
    rw [on_bind_ok hcurrent]
    exact ⟨_, rfl⟩

end

/-- A build whose directory cannot be told changes nothing. -/
theorem disk_of_build_error {project : Project} {e : FileError} (h : outDirOn s.env disk project = .error e)
    (options : Options) (entry : Path) : ((project.build options entry).on s t disk).2 = disk := by
  have houtDir : (project.outDir : Run (StateM Disk) Path).on s t disk = _ := on_outDir project
  rw [h] at houtDir
  rw [build, on_bind_error houtDir]

/-- A build directory that is to be removed only loses what is in it. -/
theorem shrinks_clean (project : Project) {options : Options} (hclean : options.clean = true) (entry : Path) :
    disk.Shrinks ((project.build options entry).on s t disk).2 := by
  cases hpath : outDirOn s.env disk project with
  | error e =>
    rw [disk_of_build_error hpath]
    exact .refl disk
  | ok path =>
    have houtDir : (project.outDir : Run (StateM Disk) Path).on s t disk = _ := on_outDir project
    have hremove : (FileSystem.removeTree path : Run (StateM Disk) (Except FileError Unit)).on s t disk =
        ((.ok (disk.removeTree path).1, t), (disk.removeTree path).2) := rfl
    rw [hpath] at houtDir
    rw [build, on_bind_ok houtDir, hclean]
    dsimp only
    rw [clean, on_bind_ok (on_isPresent _)]
    cases (disk.find? path).isSome with
    | false => exact .refl disk
    | true =>
      dsimp only
      rw [on_bind_ok hremove, Keeps.orFail]
      exact Disk.shrinks_removeTree disk _

end Project

end Namescope
