import Namescope.Proofs.Build.Builds
/-!
# Builds that fail half way

A build writes the program first and its metadata after it. Where any of this may fail, the two files of a build
directory still were written together after every build but one: a build that replaces the program and then cannot
write the metadata leaves the metadata of the build before it beside a program that it does not describe.
-/
namespace Namescope.Project

open Run

/-! ## Pairs of files -/

/-- A program and metadata as one build of a text writes them. -/
def WrittenTogether (program metadata : Bytes) : Prop :=
  ∃ toolchain entry source analysis, Analysis.ofText? source = some analysis ∧
    program = analysis.artifact.encode ∧ (Metadata.describe toolchain entry source).Fits ∧
    metadata = (Metadata.describe toolchain entry source).encode

/-- The metadata in a build directory, if it can be read, was written together with the program there. -/
def Paired (directory : Place) (disk : Disk) : Prop :=
  ∀ program bytes, disk.node? (programPlace directory) = some (.file program) →
    disk.node? (metadataPlace directory) = some (.file bytes) → (Metadata.ofBytes? bytes).isSome →
    WrittenTogether program bytes

/-- A build that left the two files apart: the program was replaced, the metadata could not be written and is as it
was. -/
structure Torn (s : Surroundings) (disk : Disk) (entry path : Path) (r : (ExitCode × Transcript) × Disk) : Prop where
  code : r.1.1 = 1
  replaced : ∃ source analysis, accepted? disk entry = some (source, analysis) ∧
    upToDateOn disk path (.describe s.toolchain entry source) = false ∧
    r.2.node? (programPlace (Disk.target disk.current path)) = some (.file analysis.artifact.encode) ∧
    ∃ e, r.2.write (metadataPath path) (Metadata.describe s.toolchain entry source).encode = .error e
  kept : ∀ bytes, r.2.node? (metadataPlace (Disk.target disk.current path)) = some (.file bytes) ↔
    disk.node? (metadataPlace (Disk.target disk.current path)) = some (.file bytes)

section
variable {directory : Place} {path entry : Path} {disk disk' : Disk} {s : Surroundings} {t : Transcript}
  {words : List String}

theorem Paired.change (h : Paired directory disk)
    (hnode : ∀ place ∈ buildFiles directory, ∀ bytes, disk'.node? place = some (.file bytes) →
      disk.node? place = some (.file bytes)) :
    Paired directory disk' := by
  intro program bytes hprogram hmetadata hbytes
  apply h program bytes _ _ hbytes
  · exact hnode _ (mem_buildFiles.2 (.inl rfl)) _ hprogram
  · exact hnode _ (mem_buildFiles.2 (.inr rfl)) _ hmetadata

/-- Removing any of the two files leaves none or a pair. -/
theorem Paired.removal (h : Paired directory disk)
    (hnode : ∀ place ∈ buildFiles directory, disk'.node? place = disk.node? place ∨ disk'.node? place = none) :
    Paired directory disk' := by
  refine h.change fun place hplace bytes hbytes => ?_
  obtain e | e := hnode place hplace
  · rw [← e, hbytes]
  · rw [e] at hbytes
    cases hbytes

/-- Directories that are added are no files. -/
theorem file_of_grows (h : disk.Grows disk') (place : Place) (bytes : Bytes) :
    disk'.node? place = some (.file bytes) ↔ disk.node? place = some (.file bytes) := by
  constructor
  · intro hbytes
    obtain e | ⟨-, e⟩ := h.node place
    · rw [← e, hbytes]
    · rw [e] at hbytes
      cases hbytes
  · exact h.node_eq

theorem Paired.grows (h : Paired directory disk) (hgrows : disk.Grows disk') : Paired directory disk' :=
  h.change fun place _ bytes => (file_of_grows hgrows place bytes).1

/-- What a build stores is a pair. -/
theorem Stored.paired {source : String} {analysis : Analysis} {toolchain : Toolchain}
    (hanalysis : Analysis.ofText? source = some analysis) (hfits : (Metadata.describe toolchain entry source).Fits)
    (h : Stored path analysis.artifact.encode (Metadata.describe toolchain entry source).encode disk disk') :
    Paired (Disk.target disk.current path) disk' := by
  intro program bytes hprogram hmetadata _
  rw [h.program_node] at hprogram
  rw [h.metadata_node] at hmetadata
  cases hprogram
  cases hmetadata
  exact ⟨toolchain, entry, source, analysis, hanalysis, rfl, hfits, rfl⟩

/-- Metadata that was written with a program names its text by the hash. -/
theorem WrittenTogether.hash {program bytes : Bytes} (h : WrittenTogether program bytes) {metadata : Metadata}
    (hbytes : Metadata.ofBytes? bytes = some metadata) :
    ∃ source analysis, Analysis.ofText? source = some analysis ∧ program = analysis.artifact.encode ∧
      metadata = .describe metadata.toolchain metadata.entry source := by
  obtain ⟨toolchain, entry, source, analysis, hanalysis, hprogram, hfits, rfl⟩ := h
  rw [Metadata.ofBytes?_encode hfits rfl] at hbytes
  obtain rfl := Option.some.inj hbytes
  exact ⟨source, analysis, hanalysis, hprogram, rfl⟩

/-! ## Writes that may fail -/

/-- How storing ends: nothing is written, the program alone, or both files. -/
inductive WriteEnd (path : Path) (program metadata : Bytes) (disk : Disk) : Except ExitCode Unit → Disk → Prop
  | refused {disk₁} : disk.Grows disk₁ → WriteEnd path program metadata disk (.error 1) disk₁
  | halved {disk₁ disk₂ e} : disk.Grows disk₁ → disk₁.write (programPath path) program = .ok disk₂ →
      disk₂.write (metadataPath path) metadata = .error e →
      WriteEnd path program metadata disk (.error 1) disk₂
  | done {disk₁ disk₂ disk₃} : disk.Grows disk₁ → disk₁.write (programPath path) program = .ok disk₂ →
      disk₂.write (metadataPath path) metadata = .ok disk₃ →
      WriteEnd path program metadata disk (.ok ()) disk₃

/-- Whatever can be written of what a build stores, storing ends in one of three ways. -/
theorem on_store (s : Surroundings) (t : Transcript) (disk : Disk) (path : Path) (analysis : Analysis)
    (metadata : Metadata) :
    ∃ r t' disk', (store path analysis metadata : Run (StateM Disk) Unit).on s t disk = ((r, t'), disk') ∧
      WriteEnd path analysis.artifact.encode metadata.encode disk r disk' := by
  obtain ⟨created, disk₁, hcreate, hgrows⟩ := FileSystem.quietly_createNested (path :: Path.parents path) s t disk
  rw [store, FileSystem.createDirectories, on_bind_ok hcreate]
  cases created with
  | error e => exact ⟨_, _, disk₁, on_bind_error (on_orFail_error _ _ e), .refused hgrows⟩
  | ok =>
    rw [on_bind_ok (on_orFail_ok _ _ _)]
    dsimp only
    rw [on_bind, on_write]
    cases hprogram : disk₁.write (programPath path) analysis.artifact.encode with
    | error e => exact ⟨_, _, disk₁, on_bind_error (on_orFail_error _ _ e), .refused hgrows⟩
    | ok disk₂ =>
      dsimp only
      rw [on_bind_ok (on_orFail_ok _ _ _), on_bind, on_write]
      cases hmetadata : disk₂.write (metadataPath path) metadata.encode with
      | error e => exact ⟨_, _, disk₂, on_orFail_error _ _ e, .halved hgrows hprogram hmetadata⟩
      | ok disk₃ => exact ⟨_, t, disk₃, on_orFail_ok _ _ _, .done hgrows hprogram hmetadata⟩

/-! ## Builds -/

/-- The exit code of a build that ends in some way. -/
def codeOf : Except ExitCode Unit → ExitCode
  | .ok () => 0
  | .error code => code

/-- A build of what is not there tries to store it. -/
theorem Builds.writes (h : Builds words s disk entry path) {source : String} {analysis : Analysis}
    (haccepted : accepted? disk entry = some (source, analysis))
    (hcurrent : upToDateOn disk path (.describe s.toolchain entry source) = false) :
    ∃ r t disk', (command words).execute s disk = ((codeOf r, t), disk') ∧
      WriteEnd path analysis.artifact.encode (Metadata.describe s.toolchain entry source).encode disk r disk' := by
  obtain ⟨project, options, colored, t, hclean, hpath, hrun⟩ := h.on
  obtain ⟨t', hbuild⟩ := on_build_accepted (s := { s with colored := colored }) (t := t) hclean hpath haccepted
  obtain ⟨r, t'', disk', hstore, hend⟩ := on_store { s with colored := colored } t' disk path analysis
    (.describe s.toolchain entry source)
  rw [hcurrent] at hbuild
  dsimp only at hbuild
  rw [hrun, on_concluded, hbuild]
  cases r with
  | error code =>
    rw [on_bind_error hstore]
    exact ⟨_, _, disk', rfl, hend⟩
  | ok =>
    rw [on_bind_ok hstore, on_sayStep]
    exact ⟨_, _, disk', rfl, hend⟩

/-- Storing keeps the two files together unless it ends between them. -/
theorem WriteEnd.pairs {source : String} {analysis : Analysis} {r : Except ExitCode Unit}
    (h : WriteEnd path analysis.artifact.encode (Metadata.describe s.toolchain entry source).encode disk r disk')
    (hpaired : Paired (Disk.target disk.current path) disk)
    (hfits : (Metadata.describe s.toolchain entry source).Fits)
    (haccepted : accepted? disk entry = some (source, analysis))
    (hcurrent : upToDateOn disk path (.describe s.toolchain entry source) = false) :
    (Paired (Disk.target disk.current path) disk' ∨ Torn s disk entry path ((codeOf r, t), disk')) ∧
      (codeOf r = 0 → Paired (Disk.target disk.current path) disk') := by
  obtain ⟨-, hanalysis⟩ := accepted?_eq_some.1 haccepted
  cases h with
  | refused hgrows => exact ⟨.inl (hpaired.grows hgrows), fun _ => hpaired.grows hgrows⟩
  | done hgrows hprogram hmetadata =>
    have hstored := (stored_of_writes hgrows hprogram hmetadata).paired hanalysis hfits
    exact ⟨.inl hstored, fun _ => hstored⟩
  | @halved disk₁ _ e hgrows hprogram hmetadata =>
    have hnode (place : Place) : disk'.node? place =
        if place = programPlace (Disk.target disk.current path) then some (.file analysis.artifact.encode)
        else disk₁.node? place := by
      rw [Disk.node?_of_write hprogram, hgrows.current, target_programPath]
    refine ⟨.inr ⟨rfl, ⟨source, analysis, haccepted, hcurrent, ?_, e, hmetadata⟩, fun bytes => ?_⟩, ?_⟩
    · dsimp only
      rw [hnode, if_pos rfl]
    · dsimp only
      rw [hnode, if_neg (programPlace_ne _).symm]
      exact file_of_grows hgrows _ bytes
    · intro hcode
      cases hcode

/-- What holds after a build on a disk, whatever can be written there. -/
structure Vouches (s : Surroundings) (disk : Disk) (entry path : Path) (r : (ExitCode × Transcript) × Disk) :
    Prop where
  paired : Paired (Disk.target disk.current path) r.2 ∨ Torn s disk entry path r
  finished : r.1.1 = 0 → Paired (Disk.target disk.current path) r.2
  /-- A program that is said to be up to date is that of the text, or of one with the same hash. -/
  upToDate : ∀ source analysis, accepted? disk entry = some (source, analysis) →
    upToDateOn disk path (.describe s.toolchain entry source) = true →
    (∃ colored t, r =
      ((0, Transcript.addErr t (stepLine colored .build "up to date" ++ stepLine colored .build "ok")), disk)) ∧
    ∀ program, disk.node? (programPlace (Disk.target disk.current path)) = some (.file program) →
      ∃ source' analysis', Analysis.ofText? source' = some analysis' ∧
        SipHash.ofString source' = SipHash.ofString source ∧ program = analysis'.artifact.encode

theorem Paired.vouches (h : Paired (Disk.target disk.current path) disk) (hbuilds : Builds words s disk entry path)
    (hfits : ∀ source, (Metadata.describe s.toolchain entry source).Fits) :
    Vouches s disk entry path ((command words).execute s disk) := by
  have hpairs : (Paired (Disk.target disk.current path) ((command words).execute s disk).2 ∨
      Torn s disk entry path ((command words).execute s disk)) ∧
        (((command words).execute s disk).1.1 = 0 →
          Paired (Disk.target disk.current path) ((command words).execute s disk).2) := by
    cases haccepted : accepted? disk entry with
    | none =>
      obtain ⟨t, hrun⟩ := hbuilds.rejects haccepted
      rw [hrun]
      exact ⟨.inl h, fun _ => h⟩
    | some found =>
      obtain ⟨source, analysis⟩ := found
      cases hcurrent : upToDateOn disk path (.describe s.toolchain entry source) with
      | true =>
        obtain ⟨colored, t, hrun⟩ := hbuilds.skips haccepted hcurrent
        rw [hrun]
        exact ⟨.inl h, fun _ => h⟩
      | false =>
        obtain ⟨r, t, disk', hrun, hend⟩ := hbuilds.writes haccepted hcurrent
        rw [hrun]
        exact hend.pairs h (hfits source) haccepted hcurrent
  refine ⟨hpairs.1, hpairs.2, fun source analysis haccepted hcurrent => ?_⟩
  refine ⟨hbuilds.skips haccepted hcurrent, fun program hprogram => ?_⟩
  obtain ⟨-, hmetadata⟩ : (disk.find? (programPath path)).isSome = true ∧
      metadataOn? disk (metadataPath path) = some (.describe s.toolchain entry source) := by
    simpa [upToDateOn] using hcurrent
  obtain ⟨bytes, hread, hbytes⟩ := metadataOn?_eq_some.1 hmetadata
  have hnode := (Disk.read_eq_ok hread).2
  rw [target_metadataPath] at hnode
  have hpair := h program bytes hprogram hnode (by rw [hbytes]; rfl)
  obtain ⟨source', analysis', hanalysis', hprogram', hdescribe⟩ := hpair.hash hbytes
  exact ⟨source', analysis', hanalysis', (congrArg Metadata.sourceHash hdescribe).symm, hprogram'⟩

/-! ## Later builds -/

/-- The disks that there can be after any runs of the command, of which those that build do so into one directory and
are not torn, and any changes by others in between; others only remove the two files of the directory. A run may start
in any current directory. -/
inductive Untorn (directory : Place) : Disk → Disk → Prop
  | refl (disk : Disk) : Untorn directory disk disk
  | change {disk disk₁ disk₂ : Disk} : Untorn directory disk disk₁ →
      (∀ place ∈ buildFiles directory, disk₂.node? place = disk₁.node? place ∨ disk₂.node? place = none) →
      Untorn directory disk disk₂
  | run {disk disk₁ : Disk} (words : List String) (s : Surroundings) : Untorn directory disk disk₁ →
      (∀ entry path, Builds words s disk₁ entry path → Disk.target disk₁.current path = directory ∧
        (∀ source, (Metadata.describe s.toolchain entry source).Fits) ∧
        ¬ Torn s disk₁ entry path ((command words).execute s disk₁)) →
      Untorn directory disk ((command words).execute s disk₁).2

theorem Untorn.paired (h : Untorn directory disk disk') (hpaired : Paired directory disk) : Paired directory disk' := by
  induction h with
  | refl => exact hpaired
  | change _ hnode ih => exact ih.removal hnode
  | @run disk₁ words s h hbuilds ih =>
    by_cases hbuild : ∃ entry path, Builds words s disk₁ entry path
    · obtain ⟨entry, path, hbuild⟩ := hbuild
      obtain ⟨rfl, hfits, htorn⟩ := hbuilds entry path hbuild
      -- of what a build can leave, only a torn one leaves the two files apart
      exact (ih.vouches hbuild hfits).paired.resolve_right htorn
    · have hshrinks := shrinks_of_not_builds fun entry path hbuild' => hbuild ⟨entry, path, hbuild'⟩
      exact ih.removal fun place _ => hshrinks.node place

/-- From two files that were written together on, only a build that is torn leaves them apart, and until there is one
no build takes the program of another text for that of its own. -/
theorem vouches_of_untorn (hpaired : Paired directory disk) (huntorn : Untorn directory disk disk')
    (hbuilds : Builds words s disk' entry path) (hdirectory : Disk.target disk'.current path = directory)
    (hfits : ∀ source, (Metadata.describe s.toolchain entry source).Fits) :
    Vouches s disk' entry path ((command words).execute s disk') := by
  subst hdirectory
  exact (huntorn.paired hpaired).vouches hbuilds hfits

end

/-- The bytes of the program of a text. -/
def programOf (source : String) : Bytes := ((Analysis.ofText? source).map (·.artifact.encode)).getD []

/-- A directory where the text `int n;` was built and the file now holds another one. The metadata cannot be written
any more. -/
def tearing : Disk where
  nodes :=
    [(["work"], .directory), (["work", "n.wb"], .file (Bytes.ofText "int k;")), (["work", "out"], .directory),
     (["work", "out", "program.bin"], .file (programOf "int n;")),
     (["work", "out", "meta.bin"], .file (Metadata.describe ⟨"linux", "0.1", "debug"⟩ "/work/n.wb" "int n;").encode)]
  current := ["work"]
  locked := [["work", "out", "meta.bin"]]

/-- The build there is torn, and when the earlier text is back, the program of the other one is up to date. -/
theorem torn_build_believed :
    let s : Surroundings := { env := [("WUMBO_BUILD_OUT_DIR", "out")], toolchain := ⟨"linux", "0.1", "debug"⟩ }
    let words := ["build", "--file", "n.wb"]
    let r := (command words).execute s tearing
    let later := r.2.put ["work", "n.wb"] (.file (Bytes.ofText "int n;"))
    Paired ["work", "out"] tearing ∧ Untorn ["work", "out"] tearing tearing ∧
      Builds words s tearing "/work/n.wb" "/work/out" ∧
      Disk.target tearing.current "/work/out" = ["work", "out"] ∧
      (∀ source, (Metadata.describe s.toolchain "/work/n.wb" source).Fits) ∧
      Vouches s tearing "/work/n.wb" "/work/out" r ∧ Torn s tearing "/work/n.wb" "/work/out" r ∧
      ((command words).execute s later).1.1 = 0 ∧ ((command words).execute s later).2 = later ∧
      later.node? (programPlace ["work", "out"]) = some (.file (programOf "int k;")) ∧
      programOf "int k;" ≠ programOf "int n;" := by
  intro s words r later
  obtain ⟨n, hn⟩ : ∃ analysis, Analysis.ofText? "int n;" = some analysis :=
    Option.isSome_iff_exists.1 (by decide +kernel)
  obtain ⟨k, hk⟩ : ∃ analysis, Analysis.ofText? "int k;" = some analysis :=
    Option.isSome_iff_exists.1 (by decide +kernel)
  have hfits : ∀ source, (Metadata.describe s.toolchain "/work/n.wb" source).Fits := by
    have hempty : (Metadata.describe s.toolchain "/work/n.wb" "").Fits := by decide
    exact fun source => Metadata.fits_describe hempty
  have hpaired : Paired ["work", "out"] tearing := by
    intro program bytes hprogram hmetadata _
    have hprogram' : tearing.node? (programPlace ["work", "out"]) = some (.file (programOf "int n;")) := by
      decide +kernel
    have hmetadata' : tearing.node? (metadataPlace ["work", "out"]) =
        some (.file (Metadata.describe s.toolchain "/work/n.wb" "int n;").encode) := by decide +kernel
    refine ⟨s.toolchain, "/work/n.wb", "int n;", n, hn, ?_, hfits _, ?_⟩
    · simpa [hprogram', programOf, hn] using hprogram.symm
    · simpa [hmetadata'] using hmetadata.symm
  have hmanifest : NoManifest tearing := by
    unfold NoManifest
    decide +kernel
  have hplanned : (planned words).on s {} tearing =
      ((.ok ⟨.build, { entry := some "n.wb" }, {}, Path.join tearing.currentPath "n.wb",
          ColorChoice.auto.isOn s.env s.terminal⟩,
        Transcript.addErr {} (s.env.log .info ("entry: " ++ Path.join tearing.currentPath "n.wb"))), tearing) :=
    on_planned rfl rfl rfl rfl hmanifest
  have hbuilds : Builds words s tearing "/work/n.wb" "/work/out" := ⟨_, _, hplanned, rfl, rfl, by decide, by decide⟩
  have htext : tearing.text "/work/n.wb" = .ok "int k;" := by decide
  have hrun : r.1.1 = 1 ∧
      r.2.node? (programPlace ["work", "out"]) = some (.file (programOf "int k;")) ∧
      r.2.node? (metadataPlace ["work", "out"]) = tearing.node? (metadataPlace ["work", "out"]) ∧
      (r.2.write (metadataPath "/work/out")
        (Metadata.describe s.toolchain "/work/n.wb" "int k;").encode).toOption.isNone := by decide +kernel
  obtain ⟨hcode, hreplaced, hkept, hfails⟩ := hrun
  have hlocked : ∃ e, r.2.write (metadataPath "/work/out")
      (Metadata.describe s.toolchain "/work/n.wb" "int k;").encode = .error e := by
    generalize r.2.write _ _ = written at hfails
    cases written with
    | error e => exact ⟨e, rfl⟩
    | ok => cases hfails
  have hdirectory : Disk.target tearing.current "/work/out" = ["work", "out"] := by decide
  have htorn : Torn s tearing "/work/n.wb" "/work/out" r := by
    refine ⟨hcode, ⟨"int k;", k, accepted?_eq_some.2 ⟨htext, hk⟩, by decide +kernel, ?_, hlocked⟩, ?_⟩
    · rw [hdirectory]
      simpa [programOf, hk] using hreplaced
    · intro bytes
      rw [hdirectory, hkept]
  have hlater : ((command words).execute s later).1.1 = 0 ∧ ((command words).execute s later).2 = later ∧
      later.node? (programPlace ["work", "out"]) = some (.file (programOf "int k;")) ∧
      programOf "int k;" ≠ programOf "int n;" := by decide +kernel
  have huntorn : Untorn ["work", "out"] tearing tearing := .refl _
  exact ⟨hpaired, huntorn, hbuilds, hdirectory, hfits,
    vouches_of_untorn hpaired huntorn hbuilds hdirectory hfits, htorn, hlater⟩

end Namescope.Project
