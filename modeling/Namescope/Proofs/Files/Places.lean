import Namescope.Files.Disk
/-!
# Where paths lead

A path leads to a place by its segments alone; the disk only decides whether it gets there. So it leads to the same
place on every disk where it gets to one. A file below the current directory is found under its own path and under
the one joined to the path of the directory.
-/
namespace Namescope

namespace Path

theorem segmentsFrom_ne_nil (text : List Char) : segmentsFrom text ≠ [] := by
  fun_induction segmentsFrom text <;> simp

/-- A slash parts the segments before it from those after it. -/
theorem segmentsFrom_append_slash (before after : List Char) :
    segmentsFrom (before ++ '/' :: after) = segmentsFrom before ++ segmentsFrom after := by
  induction before with
  | nil => rfl
  | cons c before ih =>
    rw [List.cons_append, segmentsFrom, segmentsFrom, ih]
    by_cases hc : c = '/'
    · rw [if_pos hc, if_pos hc]
      rfl
    · rw [if_neg hc, if_neg hc]
      cases h : segmentsFrom before with
      | nil => exact absurd h (segmentsFrom_ne_nil before)
      | cons segment more => rfl

theorem segmentsFrom_of_notMem {text : List Char} (h : '/' ∉ text) : segmentsFrom text = [text] := by
  induction text with
  | nil => rfl
  | cons c text ih =>
    rw [List.mem_cons, not_or] at h
    rw [segmentsFrom, if_neg (Ne.symm h.1), ih h.2]

theorem segments_ne_nil (path : Path) : path.segments ≠ [] := by
  simp [segments, segmentsFrom_ne_nil]

theorem isAbsolute_of_notMem {name : Path} (h : '/' ∉ name.toList) : isAbsolute name = false := by
  unfold isAbsolute
  exact decide_eq_false fun hhead => h (List.mem_of_head? hhead)

/-- A path that a name is joined to stays absolute or relative. -/
theorem isAbsolute_join (base : Path) {name : Path} (h : '/' ∉ name.toList) :
    isAbsolute (Path.join base name) = isAbsolute base := by
  have hrelative := isAbsolute_of_notMem h
  rw [join, hrelative, if_neg Bool.false_ne_true]
  cases hbase : base.toList with
  | nil =>
    obtain rfl : base = "" := String.toList_eq_nil_iff.1 hbase
    exact hrelative
  | cons c more =>
    unfold isAbsolute
    split <;> simp [hbase]

/-- A name that is joined to a path follows its segments, or stands for the last one if that is empty. -/
theorem segments_join (base : Path) {name : Path} (h : '/' ∉ name.toList) :
    (Path.join base name).segments = base.segments ++ [name] ∨
      ∃ front, base.segments = front ++ [""] ∧ (Path.join base name).segments = front ++ [name] := by
  have hrelative := isAbsolute_of_notMem h
  have hlast (text : List Char) : (segmentsFrom (text ++ '/' :: name.toList)).map String.ofList =
      (segmentsFrom text).map String.ofList ++ [name] := by
    rw [segmentsFrom_append_slash, segmentsFrom_of_notMem h, List.map_append]
    simp
  by_cases hempty : base.toList = []
  · refine .inr ⟨[], ?_, ?_⟩
    · simp [segments, hempty, segmentsFrom]
    · simp [join, hrelative, hempty, segments, segmentsFrom_of_notMem h]
  · by_cases hend : base.toList.getLast? = some '/'
    · obtain ⟨front, hfront⟩ := List.getLast?_eq_some_iff.1 hend
      refine .inr ⟨(segmentsFrom front).map String.ofList, ?_, ?_⟩
      · simp [segments, hfront, segmentsFrom_append_slash, segmentsFrom]
      · rw [← hlast front]
        simp [join, hrelative, segments, hfront]
    · refine .inl ?_
      rw [segments, segments, ← hlast]
      simp [join, hrelative, hend, hempty]

end Path

namespace Disk

/-- Where segments lead to from a place if everything is there. -/
def landing : Place → List String → Place
  | place, [] => place
  | place, segment :: rest =>
    if Path.isIdle segment then landing place rest
    else if segment = ".." then landing place.dropLast rest
    else landing (place ++ [segment]) rest

theorem landing_append (place : Place) (before after : List String) :
    landing place (before ++ after) = landing (landing place before) after := by
  fun_induction landing place before <;> simp_all [landing]

theorem expectDirectory_eq_ok {disk : Disk} {place : Place} :
    disk.expectDirectory place = .ok () ↔ disk.node? place = some .directory := by
  unfold expectDirectory
  split <;> simp_all

/-- The way through a name leads through directories. -/
theorem walk_name_eq_ok {disk : Disk} {place found : Place} {name : String} {rest : List String}
    (hidle : Path.isIdle name = false) (hup : name ≠ "..") :
    disk.walk place (name :: rest) = .ok found ↔
      disk.node? place = some .directory ∧ (rest ≠ [] → disk.node? (place ++ [name]) = some .directory) ∧
        disk.walk (place ++ [name]) rest = .ok found := by
  rw [walk, hidle, if_neg Bool.false_ne_true, if_neg hup, ← expectDirectory_eq_ok, ← expectDirectory_eq_ok]
  cases disk.expectDirectory place with
  | error e => simp [bind, Except.bind]
  | ok _ =>
    by_cases hrest : rest = []
    · simp [bind, Except.bind, hrest]
    · cases hinner : disk.expectDirectory (place ++ [name]) <;> simp [bind, Except.bind, hrest, hinner]

/-- A path gets to where it leads or nowhere. -/
theorem eq_landing_of_walk {disk : Disk} {place found : Place} {segments : List String}
    (h : disk.walk place segments = .ok found) : found = landing place segments := by
  induction segments generalizing place with
  | nil => simpa [walk, landing] using h.symm
  | cons segment rest ih =>
    rw [landing]
    by_cases hidle : Path.isIdle segment = true
    · rw [walk, if_pos hidle] at h
      rw [if_pos hidle]
      exact ih h
    · by_cases hup : segment = ".."
      · rw [walk, if_neg hidle, if_pos hup] at h
        rw [if_neg hidle, if_pos hup]
        exact ih h
      · rw [walk_name_eq_ok (by simpa using hidle) hup] at h
        rw [if_neg hidle, if_neg hup]
        exact ih h.2.2

/-- All directories of the first disk are directories of the second. -/
def Below (disk disk' : Disk) : Prop :=
  disk'.current = disk.current ∧
    ∀ place, disk.node? place = some .directory → disk'.node? place = some .directory

/-- A way that is open stays open when directories are added. -/
theorem Below.walk {disk disk' : Disk} (hb : Below disk disk') {place found : Place} {segments : List String}
    (h : disk.walk place segments = .ok found) : disk'.walk place segments = .ok found := by
  induction segments generalizing place with
  | nil => simpa [Disk.walk] using h
  | cons segment rest ih =>
    by_cases hidle : Path.isIdle segment = true
    · rw [Disk.walk, if_pos hidle] at h ⊢
      exact ih h
    · by_cases hup : segment = ".."
      · rw [Disk.walk, if_neg hidle, if_pos hup] at h ⊢
        exact ih h
      · rw [walk_name_eq_ok (by simpa using hidle) hup] at h ⊢
        exact ⟨hb.2 _ h.1, fun hrest => hb.2 _ (h.2.1 hrest), ih h.2.2⟩

theorem Below.place {disk disk' : Disk} (hb : Below disk disk') {path : Path} {found : Place}
    (h : disk.place path = .ok found) : disk'.place path = .ok found := by
  unfold Disk.place at h ⊢
  rw [hb.1]
  split at h
  · cases h
  · split at h
    · cases h
    · rw [if_neg ‹_›, if_neg ‹_›]
      exact hb.walk h

/-- Where a path leads to from the current directory if everything is there. -/
def target (current : Place) (path : Path) : Place :=
  landing (if Path.isAbsolute path then [] else current) path.segments

theorem eq_target_of_place {disk : Disk} {path : Path} {found : Place} (h : disk.place path = .ok found) :
    found = target disk.current path := by
  unfold place at h
  split at h
  · cases h
  · split at h
    · cases h
    · exact eq_landing_of_walk h

/-- A name that is joined to a path leads to the place of that name in the directory that the path leads to. -/
theorem target_join (current : Place) (base : Path) {name : Path} (hidle : Path.isIdle name = false) (hup : name ≠ "..")
    (hslash : '/' ∉ name.toList) : target current (Path.join base name) = target current base ++ [name] := by
  have hname (place : Place) : landing place [name] = place ++ [name] := by
    rw [landing, hidle, if_neg Bool.false_ne_true, if_neg hup, landing]
  rw [target, target, Path.isAbsolute_join base hslash]
  rcases Path.segments_join base hslash with h | ⟨front, hbase, h⟩
  · rw [h, landing_append, hname]
  · -- an empty segment at the end leads no further
    rw [h, hbase, landing_append, landing_append, hname]
    rfl

/-- What is read under a path whose way is open. -/
theorem read_of_place {disk : Disk} {path : Path} {place : Place} (h : disk.place path = .ok place) :
    disk.read path = match disk.node? place with
      | none => .error .notFound
      | some .directory => .error .isADirectory
      | some (.file content) => .ok content := by
  rw [read, h]
  rfl

/-! ## The current directory -/

/-- Names that stand in a path for themselves. -/
def IsName (name : String) : Prop :=
  Path.isIdle name = false ∧ name ≠ ".." ∧ '/' ∉ name.toList ∧ '\x00' ∉ name.toList

/-- The current directory is there. -/
structure Grounded (disk : Disk) : Prop where
  names : ∀ name ∈ disk.current, IsName name
  stands : ∀ front, front <+: disk.current → disk.node? front = some .directory

theorem Grounded.currentDirectory {disk : Disk} (h : disk.Grounded) :
    disk.currentDirectory = .ok disk.currentPath := by
  rw [Disk.currentDirectory, if_pos (h.stands disk.current (List.prefix_refl _))]

/-- The way down through names that stand there as directories. -/
theorem walk_names {disk : Disk} {place : Place} {names rest : List String} (hrest : rest ≠ [])
    (hnames : ∀ name ∈ names, IsName name)
    (hstands : ∀ front, front <+: names → disk.node? (place ++ front) = some .directory) :
    disk.walk place (names ++ rest) = disk.walk (place ++ names) rest := by
  induction names generalizing place with
  | nil => simp
  | cons name names ih =>
    obtain ⟨hname, hnames⟩ := List.forall_mem_cons.1 hnames
    have hplace := expectDirectory_eq_ok.2 (hstands [] (List.nil_prefix ..))
    have hinner := expectDirectory_eq_ok.2 (hstands [name] ⟨names, rfl⟩)
    have hmore : ∀ front, front <+: names → disk.node? (place ++ [name] ++ front) = some .directory := by
      intro front hfront
      have h := hstands (name :: front) (by simpa using hfront)
      simpa using h
    have hne : names ++ rest ≠ [] := by simp [hrest]
    rw [List.append_nil] at hplace
    rw [List.cons_append, walk, hname.1, if_neg Bool.false_ne_true, if_neg hname.2.1, hplace, if_pos hne, hinner]
    change disk.walk (place ++ [name]) (names ++ rest) = _
    rw [ih hnames hmore, List.append_assoc]
    rfl

theorem toList_intercalate_slash (first : String) (names : List String) :
    (String.intercalate "/" (first :: names)).toList =
      first.toList ++ names.flatMap fun name => '/' :: name.toList := by
  induction names generalizing first with
  | nil => simp
  | cons name names ih => simp [String.intercalate_cons_cons, ih]

/-- The path of the current directory is the root, or each of its names after a slash. -/
theorem currentPath_eq (disk : Disk) :
    (disk.current = [] ∧ currentPath disk = "/") ∨
      (disk.current ≠ [] ∧ (currentPath disk).toList = disk.current.flatMap fun name => '/' :: name.toList) := by
  by_cases hcurrent : disk.current = []
  · exact .inl ⟨hcurrent, by simp [currentPath, hcurrent, Path.ofReversed]⟩
  · have hne : ("" :: disk.current).reverse ≠ [""] := fun h => hcurrent (by simpa using congrArg List.length h)
    refine .inr ⟨hcurrent, ?_⟩
    rw [currentPath, Path.ofReversed, if_neg hne, List.reverse_reverse, toList_intercalate_slash]
    rfl

theorem getLast?_flatMap_ne {names : List String} (h : ∀ name ∈ names, IsName name) :
    (names.flatMap fun name => '/' :: name.toList).getLast? ≠ some '/' := by
  intro hlast
  obtain rfl | ⟨front, name, rfl⟩ := List.eq_nil_or_concat names
  · cases hlast
  · obtain ⟨hidle, -, hslash, -⟩ := h name (by simp)
    have hne : name.toList ≠ [] := by
      intro hnil
      obtain rfl : name = "" := String.toList_eq_nil_iff.1 hnil
      exact absurd hidle (by decide)
    obtain ⟨last, hname⟩ := List.getLast?_isSome.2 hne |> Option.isSome_iff_exists.1
    simp only [List.concat_eq_append, List.flatMap_append, List.flatMap_cons, List.flatMap_nil, List.append_nil,
      List.getLast?_append, List.getLast?_cons, hname] at hlast
    obtain rfl : last = '/' := by simpa using hlast
    exact hslash (List.mem_of_getLast? hname)

/-- A relative path joined to the path of the current directory, as text. -/
theorem toList_join_currentPath {disk : Disk} (hnames : ∀ name ∈ disk.current, IsName name) {path : Path}
    (hpath : Path.isAbsolute path = false) :
    (Path.join (currentPath disk) path).toList =
      disk.current.flatMap (fun name => '/' :: name.toList) ++ '/' :: path.toList := by
  obtain ⟨hcurrent, htext⟩ | ⟨hcurrent, htext⟩ := currentPath_eq disk
  · simp [Path.join, hpath, htext, hcurrent]
  · have hlast := getLast?_flatMap_ne hnames
    have hempty : (currentPath disk).toList ≠ [] := by
      rw [htext]
      obtain ⟨first, more, h⟩ := List.exists_cons_of_ne_nil hcurrent
      simp [h]
    rw [← htext] at hlast
    have hplain : ((currentPath disk).toList.isEmpty || (currentPath disk).toList.getLast? = some '/') = false := by
      simp [hempty, hlast]
    rw [Path.join, hpath, if_neg Bool.false_ne_true, hplain, if_neg Bool.false_ne_true, String.toList_append,
      String.toList_append, htext, List.append_assoc]
    rfl

theorem segmentsFrom_names {names : List String} (h : ∀ name ∈ names, IsName name) (text : List Char) :
    Path.segmentsFrom (names.flatMap (fun name => '/' :: name.toList) ++ '/' :: text) =
      [] :: names.map String.toList ++ Path.segmentsFrom text := by
  induction names with
  | nil => rfl
  | cons name names ih =>
    obtain ⟨hname, hnames⟩ := List.forall_mem_cons.1 h
    have hmore := ih hnames
    obtain ⟨more, hslash⟩ : ∃ more, names.flatMap (fun name => '/' :: name.toList) ++ '/' :: text = '/' :: more := by
      cases names <;> simp
    rw [hslash] at hmore
    have hmore : Path.segmentsFrom more = names.map String.toList ++ Path.segmentsFrom text := by
      simpa [Path.segmentsFrom] using hmore
    rw [List.flatMap_cons, List.append_assoc, hslash, List.cons_append]
    change Path.segmentsFrom ([] ++ '/' :: (name.toList ++ '/' :: more)) = _
    rw [Path.segmentsFrom_append_slash, Path.segmentsFrom_append_slash,
      Path.segmentsFrom_of_notMem hname.2.2.1, hmore]
    rfl

/-- Joined to the path of the current directory, a relative path leads on from that directory. -/
theorem place_join_relative {disk : Disk} (h : disk.Grounded) {path : Path} (hpath : Path.isAbsolute path = false) :
    disk.place (Path.join (currentPath disk) path) =
      if '\x00' ∈ path.toList then .error .invalidName else disk.walk disk.current path.segments := by
  have htext := toList_join_currentPath h.names hpath
  have hne : Path.join (currentPath disk) path ≠ "" := by
    intro e
    rw [e] at htext
    simp at htext
  have hnul : '\x00' ∈ (Path.join (currentPath disk) path).toList ↔ '\x00' ∈ path.toList := by
    rw [htext]
    have hnames : '\x00' ∉ disk.current.flatMap fun name => '/' :: name.toList := by
      simp only [List.mem_flatMap, List.mem_cons, not_exists, not_and, not_or]
      exact fun name hname => ⟨by decide, (h.names name hname).2.2.2⟩
    simp [hnames]
  have hsegments : (Path.join (currentPath disk) path).segments = "" :: (disk.current ++ path.segments) := by
    rw [Path.segments, htext, segmentsFrom_names h.names]
    simp [Path.segments, Function.comp_def]
  have hslash : Path.isAbsolute (Path.join (currentPath disk) path) = true := by
    rw [Path.isAbsolute, htext]
    cases disk.current <;> simp
  have hwalk : disk.walk [] (disk.current ++ path.segments) = disk.walk ([] ++ disk.current) path.segments :=
    walk_names (Path.segments_ne_nil path) h.names (by simpa using h.stands)
  have hroot : disk.walk [] ("" :: (disk.current ++ path.segments)) = disk.walk disk.current path.segments := by
    rw [walk, if_pos (by decide), hwalk, List.nil_append]
  rw [place, if_neg hne, hslash, if_pos rfl, hsegments, hroot]
  simp only [hnul]

/-- Under its own path a file is read as under the path joined to that of the current directory. -/
theorem read_join_currentPath {disk : Disk} (h : disk.Grounded) (path : Path) (content : Bytes) :
    disk.read (Path.join (currentPath disk) path) = .ok content ↔ disk.read path = .ok content := by
  cases hpath : Path.isAbsolute path with
  | true => rw [Path.join, hpath, if_pos rfl]
  | false =>
    by_cases hempty : path = ""
    · -- the empty path leads nowhere by itself, and to the directory if it is joined
      have hplace : disk.place (Path.join (currentPath disk) "") = .ok disk.current :=
        place_join_relative h (by decide)
      have hstands := h.stands disk.current (List.prefix_refl _)
      have hjoined : disk.read (Path.join (currentPath disk) "") = .error .isADirectory := by
        rw [read_of_place hplace, hstands]
      have halone : disk.read "" = .error .notFound := rfl
      rw [hempty, hjoined, halone]
      simp
    · have hplace : disk.place (Path.join (currentPath disk) path) = disk.place path := by
        rw [place_join_relative h hpath, place, if_neg hempty, hpath]
        rfl
      rw [read, read, hplace]

end Disk

end Namescope
