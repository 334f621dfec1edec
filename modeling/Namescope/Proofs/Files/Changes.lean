import Namescope.Proofs.Command.Runs
import Namescope.Proofs.Files.Places
/-!
# What operations change on a disk

Creating directories adds them where nothing is, writing a file puts it where its path leads, and removing a directory
takes things away. Ways that are open stay open unless something is removed.
-/
namespace Namescope

namespace Disk

/-! ## Directories that are added -/

/-- The second disk has more directories, at places where the first one has nothing. -/
structure Grows (disk disk' : Disk) : Prop where
  current : disk'.current = disk.current
  node : ∀ place, disk'.node? place = disk.node? place ∨
    (disk.node? place = none ∧ disk'.node? place = some .directory)

namespace Grows

theorem refl (disk : Disk) : Grows disk disk := ⟨rfl, fun _ => .inl rfl⟩

theorem trans {a b c : Disk} (hab : Grows a b) (hbc : Grows b c) : Grows a c := by
  refine ⟨hbc.current.trans hab.current, fun place => ?_⟩
  obtain hab | ⟨hnone, hdirectory⟩ := hab.node place
  · rw [← hab]
    exact hbc.node place
  · obtain hbc | ⟨hbc, -⟩ := hbc.node place
    · exact .inr ⟨hnone, hbc.trans hdirectory⟩
    · rw [hdirectory] at hbc
      cases hbc

/-- What is there stays. -/
theorem node_eq {disk disk' : Disk} (h : Grows disk disk') {place : Place} {node : Node}
    (hnode : disk.node? place = some node) : disk'.node? place = some node := by
  obtain e | ⟨hnone, -⟩ := h.node place
  · rw [e, hnode]
  · rw [hnode] at hnone
    cases hnone

theorem below {disk disk' : Disk} (h : Grows disk disk') : Below disk disk' :=
  ⟨h.current, fun _ => h.node_eq⟩

end Grows

theorem grows_put_directory {disk : Disk} {place : Place} (h : disk.node? place = none) :
    Grows disk (disk.put place .directory) := by
  have hne : place ≠ [] := by
    rintro rfl
    cases h
  refine ⟨rfl, fun other => ?_⟩
  rw [node?_put disk hne]
  by_cases e : other = place
  · rw [if_pos e, e]
    exact .inr ⟨h, rfl⟩
  · rw [if_neg e]
    exact .inl rfl

/-- A new directory is put where its path leads and nothing is. -/
theorem grows_of_createDirectory {disk disk' : Disk} {path : Path} (h : disk.createDirectory path = .ok disk') :
    Grows disk disk' := by
  unfold createDirectory at h
  cases hplace : disk.place (withoutEnd path) with
  | error e => rw [hplace] at h; cases h
  | ok place =>
    rw [hplace] at h
    change (if (disk.node? place).isSome then _ else _) = _ at h
    cases hnode : disk.node? place with
    | some node => rw [hnode] at h; cases h
    | none =>
      rw [hnode] at h
      obtain rfl : disk.put place .directory = disk' := by simpa using h
      exact grows_put_directory hnode

end Disk

open Run

namespace FileSystem

/-- The part of a run prints nothing and gives a value, and the disks before and after it are related. -/
def Quietly {α : Type} (R : Disk → Disk → Prop) (x : Run (StateM Disk) α) : Prop :=
  ∀ s t disk, ∃ a disk', x.on s t disk = ((.ok a, t), disk') ∧ R disk disk'

section
variable {α β : Type} {R : Disk → Disk → Prop}

theorem Quietly.pure (hrefl : ∀ disk, R disk disk) (a : α) : Quietly R (Pure.pure a : Run (StateM Disk) α) :=
  fun _ _ disk => ⟨a, disk, rfl, hrefl disk⟩

theorem Quietly.bind (htrans : ∀ {a b c}, R a b → R b c → R a c) {x : Run (StateM Disk) α}
    {f : α → Run (StateM Disk) β} (h : Quietly R x) (h' : ∀ a, Quietly R (f a)) : Quietly R (x >>= f) := by
  intro s t disk
  obtain ⟨a, disk₁, hx, hr⟩ := h s t disk
  obtain ⟨b, disk₂, hf, hr'⟩ := h' a s t disk₁
  exact ⟨b, disk₂, by rw [on_bind_ok hx, hf], htrans hr hr'⟩

theorem Quietly.ask (x : StateM Disk α) (h : ∀ disk, R disk (x.run disk).2) :
    Quietly R (liftM x : Run (StateM Disk) α) :=
  fun _ _ disk => ⟨_, _, rfl, h disk⟩

end

theorem quietly_createDirectory (path : Path) :
    Quietly Disk.Grows (createDirectory path : Run (StateM Disk) (Except FileError Unit)) := by
  refine .ask _ fun disk => ?_
  change Disk.Grows disk (Disk.attempt (fun disk => disk.createDirectory path) disk).2
  unfold Disk.attempt
  dsimp only
  cases h : disk.createDirectory path with
  | ok disk' => exact Disk.grows_of_createDirectory h
  | error e => exact .refl disk

theorem quietly_unlessDirectory (path : Path) (e : FileError) :
    Quietly Disk.Grows (unlessDirectory path e : Run (StateM Disk) (Except FileError Unit)) := by
  refine .bind .trans (.ask _ fun disk => .refl disk) fun there => ?_
  cases there <;> exact .pure .refl _

/-- Whatever is missing of some directories is added, even if not all can be. -/
theorem quietly_createNested (paths : List Path) :
    Quietly Disk.Grows (createNested paths : Run (StateM Disk) (Except FileError Unit)) := by
  induction paths with
  | nil => exact .pure .refl _
  | cons path outer ih =>
    unfold createNested
    split
    · exact .pure .refl _
    · refine .bind .trans (quietly_createDirectory path) fun created => ?_
      split
      · exact .pure .refl _
      · refine .bind .trans ih fun above => ?_
        split
        · exact .pure .refl _
        · refine .bind .trans (quietly_createDirectory path) fun again => ?_
          split
          · exact .pure .refl _
          · exact quietly_unlessDirectory _ _
      · exact quietly_unlessDirectory _ _

end FileSystem

namespace Disk

/-! ## Files that are written -/

/-- A file is written where its path leads, over another file or nothing. -/
theorem write_eq_ok {disk disk' : Disk} {path : Path} {content : Bytes} (h : disk.write path content = .ok disk') :
    ∃ place, disk.place path = .ok place ∧ disk.node? place ≠ some .directory ∧
      disk' = disk.put place (.file content) := by
  unfold write at h
  cases hplace : disk.place path with
  | error e => rw [hplace] at h; cases h
  | ok place =>
    rw [hplace] at h
    change (if disk.node? place = some .directory then _ else if place ∈ disk.locked then _ else _) = _ at h
    split at h
    · cases h
    · split at h
      · cases h
      · exact ⟨place, rfl, ‹_›, by simpa using h.symm⟩

/-- Writing a file changes what is where its path leads and nothing else. -/
theorem node?_of_write {disk disk' : Disk} {path : Path} {content : Bytes} (h : disk.write path content = .ok disk')
    (place : Place) :
    disk'.node? place = if place = target disk.current path then some (.file content) else disk.node? place := by
  obtain ⟨found, hplace, hnode, rfl⟩ := write_eq_ok h
  have hne : found ≠ [] := by
    rintro rfl
    exact hnode rfl
  rw [← eq_target_of_place hplace]
  exact node?_put disk hne _ place

theorem current_of_write {disk disk' : Disk} {path : Path} {content : Bytes}
    (h : disk.write path content = .ok disk') : disk'.current = disk.current := by
  obtain ⟨found, -, -, rfl⟩ := write_eq_ok h
  rfl

theorem below_of_write {disk disk' : Disk} {path : Path} {content : Bytes} (h : disk.write path content = .ok disk') :
    Below disk disk' := by
  refine ⟨current_of_write h, fun place hdirectory => ?_⟩
  obtain ⟨found, hplace, hnode, -⟩ := write_eq_ok h
  have hne : place ≠ target disk.current path := by
    rintro rfl
    rw [← eq_target_of_place hplace] at hdirectory
    exact hnode hdirectory
  rw [node?_of_write h, if_neg hne, hdirectory]

theorem Below.trans {a b c : Disk} (hab : Below a b) (hbc : Below b c) : Below a c :=
  ⟨hbc.1.trans hab.1, fun place h => hbc.2 place (hab.2 place h)⟩

/-- What a path leads to is read, where its way is open. -/
theorem read_of_node {disk : Disk} {path : Path} {place : Place} {content : Bytes}
    (hplace : disk.place path = .ok place) (hnode : disk.node? place = some (.file content)) :
    disk.read path = .ok content := by
  rw [read_of_place hplace, hnode]

theorem read_eq_ok {disk : Disk} {path : Path} {content : Bytes} (h : disk.read path = .ok content) :
    disk.place path = .ok (target disk.current path) ∧
      disk.node? (target disk.current path) = some (.file content) := by
  cases hplace : disk.place path with
  | error e =>
    rw [read, hplace] at h
    cases h
  | ok place =>
    rw [read_of_place hplace] at h
    rw [← eq_target_of_place hplace]
    refine ⟨rfl, ?_⟩
    split at h
    · cases h
    · cases h
    · simp_all

theorem find?_eq_some {disk : Disk} {path : Path} {node : Node} :
    disk.find? path = some node ↔ ∃ place, disk.place path = .ok place ∧ disk.node? place = some node := by
  unfold find?
  cases disk.place path <;> simp

theorem Below.find?_directory {disk disk' : Disk} (h : Below disk disk') {path : Path}
    (hfind : disk.find? path = some .directory) : disk'.find? path = some .directory := by
  obtain ⟨place, hplace, hnode⟩ := find?_eq_some.1 hfind
  exact find?_eq_some.2 ⟨place, h.place hplace, h.2 place hnode⟩

/-! ## What is left alone -/

/-- All directories of the first disk are on the second one. But for some places the two have the same on them, and
the second one more directories. -/
structure Spares (places : List Place) (disk disk' : Disk) : Prop where
  below : Below disk disk'
  node : ∀ place ∉ places, disk'.node? place = disk.node? place ∨
    (disk.node? place = none ∧ disk'.node? place = some .directory)

namespace Spares
variable {places : List Place} {disk disk' : Disk}

theorem refl (places : List Place) (disk : Disk) : Spares places disk disk :=
  ⟨⟨rfl, fun _ h => h⟩, fun _ _ => .inl rfl⟩

theorem keeps (h : Spares places disk disk') {place : Place} (hplace : place ∉ places) {node : Node}
    (hnode : disk.node? place = some node) : disk'.node? place = some node := by
  obtain e | ⟨hnone, -⟩ := h.node place hplace
  · rw [e, hnode]
  · rw [hnode] at hnone
    cases hnone

/-- A file that is elsewhere is read as before. -/
theorem read (h : Spares places disk disk') {path : Path} (hplace : target disk.current path ∉ places) {content : Bytes}
    (hread : disk.read path = .ok content) : disk'.read path = .ok content := by
  obtain ⟨hleads, hnode⟩ := read_eq_ok hread
  exact read_of_node (h.below.place hleads) (h.keeps hplace hnode)

theorem text (h : Spares places disk disk') {path : Path} (hplace : target disk.current path ∉ places) {text : String}
    (htext : disk.text path = .ok text) : disk'.text path = .ok text := by
  obtain ⟨content, hread, hcontent⟩ := text_eq_ok.1 htext
  exact text_eq_ok.2 ⟨content, h.read hplace hread, hcontent⟩

theorem currentDirectory (h : Spares places disk disk') {path : Path} (hpath : disk.currentDirectory = .ok path) :
    disk'.currentDirectory = .ok path := by
  unfold Disk.currentDirectory currentPath at hpath ⊢
  rw [h.below.1]
  split at hpath
  · next hthere => rwa [if_pos (h.below.2 _ hthere)]
  · cases hpath

end Spares

/-! ## What is removed -/

/-- Everything on the second disk is on the first one. -/
structure Shrinks (disk disk' : Disk) : Prop where
  current : disk'.current = disk.current
  node : ∀ place, disk'.node? place = disk.node? place ∨ disk'.node? place = none

theorem Shrinks.refl (disk : Disk) : Shrinks disk disk := ⟨rfl, fun _ => .inl rfl⟩

theorem Shrinks.trans {a b c : Disk} (hab : Shrinks a b) (hbc : Shrinks b c) : Shrinks a c := by
  refine ⟨hbc.current.trans hab.current, fun place => ?_⟩
  obtain e | e := hbc.node place
  · rw [e]
    exact hab.node place
  · exact .inr e

theorem shrinks_discard (disk : Disk) (condition : Place → Bool) : Shrinks disk (disk.discard condition) := by
  refine ⟨rfl, fun place => ?_⟩
  rw [node?_discard]
  split
  · exact .inr rfl
  · exact .inl rfl

theorem shrinks_removeTree (disk : Disk) (path : Path) : Shrinks disk (disk.removeTree path).2 := by
  unfold removeTree
  cases disk.place path with
  | error e => exact .refl disk
  | ok place =>
    dsimp only
    split
    · exact .refl disk
    · exact .refl disk
    · have hemptied := shrinks_discard disk fun other => place.isPrefixOf other && other ≠ place
      split
      · exact hemptied
      · exact hemptied
      · exact hemptied
      · exact hemptied
      · exact hemptied.trans (shrinks_discard _ fun other => other = place)

end Disk

end Namescope
