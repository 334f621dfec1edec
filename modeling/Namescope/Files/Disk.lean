import Namescope.Files.Basic
/-!
# A disk in memory

Directories and files under one root, without links. A place is the way down from the root; a path leads
to a place from the root or from the current directory, and every directory that it names on the way must
be there. The current directory may have been removed: the ways up from it stay open.
-/
namespace Namescope

/-- The names on the way from the root. -/
abbrev Place := List String

/-- What is found at a place. -/
inductive Node where
  | directory
  | file (content : Bytes)
  deriving DecidableEq

/-- A file system: what stands at each place but the root, which is a directory. A locked file cannot be
written. -/
structure Disk where
  nodes : List (Place × Node) := []
  current : Place := []
  locked : List Place := []
  deriving DecidableEq

namespace Disk

/-- What stands at a place. -/
def node? (disk : Disk) (place : Place) : Option Node :=
  if place = [] then some .directory else disk.nodes.lookup place

/-- Puts a node at a place, over what was there. -/
def put (disk : Disk) (place : Place) (node : Node) : Disk :=
  { disk with nodes := (place, node) :: disk.nodes.filter (·.1 ≠ place) }

/-- Takes away everything that a condition holds of. -/
def discard (disk : Disk) (condition : Place → Bool) : Disk :=
  { disk with nodes := disk.nodes.filter fun entry => !condition entry.1 }

theorem lookup_filter (keep : Place → Bool) (nodes : List (Place × Node)) (place : Place) :
    (nodes.filter fun entry => keep entry.1).lookup place =
      if keep place then nodes.lookup place else none := by
  induction nodes with
  | nil => simp
  | cons entry rest ih =>
    obtain ⟨other, node⟩ := entry
    by_cases same : place = other
    · subst same
      cases kept : keep place
      · rw [List.filter_cons_of_neg (by simp [kept]), ih, kept]
        rfl
      · rw [List.filter_cons_of_pos (by simp [kept]), List.lookup_cons_self, List.lookup_cons_self,
          if_pos rfl]
    · have apart : (place == other) = false := beq_eq_false_iff_ne.2 same
      cases kept : keep other
      · rw [List.filter_cons_of_neg (by simp [kept]), ih, List.lookup_cons, apart]
      · rw [List.filter_cons_of_pos (by simp [kept]), List.lookup_cons, List.lookup_cons, apart]
        exact ih

/-- A node that was put at a place is found there, and nothing else changes. -/
theorem node?_put (disk : Disk) {place : Place} (h : place ≠ []) (node : Node) (other : Place) :
    (disk.put place node).node? other = if other = place then some node else disk.node? other := by
  unfold node? put
  by_cases same : other = place
  · subst same
    rw [if_neg h, if_pos rfl, List.lookup_cons_self]
  · have apart : (other == place) = false := beq_eq_false_iff_ne.2 same
    rw [if_neg same, List.lookup_cons, apart]
    have found := lookup_filter (fun p => decide (p ≠ place)) disk.nodes other
    simp only [same, ne_eq, not_false_eq_true, decide_true, if_true] at found
    simp only [ne_eq, found]

/-- What is discarded is not found any more, and nothing else changes; the root stays. -/
theorem node?_discard (disk : Disk) (condition : Place → Bool) (place : Place) :
    (disk.discard condition).node? place =
      if place ≠ [] ∧ condition place then none else disk.node? place := by
  unfold node? discard
  by_cases top : place = []
  · simp [top]
  · rw [if_neg top, if_neg top, lookup_filter fun p => !condition p]
    cases condition place <;> simp [top]

/-- Fails unless a directory stands at a place. -/
def expectDirectory (disk : Disk) (place : Place) : Except FileError Unit :=
  match disk.node? place with
  | none => .error .notFound
  | some (.file _) => .error .notADirectory
  | some .directory => .ok ()

/-- Where segments lead to from a place. What is there at the end does not matter, if nothing follows its
name. -/
def walk (disk : Disk) : Place → List String → Except FileError Place
  | place, [] => .ok place
  | place, segment :: rest =>
    if Path.isIdle segment then walk disk place rest
    else if segment = ".." then walk disk place.dropLast rest
    else do
      disk.expectDirectory place
      let inner := place ++ [segment]
      if rest ≠ [] then disk.expectDirectory inner
      walk disk inner rest

/-- Where a path leads to. -/
def place (disk : Disk) (path : Path) : Except FileError Place :=
  if path = "" then .error .notFound
  else if '\x00' ∈ path.toList then .error .invalidName
  else disk.walk (if path.isAbsolute then [] else disk.current) path.segments

/-- The path of the current directory, whether or not it is still there. -/
def currentPath (disk : Disk) : Path := Path.ofReversed ("" :: disk.current).reverse

/-- The path of the current directory, unless that was removed. -/
def currentDirectory (disk : Disk) : Except FileError Path :=
  if disk.node? disk.current = some .directory then .ok disk.currentPath else .error .notFound

/-- What a path leads to. -/
def find? (disk : Disk) (path : Path) : Option Node :=
  match disk.place path with
  | .ok place => disk.node? place
  | .error _ => none

/-- The content of a file. -/
def read (disk : Disk) (path : Path) : Except FileError Bytes := do
  let place ← disk.place path
  match disk.node? place with
  | none => .error .notFound
  | some .directory => .error .isADirectory
  | some (.file content) => .ok content

/-- The disk with a file written. -/
def write (disk : Disk) (path : Path) (content : Bytes) : Except FileError Disk := do
  let place ← disk.place path
  if disk.node? place = some .directory then .error .isADirectory
  else if place ∈ disk.locked then .error .notPermitted
  else .ok (disk.put place (.file content))

/-- A path without the slashes at its end, unless there is nothing else. -/
def withoutEnd (path : Path) : Path :=
  match path.segments.reverse.dropWhile (· = "") with
  | [] => path
  | segments => Path.ofReversed segments

/-- The disk with a new directory. -/
def createDirectory (disk : Disk) (path : Path) : Except FileError Disk := do
  let place ← disk.place (withoutEnd path)
  if (disk.node? place).isSome then .error .alreadyExists
  else .ok (disk.put place .directory)

/-- The disk after the attempt to remove a directory with all below it. A path that ends in `.` or `..`
only empties it; one that leads through what is already removed is as good as done. -/
def removeTree (disk : Disk) (path : Path) : Except FileError Unit × Disk :=
  match disk.place path with
  | .error e => (.error e, disk)
  | .ok place =>
    match disk.node? place with
    | none => (.error .notFound, disk)
    | some (.file _) => (.error .notADirectory, disk)
    | some .directory =>
      let emptied := disk.discard fun other => place.isPrefixOf other && other ≠ place
      match emptied.place path, path.segments.reverse.find? (· ≠ "") with
      | .error _, _ => (.ok (), emptied)
      | .ok _, none | .ok _, some "." => (.error .invalidArgument, emptied)
      | .ok _, some ".." => (.error .notEmpty, emptied)
      | .ok _, some _ => (.ok (), emptied.discard (· = place))

/-- The outcome of a change to the disk, which a failure leaves as it was. -/
def attempt (change : Disk → Except FileError Disk) : StateM Disk (Except FileError Unit) :=
  fun disk =>
    match change disk with
    | .ok disk => (.ok (), disk)
    | .error e => (.error e, disk)

instance : FileSystem (StateM Disk) where
  currentDirectory := do return (← get).currentDirectory
  isDirectory path := do return (← get).find? path = some .directory
  isPresent path := do return ((← get).find? path).isSome
  read path := do return (← get).read path
  write path content := attempt (·.write path content)
  createDirectory path := attempt (·.createDirectory path)
  removeTree path := fun disk => disk.removeTree path

end Disk

end Namescope
