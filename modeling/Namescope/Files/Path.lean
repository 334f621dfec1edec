/-!
# Paths

A path is kept as it is given: joining writes one path after the other and tidies nothing up. Only the
parents of a path look at its segments, of which an empty one and a `.` name no place of their own,
except a `.` in front.
-/
namespace Namescope

/-- The text of a path. -/
abbrev Path := String

namespace Path

/-- The segments between the slashes of a text. -/
def segmentsFrom : List Char → List (List Char)
  | [] => [[]]
  | c :: rest =>
    if c = '/' then [] :: segmentsFrom rest
    else
      match segmentsFrom rest with
      | [] => [[c]]
      | segment :: more => (c :: segment) :: more

/-- The segments between the slashes of a path. -/
def segments (path : Path) : List String :=
  (segmentsFrom path.toList).map String.ofList

/-- Whether the path starts at the root. -/
def isAbsolute (path : Path) : Bool :=
  path.toList.head? = some '/'

/-- The second path seen from the first; an absolute one stays as it is. -/
def join (base path : Path) : Path :=
  if isAbsolute path then path
  else if base.toList.isEmpty || base.toList.getLast? = some '/' then base ++ path
  else base ++ "/" ++ path

/-- Whether a segment names no place of its own. -/
def isIdle (segment : String) : Bool := segment = "" || segment = "."

/-- The parts of a path that end in a segment that counts, the longest first; segments are listed from
the last to the first, which always counts. -/
def stems : List String → List (List String)
  | [] => []
  | [front] => [[front]]
  | last :: rest => if isIdle last then stems rest else (last :: rest) :: stems rest

/-- The path with these segments, listed from the last to the first. -/
def ofReversed (segments : List String) : Path :=
  if segments = [""] then "/" else String.intercalate "/" segments.reverse

/-- The parents of a path, the nearest first. The empty path is the last one of a relative path. -/
def parents (path : Path) : List Path :=
  ((stems path.segments.reverse).drop 1).map ofReversed ++
    if isAbsolute path || path = "" then [] else [""]

/-- The directory that a path lies in. -/
def parent? (path : Path) : Option Path := path.parents.head?

end Path

end Namescope
