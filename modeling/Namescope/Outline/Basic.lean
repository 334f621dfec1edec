/-!
# Outlines

A value with its parts, one on a line, the parts of a part further in. An outline is a list of lines; a
part that is put into another one is moved in and ends in a comma.
-/
namespace Namescope

/-- The lines of an outline. -/
abbrev Outline := List String

namespace Outline

/-- A value without parts. -/
def word (text : String) : Outline := [text]

/-- The lines with a text behind the last one. -/
def followedBy (mark : String) : Outline → Outline
  | [] => []
  | [last] => [last ++ mark]
  | first :: more => first :: followedBy mark more

/-- The lines with a text before the first one. -/
def precededBy (label : String) : Outline → Outline
  | [] => []
  | first :: more => (label ++ first) :: more

/-- A part among the parts of another value. -/
def asPart (outline : Outline) : Outline :=
  (outline.followedBy ",").map ("    " ++ ·)

/-- A value with named parts. -/
def record (name : String) (fields : List (String × Outline)) : Outline :=
  (name ++ " \x7b") :: fields.flatMap (fun field => (field.2.precededBy (field.1 ++ ": ")).asPart) ++ ["\x7d"]

/-- A value around another one. -/
def around (name : String) (content : Outline) : Outline :=
  (name ++ "(") :: content.asPart ++ [")"]

/-- Values in order. -/
def list : List Outline → Outline
  | [] => ["[]"]
  | items => "[" :: items.flatMap asPart ++ ["]"]

/-- A value that need not be there. -/
def option : Option Outline → Outline
  | none => word "None"
  | some content => around "Some" content

end Outline

end Namescope
