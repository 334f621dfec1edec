/-!
# Lines of a text

A line ends at a newline, which takes a carriage return right before it along; a carriage return
anywhere else is part of its line. A final newline opens no further line.
-/
namespace Namescope.Text

/-- The lines of a text without their endings. -/
def lines : List Char → List (List Char)
  | [] => []
  | '\n' :: rest => [] :: lines rest
  | '\r' :: '\n' :: rest => [] :: lines rest
  | c :: rest =>
    match lines rest with
    | [] => [[c]]
    | line :: more => (c :: line) :: more

/-- The line with the given number, counted from 1. -/
def line? (text : String) (number : Nat) : Option String :=
  match number with
  | 0 => none
  | n + 1 => (lines text.toList)[n]?.map String.ofList

end Namescope.Text
