/-!
# Reading from the front

A scanner takes something off the front of a text and leaves the rest, or fails. Alternatives start from
the same place.
-/
namespace Namescope.Toml

/-- Takes a value off the front of a text. -/
abbrev Scanner := StateT (List Char) Option

namespace Scanner

/-- The next character, which stays. -/
def peek? : Scanner (Option Char) := fun text => some (text.head?, text)

/-- Takes the next character if it satisfies `p`. -/
def charWhere (p : Char → Bool) : Scanner Char
  | c :: rest => if p c then some (c, rest) else none
  | [] => none

/-- Takes a given character. -/
def char (c : Char) : Scanner Unit := do
  let _ ← charWhere (· = c)

/-- Takes a given text. -/
def literal (text : String) : Scanner Unit := fun rest =>
  (text.toList.isPrefixOf? rest).map ((), ·)

/-- Whether a given text could be taken; it is, if it is there. -/
def accept (text : String) : Scanner Bool := fun rest =>
  match text.toList.isPrefixOf? rest with
  | some after => some (true, after)
  | none => some (false, rest)

/-- Takes all characters up to the first that does not satisfy `p`. -/
def takeWhile (p : Char → Bool) : Scanner (List Char) := fun text =>
  some (text.takeWhile p, text.dropWhile p)

/-- Takes characters that satisfy `p`, at least one. -/
def takeSome (p : Char → Bool) : Scanner (List Char) := do
  let text ← takeWhile p
  if text.isEmpty then failure else pure text

/-- Tries a scanner, which changes nothing if it fails. -/
def attempt {α : Type} (scanner : Scanner α) : Scanner (Option α) := fun text =>
  match scanner text with
  | some (a, rest) => some (some a, rest)
  | none => some (none, text)

/-- Takes spaces and tabs. -/
def blanks : Scanner Unit := do
  let _ ← takeWhile fun c => c = ' ' || c = '\t'

end Scanner

/-- Whether `c` may stand in a comment or in a quoted text: no control character but the tab. -/
def isPlain (c : Char) : Bool := c = '\t' || (0x20 ≤ c.toNat && c.toNat ≠ 0x7F)

end Namescope.Toml
