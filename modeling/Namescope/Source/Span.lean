/-!
# Places in a source text

A position counts bytes from 0 and lines and characters from 1. A span is a byte range together
with the line and column of its first character.
-/
namespace Namescope

/-- A byte range and the line and column where it begins. -/
structure Span where
  start : Nat := 0
  stop : Nat := 0
  line : Nat := 0
  col : Nat := 0
  deriving DecidableEq, Inhabited

namespace Span

/-- Widens the byte range to cover `other`; line and column stay. -/
def merge (span other : Span) : Span :=
  { span with start := min span.start other.start, stop := max span.stop other.stop }

end Span

/-- A point between two characters of a text. -/
structure Position where
  offset : Nat := 0
  line : Nat := 1
  col : Nat := 1
  deriving DecidableEq, Inhabited

namespace Position

/-- The position after the character `c`: a newline opens the next line. -/
def next (p : Position) (c : Char) : Position :=
  if c = '\n' then ⟨p.offset + c.utf8Size, p.line + 1, 1⟩
  else ⟨p.offset + c.utf8Size, p.line, p.col + 1⟩

/-- The position after a whole text. -/
def past (p : Position) (text : List Char) : Position :=
  text.foldl next p

/-- The span from `p` to `q`, at the line and column of `p`. -/
def spanTo (p q : Position) : Span :=
  ⟨p.offset, q.offset, p.line, p.col⟩

@[simp] theorem past_nil (p : Position) : p.past [] = p := rfl

theorem past_append (p : Position) (s t : List Char) : p.past (s ++ t) = (p.past s).past t :=
  List.foldl_append

end Position

end Namescope
