import Namescope.Text.Blank
import Namescope.Token.Basic
import Namescope.Token.StringBody
/-!
# Pieces of a source text

A text is cut from left to right into pieces: blanks, comments, tokens and flaws. Each cut takes the
longest piece that begins there. Main statements: no character is lost, and no piece is empty.
-/
namespace Namescope

/-- What can be wrong with the characters of a text. -/
inductive LexicalIssue where
  | integerTooLarge
  | unexpectedCharacter
  | unterminatedString
  | badEscape
  deriving DecidableEq

/-- The largest integer literal. -/
def maxInteger : Nat := 2147483647

/-- What a piece is: `clipped` is a number above `maxInteger`, which is read as that. -/
inductive PieceForm where
  | blank
  | comment
  | token (kind : TokenKind)
  | clipped
  | flaw (issue : LexicalIssue)

/-- A run of characters that belong together. -/
structure Piece where
  form : PieceForm
  text : List Char

/-- The first piece of a text and what follows it. -/
structure Cut extends Piece where
  rest : List Char

/-- Whether a name or keyword may begin with `c`. -/
def startsWord (c : Char) : Bool := c.isAlpha || c = '_'

/-- Whether a name or keyword may go on with `c`. -/
def inWord (c : Char) : Bool := c.isAlphanum || c = '_'

/-- What a run of digits is. -/
def PieceForm.ofDigits (text : List Char) : PieceForm :=
  if Text.numeral text ≤ maxInteger then .token (.int (Text.numeral text)) else .clipped

/-- What a string literal is, from its body: a missing quote counts before a bad escape. -/
def PieceForm.ofLiteral (body : StringBody) : PieceForm :=
  if !body.closed then .flaw .unterminatedString
  else if !body.sound then .flaw .badEscape
  else .token (.string (String.ofList ('"' :: body.text)))

namespace Cut

/-- The longest run of characters with the property `p`, which is what `form` says of it. -/
def run (p : Char → Bool) (form : List Char → PieceForm) (text : List Char) : Cut :=
  ⟨⟨form (text.takeWhile p), text.takeWhile p⟩, text.dropWhile p⟩

/-- Cuts the first piece off the text `c :: cs`. -/
def first (c : Char) (cs : List Char) : Cut :=
  if Text.isBlank c then ⟨⟨.blank, [c]⟩, cs⟩
  else if c = '#' || (c = '/' && cs.head? = some '/') then run (· ≠ '\n') (fun _ => .comment) (c :: cs)
  else if startsWord c then run inWord (fun word => .token (.ofWord word)) (c :: cs)
  else if c.isDigit then run Char.isDigit .ofDigits (c :: cs)
  else if c = '"' then
    let body := StringBody.read cs
    ⟨⟨.ofLiteral body, '"' :: body.text⟩, body.rest⟩
  else match Mark.first? (c :: cs) with
    | some m => ⟨⟨.token (.mark m), m.letters⟩, (c :: cs).drop m.letters.length⟩
    | none => ⟨⟨.flaw .unexpectedCharacter, [c]⟩, cs⟩

theorem run_text_append_rest (p : Char → Bool) (form : List Char → PieceForm) (text : List Char) :
    (run p form text).text ++ (run p form text).rest = text :=
  List.takeWhile_append_dropWhile

theorem run_text_ne_nil {p : Char → Bool} {form : List Char → PieceForm} {c : Char} {cs : List Char}
    (h : p c = true) : (run p form (c :: cs)).text ≠ [] := by
  simp [run, h]

/-- A cut loses no character. -/
theorem text_append_rest (c : Char) (cs : List Char) :
    (first c cs).text ++ (first c cs).rest = c :: cs := by
  unfold first
  split
  · rfl
  split
  · exact run_text_append_rest ..
  split
  · exact run_text_append_rest ..
  split
  · exact run_text_append_rest ..
  split
  · next h => simp [h, StringBody.text_append_rest]
  split
  · next m h =>
    have h := List.isPrefixOf_iff_prefix.1 (Mark.isPrefixOf_of_first? h)
    exact List.prefix_iff_eq_append.1 h
  · rfl

/-- A cut takes at least one character. -/
theorem text_ne_nil (c : Char) (cs : List Char) : (first c cs).text ≠ [] := by
  unfold first
  split
  · simp
  split
  · next h => exact run_text_ne_nil (by
      rcases Bool.or_eq_true_iff.1 h with h | h <;> simp_all)
  split
  · next h => exact run_text_ne_nil (by
      simp only [startsWord, inWord, Char.isAlphanum, Bool.or_eq_true] at h ⊢
      rcases h with h | h <;> simp [h])
  split
  · next h => exact run_text_ne_nil h
  split
  · simp
  split
  · exact Mark.letters_ne_nil _
  · simp

theorem length_rest_lt (c : Char) (cs : List Char) :
    (first c cs).rest.length < (c :: cs).length := by
  have h := congrArg List.length (text_append_rest c cs)
  have := List.length_pos_iff.2 (text_ne_nil c cs)
  rw [List.length_append] at h
  omega

end Cut

/-- Cuts a text into pieces. -/
def Piece.split : List Char → List Piece
  | [] => []
  | c :: cs => (Cut.first c cs).toPiece :: split (Cut.first c cs).rest
termination_by text => text.length
decreasing_by exact Cut.length_rest_lt c cs

/-- The pieces of a text, put together, are the text. -/
theorem Piece.flatMap_text_split (text : List Char) : (split text).flatMap Piece.text = text := by
  fun_induction split text with
  | case1 => rfl
  | case2 c cs ih => rw [List.flatMap_cons, ih, Cut.text_append_rest]

end Namescope
