import Namescope.Diagnostic
import Namescope.Token.Piece
/-!
# The tokens of a source text

Each piece of a text gets the span between the positions before and after it. Tokens and findings are
read off the placed pieces, and an empty token at the last position ends the list.
-/
namespace Namescope

namespace LexicalIssue

/-- A number that is too large is still a number; all other issues drop characters. -/
def severity : LexicalIssue → Severity
  | integerTooLarge => .warning
  | _ => .error

/-- The text of an issue. -/
def message : LexicalIssue → String
  | integerTooLarge => "integer literal too large; using max value"
  | unexpectedCharacter => "unexpected character"
  | unterminatedString => "unterminated string literal"
  | badEscape => "bad escape sequence in string literal"

end LexicalIssue

/-- The diagnostic for something noticed in the characters. -/
def lexicalDiagnostic (f : Finding LexicalIssue) : Diagnostic :=
  ⟨f.issue.severity, f.issue.message, f.span, none⟩

namespace PieceForm

/-- The token that a piece stands for. -/
def token? : PieceForm → Option TokenKind
  | token kind => some kind
  | clipped => some (.int maxInteger)
  | _ => none

/-- What is noticed about a piece. -/
def issue? : PieceForm → Option LexicalIssue
  | clipped => some .integerTooLarge
  | flaw issue => some issue
  | _ => none

end PieceForm

/-- A piece at its place. -/
structure Placed where
  form : PieceForm
  span : Span

/-- Lays pieces out one after the other from the position `p`. -/
def Placed.layout (p : Position) : List Piece → List Placed
  | [] => []
  | piece :: more => ⟨piece.form, p.spanTo (p.past piece.text)⟩ :: layout (p.past piece.text) more

namespace Placed

/-- The token of a placed piece. -/
def token? (placed : Placed) : Option Token :=
  placed.form.token?.map (⟨·, placed.span⟩)

/-- The finding of a placed piece. -/
def finding? (placed : Placed) : Option (Finding LexicalIssue) :=
  placed.form.issue?.map (⟨·, placed.span⟩)

end Placed

/-- The tokens of a text and what was noticed on the way. -/
structure Scan where
  tokens : List Token
  findings : List (Finding LexicalIssue)

namespace Scan

/-- The empty token at the position `p`. -/
def endToken (p : Position) : Token := ⟨.eof, p.spanTo p⟩

/-- Scans a text that begins at the position `p`. -/
def ofChars (p : Position) (text : List Char) : Scan :=
  let placed := Placed.layout p (Piece.split text)
  ⟨placed.filterMap Placed.token? ++ [endToken (p.past text)], placed.filterMap Placed.finding?⟩

/-- Scans a source text. -/
def ofSource (source : String) : Scan :=
  ofChars {} source.toList

/-- The findings as diagnostics. -/
def report (scan : Scan) : Report :=
  scan.findings.map lexicalDiagnostic

end Scan

end Namescope
