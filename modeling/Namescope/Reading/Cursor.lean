import Namescope.Diagnostic
import Namescope.Tree.Basic
/-!
# Reading a token list

A cursor stands before the tokens that are left; it never moves past an end token. What a step of
reading returns carries the proof that the remaining tokens are a suffix of those before it, so every
loop over a cursor ends.
-/
namespace Namescope

/-- What can be wrong with the order of the tokens. -/
inductive SyntaxIssue where
  | declarationExpected
  | fieldExpected
  | typeExpected
  | statementExpected
  | declarationTooLate
  | assignmentExpected
  | inputTargetExpected
  | targetExpected
  | chainedComparison
  | expressionExpected
  | identifierExpected
  | markExpected (mark : Mark)
  deriving DecidableEq

/-- The text of an issue. -/
def SyntaxIssue.message : SyntaxIssue → String
  | declarationExpected => "expected a declaration"
  | fieldExpected => "expected a field declaration"
  | typeExpected => "expected a type"
  | statementExpected => "expected a statement"
  | declarationTooLate => "declarations must come before statements"
  | assignmentExpected => "expected '=', '++' or '--' after location"
  | inputTargetExpected => "expected a location after '>>'"
  | targetExpected => "left side of assignment must be a location"
  | chainedComparison => "comparison operators cannot be chained"
  | expressionExpected => "expected expression"
  | identifierExpected => "expected identifier"
  | markExpected mark => "expected '" ++ String.ofList mark.letters ++ "'"

/-- A place in a token list: the tokens from there on, the span of the token before it, and the
findings so far, the newest first. -/
structure Cursor where
  rest : List Token
  last : Option Span := none
  findings : List (Finding SyntaxIssue) := []

/-- A value read at `c`, and the cursor after it. -/
structure Read (α : Type) (c : Cursor) where
  value : α
  cursor : Cursor
  suffix : cursor.rest <:+ c.rest

/-- A value that took at least one token. -/
structure Step (α : Type) (c : Cursor) extends Read α c where
  shorter : cursor.rest.length < c.rest.length

namespace Read

variable {α β : Type} {c d : Cursor}

theorem length_le (r : Read α c) : r.cursor.rest.length ≤ c.rest.length :=
  r.suffix.length_le

/-- The value `value` after all that `r` read. -/
def give (r : Read α c) (value : β) : Read β c := ⟨value, r.cursor, r.suffix⟩

/-- What was read at a later cursor, seen from an earlier one. -/
def widen (r : Read α d) (h : d.rest <:+ c.rest) : Read α c :=
  ⟨r.value, r.cursor, r.suffix.trans h⟩

/-- What was read after a first token, as a step. -/
def after (r : Read α d) (s : Step β c) (h : d.rest <:+ s.cursor.rest) : Step α c :=
  { r.widen (h.trans s.suffix) with
    shorter := Nat.lt_of_le_of_lt (r.suffix.trans h).length_le s.shorter }

end Read

namespace Step

variable {α β : Type} {c : Cursor}

/-- The step with another value. -/
def replace (s : Step α c) (value : β) : Step β c := { s with value }

/-- What was read right after a first token, as a step. -/
def thenRead (s : Step β c) (r : Read α s.cursor) : Step α c := r.after s (List.suffix_refl _)

end Step

namespace Cursor

/-- The kind of the next token. -/
def kind (c : Cursor) : TokenKind :=
  match c.rest with
  | [] => .eof
  | t :: _ => t.kind

/-- The span of the next token. -/
def here (c : Cursor) : Span :=
  match c.rest with
  | [] => {}
  | t :: _ => t.span

/-- The span of the token before the cursor; at the start, of the next one. -/
def lastSpan (c : Cursor) : Span := c.last.getD c.here

/-- Reads nothing. -/
def stay {α : Type} (c : Cursor) (value : α) : Read α c := ⟨value, c, List.suffix_refl _⟩

/-- Records a finding at a given span. -/
def noteAt (c : Cursor) (span : Span) (issue : SyntaxIssue) : Cursor :=
  { c with findings := ⟨issue, span⟩ :: c.findings }

/-- Records a finding at a given span if the condition holds. -/
def noteIf (c : Cursor) (condition : Bool) (span : Span) (issue : SyntaxIssue) : Cursor :=
  if condition then c.noteAt span issue else c

/-- Records a finding at the next token. -/
def note (c : Cursor) (issue : SyntaxIssue) : Cursor := c.noteAt c.here issue

@[simp] theorem rest_noteAt (c : Cursor) (span : Span) (issue : SyntaxIssue) :
    (c.noteAt span issue).rest = c.rest := rfl

@[simp] theorem rest_note (c : Cursor) (issue : SyntaxIssue) : (c.note issue).rest = c.rest := rfl

@[simp] theorem rest_noteIf (c : Cursor) (condition : Bool) (span : Span) (issue : SyntaxIssue) :
    (c.noteIf condition span issue).rest = c.rest := by
  unfold noteIf; split <;> rfl

/-- Whether the next token is the given mark. -/
def isAt (c : Cursor) (mark : Mark) : Bool := c.kind = .mark mark

/-- Takes the next token; there is none at the end. -/
def next? (c : Cursor) : Option (Step Token c) :=
  match h : c.rest with
  | [] => none
  | t :: rest =>
    if t.kind = .eof then none
    else some ⟨⟨t, { c with rest, last := some t.span }, h ▸ List.suffix_cons t rest⟩, by simp [h]⟩

/-- Takes the next token if it is of the given kind. -/
def acceptKind (c : Cursor) (kind : TokenKind) : Option (Step Span c) :=
  match c.next? with
  | some t => if t.value.kind = kind then some (t.replace t.value.span) else none
  | none => none

/-- Takes the next token if it is the given mark. -/
def accept (c : Cursor) (mark : Mark) : Option (Step Span c) := c.acceptKind (.mark mark)

/-- Takes the given mark; if it is missing that is noted. The value is its span, or that of the token
in its place. -/
def expect (c : Cursor) (mark : Mark) : Read Span c :=
  match c.accept mark with
  | some t => t.toRead
  | none => ⟨c.here, c.note (.markExpected mark), List.suffix_refl _⟩

/-- Takes a name; in place of a missing one stands `_`, and that is noted. -/
def ident (c : Cursor) : Read Ident c :=
  match c.next? with
  | some t =>
    match t.value.kind with
    | .ident name => t.give ⟨name, t.value.span, none⟩
    | _ => ⟨⟨"_", c.here, none⟩, c.note .identifierExpected, List.suffix_refl _⟩
  | none => ⟨⟨"_", c.here, none⟩, c.note .identifierExpected, List.suffix_refl _⟩

/-- Skips tokens up to and with the next semicolon, or up to the next closing brace. -/
def skipInBlock (c : Cursor) : Read Unit c :=
  match c.next? with
  | none => c.stay ()
  | some t =>
    if t.value.kind = .mark .rbrace then c.stay ()
    else if t.value.kind = .mark .semicolon then t.give ()
    else (skipInBlock t.cursor).widen t.suffix
termination_by c.rest.length
decreasing_by exact t.shorter

/-- Goes on after a failure at the token `t`, right before the cursor, inside a block. -/
def resumeInBlock (c : Cursor) (t : Token) : Read Unit c :=
  if t.kind = .mark .semicolon then c.stay () else c.skipInBlock

/-- Skips tokens up to and with the next semicolon or closing brace. -/
def skipPastTerminator (c : Cursor) : Read Unit c :=
  match c.next? with
  | none => c.stay ()
  | some t =>
    if t.value.kind = .mark .semicolon ∨ t.value.kind = .mark .rbrace then t.give ()
    else (skipPastTerminator t.cursor).widen t.suffix
termination_by c.rest.length
decreasing_by exact t.shorter

/-- Goes on after a failure at the token `t`, right before the cursor, between declarations. -/
def resumeAtTop (c : Cursor) (t : Token) : Read Unit c :=
  if t.kind = .mark .semicolon ∨ t.kind = .mark .rbrace then c.stay () else c.skipPastTerminator

end Cursor

/-- What was read after a finding was recorded, seen from before. -/
def Read.afterNote {α : Type} {c : Cursor} {span : Span} {issue : SyntaxIssue}
    (r : Read α (c.noteAt span issue)) : Read α c :=
  ⟨r.value, r.cursor, r.suffix⟩

end Namescope
