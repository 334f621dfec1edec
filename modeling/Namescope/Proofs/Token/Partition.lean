import Namescope.Proofs.Token.Lexemes
import Namescope.Token.Scan
/-!
# The partition of a source text

A text falls into segments: lexemes, each at its place. There is one such partition only, and the tokens
and the diagnostics of a scan are those of its segments, with an empty token after the last.
-/
namespace Namescope

/-! ## Places -/

namespace Position

/-- The position after the characters `before`: their bytes, the newlines among them, and the characters
after the last newline. -/
def after (before : List Char) : Position :=
  ⟨before.foldl (· + ·.utf8Size) 0, 1 + before.count '\n', 1 + (before.reverse.takeWhile (· ≠ '\n')).length⟩

theorem after_concat (before : List Char) (c : Char) : after (before ++ [c]) = (after before).next c := by
  unfold next
  split
  · next h =>
    subst h
    simp [after, Nat.add_assoc]
  · next h =>
    have hcount : [c].count '\n' = 0 := List.count_eq_zero.2 (by simpa using Ne.symm h)
    simp [after, h, hcount, Nat.add_assoc]

theorem after_past (before text : List Char) : (after before).past text = after (before ++ text) := by
  induction text generalizing before with
  | nil => rw [List.append_nil, past_nil]
  | cons c text ih =>
    have hstep : (after before).past (c :: text) = ((after before).next c).past text := rfl
    rw [hstep, ← after_concat, ih, List.append_assoc, List.singleton_append]

/-- Walking over a text from its first position counts what stands in it. -/
theorem past_eq_after (text : List Char) : ({} : Position).past text = after text :=
  after_past [] text

end Position

/-! ## The pieces of a text -/

/-- Every piece of a text is a lexeme in front of the pieces after it. -/
theorem Piece.lexeme_of_split {text : List Char} {before after : List Piece} {piece : Piece}
    (h : split text = before ++ piece :: after) : Lexeme piece.form piece.text (after.flatMap Piece.text) := by
  fun_induction split text generalizing before with
  | case1 => simp at h
  | case2 c cs ih =>
    cases before with
    | nil =>
      obtain ⟨rfl, rfl⟩ := List.cons.inj h
      rw [flatMap_text_split]
      exact Cut.lexeme c cs
    | cons first before => exact ih (List.cons.inj h).2

/-- Lexemes in a row are the pieces of their text. -/
theorem Piece.split_flatMap_text {pieces : List Piece} (h : ∀ before piece after,
    pieces = before ++ piece :: after → Lexeme piece.form piece.text (after.flatMap Piece.text)) :
    split (pieces.flatMap Piece.text) = pieces := by
  induction pieces with
  | nil => rw [List.flatMap_nil, split]
  | cons piece pieces ih =>
    have hpieces := ih fun before next after e => h (piece :: before) next after (congrArg (piece :: ·) e)
    rw [List.flatMap_cons, (h [] piece pieces rfl).split_append, hpieces]

/-! ## Segments -/

/-- A piece of a text and the span of its characters. -/
structure Segment extends Piece where
  span : Span

namespace Segment

/-- The characters of segments in order. -/
def textOf (segments : List Segment) : List Char := segments.flatMap (·.text)

/-- The token that a segment stands for. -/
def token? (segment : Segment) : Option Token :=
  match segment.form with
  | .token kind => some ⟨kind, segment.span⟩
  | .clipped => some ⟨.int maxInteger, segment.span⟩
  | .blank | .comment | .flaw _ => none

/-- What is reported of a segment. -/
def diagnostic? (segment : Segment) : Option Diagnostic :=
  match segment.form with
  | .clipped | .flaw .integerTooLarge =>
    some ⟨.warning, "integer literal too large; using max value", segment.span, none⟩
  | .flaw issue => some ⟨.error, issue.message, segment.span, none⟩
  | .blank | .comment | .token _ => none

/-- Pieces laid out one after the other from the position `p`. -/
def layout (p : Position) : List Piece → List Segment
  | [] => []
  | piece :: more => ⟨piece, p.spanTo (p.past piece.text)⟩ :: layout (p.past piece.text) more

theorem map_toPiece_layout (p : Position) (pieces : List Piece) : (layout p pieces).map toPiece = pieces := by
  induction pieces generalizing p with
  | nil => rfl
  | cons piece pieces ih => rw [layout, List.map_cons, ih]

/-- The span of a segment begins and ends where the text before it and with it ends. -/
theorem span_of_layout {p : Position} {pieces : List Piece} {before after : List Segment} {segment : Segment}
    (h : layout p pieces = before ++ segment :: after) :
    segment.span = (p.past (textOf before)).spanTo (p.past (textOf before ++ segment.text)) := by
  induction before generalizing p pieces with
  | nil =>
    cases pieces with
    | nil => simp [layout] at h
    | cons piece pieces =>
      obtain ⟨rfl, -⟩ := List.cons.inj h
      rfl
  | cons first before ih =>
    cases pieces with
    | nil => simp [layout] at h
    | cons piece pieces =>
      obtain ⟨rfl, hmore⟩ := List.cons.inj h
      rw [ih hmore, ← Position.past_append, ← Position.past_append]
      simp only [textOf, List.flatMap_cons, List.append_assoc]

theorem textOf_eq (segments : List Segment) : textOf segments = (segments.map toPiece).flatMap Piece.text := by
  rw [textOf, List.flatMap_map]

end Segment

/-- The segments are the whole text, each is a lexeme in front of the text after it, and its span is where
its characters stand. -/
structure Partitions (segments : List Segment) (text : List Char) : Prop where
  whole : Segment.textOf segments = text
  lexeme : ∀ before segment after, segments = before ++ segment :: after →
    Lexeme segment.form segment.text (Segment.textOf after)
  span : ∀ before segment after, segments = before ++ segment :: after → segment.span =
    (Position.after (Segment.textOf before)).spanTo (Position.after (Segment.textOf before ++ segment.text))

/-- The pieces of a text, laid out, partition it. -/
theorem partitions_layout (text : List Char) : Partitions (Segment.layout {} (Piece.split text)) text where
  whole := by rw [Segment.textOf_eq, Segment.map_toPiece_layout, Piece.flatMap_text_split]
  lexeme before segment after h := by
    have hpieces := congrArg (List.map Segment.toPiece) h
    rw [Segment.map_toPiece_layout, List.map_append, List.map_cons] at hpieces
    rw [Segment.textOf_eq]
    exact Piece.lexeme_of_split hpieces
  span before segment after h := by
    rw [← Position.past_eq_after, ← Position.past_eq_after]
    exact Segment.span_of_layout h

/-- Segments with the right spans are their pieces laid out. -/
theorem Segment.eq_layout {p : Position} {segments : List Segment} (h : ∀ before segment after,
    segments = before ++ segment :: after →
      segment.span = (p.past (textOf before)).spanTo (p.past (textOf before ++ segment.text))) :
    segments = layout p (segments.map toPiece) := by
  induction segments generalizing p with
  | nil => rfl
  | cons first segments ih =>
    have hmore := ih (p := p.past first.text) fun before segment after e => by
      rw [h (first :: before) segment after (congrArg (first :: ·) e), ← Position.past_append,
        ← Position.past_append]
      simp only [textOf, List.flatMap_cons, List.append_assoc]
    have hfirst : first.span = p.spanTo (p.past first.text) := h [] first segments rfl
    rw [List.map_cons, layout, ← hmore, ← hfirst]

/-- A text has one partition only. -/
theorem Partitions.eq_layout {segments : List Segment} {text : List Char} (h : Partitions segments text) :
    segments = Segment.layout {} (Piece.split text) := by
  have hsplit : Piece.split text = segments.map Segment.toPiece := by
    rw [← h.whole, Segment.textOf_eq]
    refine Piece.split_flatMap_text fun before piece after e => ?_
    obtain ⟨front, back, rfl, rfl, hback⟩ := List.map_eq_append_iff.1 e
    obtain ⟨segment, behind, rfl, rfl, rfl⟩ := List.map_eq_cons_iff.1 hback
    rw [← Segment.textOf_eq]
    exact h.lexeme front segment behind rfl
  rw [hsplit]
  refine Segment.eq_layout fun before segment after e => ?_
  rw [Position.past_eq_after, Position.past_eq_after]
  exact h.span before segment after e

/-! ## What a scan makes of the segments -/

/-- The characters that a token is written with: an integer in any digits that come to its value or above
the largest one, every other token as it is spelled. -/
def TokenKind.WrittenAs (text : List Char) : TokenKind → Prop
  | int value => IsNumeral text ∧ value = min (Text.numeral text) maxInteger
  | kind => text = kind.spelling

/-- A lexeme that stands for a token has its characters. -/
theorem Lexeme.token_writtenAs {form : PieceForm} {text rest : List Char} (h : Lexeme form text rest)
    {span : Span} {token : Token} (htoken : Segment.token? ⟨⟨form, text⟩, span⟩ = some token) :
    token.kind ≠ .eof ∧ token.kind.WrittenAs text ∧ token.span = span := by
  cases h with
  | blank | comment | unexpectedCharacter | unterminatedString | badEscape => cases htoken
  | int htext _ hle =>
    cases htoken
    exact ⟨nofun, ⟨htext, by omega⟩, rfl⟩
  | clipped htext _ hlt =>
    cases htoken
    exact ⟨nofun, ⟨htext, by omega⟩, rfl⟩
  | keyword | truth | mark =>
    cases htoken
    exact ⟨nofun, rfl, rfl⟩
  | name | string =>
    cases htoken
    exact ⟨nofun, String.toList_ofList.symm, rfl⟩

namespace Segment

/-- A segment without its characters. -/
def placed (segment : Segment) : Placed := ⟨segment.form, segment.span⟩

theorem placed_layout (p : Position) (pieces : List Piece) :
    (layout p pieces).map placed = Placed.layout p pieces := by
  induction pieces generalizing p with
  | nil => rfl
  | cons piece pieces ih =>
    rw [layout, List.map_cons, ih]
    rfl

theorem token?_placed (segment : Segment) : segment.placed.token? = segment.token? := by
  unfold Placed.token? placed token?
  cases segment.form <;> rfl

theorem diagnostic?_placed (segment : Segment) :
    segment.placed.finding?.map lexicalDiagnostic = segment.diagnostic? := by
  unfold Placed.finding? placed diagnostic?
  rcases segment.form with _ | _ | _ | _ | ⟨_ | _ | _ | _⟩ <;> rfl

end Segment

/-- The tokens of a scan are those of the segments, and one for the end. -/
theorem Scan.tokens_ofSource (source : String) : (ofSource source).tokens =
    (Segment.layout {} (Piece.split source.toList)).filterMap Segment.token? ++
      [endToken (Position.after source.toList)] := by
  rw [← funext Segment.token?_placed, ← Position.past_eq_after]
  exact congrArg (· ++ _) (by rw [← Segment.placed_layout, List.filterMap_map]; rfl)

/-- What a scan reports is reported of the segments. -/
theorem Scan.report_ofSource (source : String) : (ofSource source).report =
    (Segment.layout {} (Piece.split source.toList)).filterMap Segment.diagnostic? := by
  rw [← funext Segment.diagnostic?_placed, report, ofSource, ofChars, ← Segment.placed_layout,
    List.map_filterMap, List.filterMap_map]
  rfl

/-- A text has one partition into lexemes at their places. The tokens of a scan are those of the segments,
each written with the characters of its segment, and then an empty token where the text ends; what it
reports is a warning for each clipped number and an error for each flaw. -/
theorem scan_partition (source : String) : ∃ segments : List Segment, Partitions segments source.toList ∧
    (∀ others, Partitions others source.toList → others = segments) ∧
    (Scan.ofSource source).tokens = segments.filterMap Segment.token? ++
      [⟨.eof, (Position.after source.toList).spanTo (Position.after source.toList)⟩] ∧
    (∀ segment ∈ segments, ∀ token, segment.token? = some token →
      token.kind ≠ .eof ∧ token.kind.WrittenAs segment.text ∧ token.span = segment.span) ∧
    (Scan.ofSource source).report = segments.filterMap Segment.diagnostic? := by
  have hpartition := partitions_layout source.toList
  refine ⟨_, hpartition, fun others h => h.eq_layout, Scan.tokens_ofSource source, ?_,
    Scan.report_ofSource source⟩
  intro segment hmem token htoken
  obtain ⟨before, after, e⟩ := List.append_of_mem hmem
  exact (hpartition.lexeme before segment after e).token_writtenAs htoken

end Namescope
