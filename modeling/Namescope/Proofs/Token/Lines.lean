import Mathlib.Data.String.Basic
import Namescope.Proofs.Token.Partition
/-!
# Lines of a source text

A newline is a piece of its own, and no lexeme depends on what stands behind the end of its line. So a
text is cut at every newline, and what follows is scanned as if it stood alone, at its place.
-/
namespace Namescope

/-! ## Moved places -/

/-- By how many bytes and lines a text stands behind the first position. -/
structure Displacement where
  bytes : Nat := 0
  lines : Nat := 0

/-- The place of a text that stands on the line after `text`. -/
def Displacement.behind (text : String) : Displacement :=
  ⟨text.utf8ByteSize + 1, text.toList.count '\n' + 1⟩

/-- A span that is moved with its text. -/
def Span.move (d : Displacement) (span : Span) : Span :=
  ⟨span.start + d.bytes, span.stop + d.bytes, span.line + d.lines, span.col⟩

/-- A token with another span. -/
def Token.mapSpan (f : Span → Span) (t : Token) : Token := ⟨t.kind, f t.span⟩

/-- A finding with another span. -/
def Finding.mapSpan {Issue : Type} (f : Span → Span) (finding : Finding Issue) : Finding Issue :=
  ⟨finding.issue, f finding.span⟩

/-- A diagnostic with another span. -/
def Diagnostic.mapSpan (f : Span → Span) (d : Diagnostic) : Diagnostic := { d with span := f d.span }

theorem Span.merge_move (d : Displacement) (span other : Span) :
    (span.merge other).move d = (span.move d).merge (other.move d) := by
  simp only [Span.move, Span.merge, Nat.add_min_add_right, Nat.add_max_add_right]

namespace Position

/-- A position that is moved with its text. -/
def move (d : Displacement) (p : Position) : Position := ⟨p.offset + d.bytes, p.line + d.lines, p.col⟩

theorem next_move (d : Displacement) (p : Position) (c : Char) : (p.move d).next c = (p.next c).move d := by
  unfold next
  split <;> simp only [move, Nat.add_right_comm]

theorem past_move (d : Displacement) (p : Position) (text : List Char) :
    (p.move d).past text = (p.past text).move d := by
  induction text generalizing p with
  | nil => rfl
  | cons c text ih =>
    rw [past, List.foldl_cons, next_move]
    exact ih (p.next c)

theorem spanTo_move (d : Displacement) (p q : Position) :
    (p.move d).spanTo (q.move d) = (p.spanTo q).move d := rfl

/-- The bytes and the lines of a text lie between the positions before and after it. -/
theorem past_counts (p : Position) (text : List Char) :
    (p.past text).offset = p.offset + String.utf8Len text ∧
      (p.past text).line = p.line + text.count '\n' := by
  induction text generalizing p with
  | nil => exact ⟨rfl, rfl⟩
  | cons c text ih =>
    obtain ⟨hoffset, hline⟩ := ih (p.next c)
    rw [past, List.foldl_cons, ← past, hoffset, hline, String.utf8Len_cons, List.count_cons]
    unfold next
    split
    · next h => simp [h]; omega
    · next h => simp [h]; omega

/-- Behind a text and a newline, the first position has moved. -/
theorem past_newline (text : String) :
    ({} : Position).past (text.toList ++ ['\n']) = ({} : Position).move (.behind text) := by
  obtain ⟨hoffset, hline⟩ := past_counts {} text.toList
  rw [String.utf8Len_toList] at hoffset
  rw [past_append]
  simp only [past, List.foldl_cons, List.foldl_nil, next, if_true, move, Displacement.behind]
  rw [← past, hoffset, hline]
  simp [Char.utf8Size]
  omega

end Position

/-! ## Nothing reaches past a newline -/

/-- What has no newline in it and begins a text with a newline stands before the newline. -/
theorem prefix_before_newline {l s t : List Char} (hl : '\n' ∉ l) (h : l <+: s ++ '\n' :: t) : l <+: s := by
  rcases List.prefix_or_prefix_of_prefix h (List.prefix_append s _) with h' | ⟨more, rfl⟩
  · exact h'
  · have hmore := (List.prefix_append_right_inj s).1 h
    cases more with
    | nil => exact ⟨[], by simp⟩
    | cons c more =>
      obtain rfl := (List.cons_prefix_cons.1 hmore).1
      exact absurd (by simp) hl

theorem EndsLine.append_newline {rest : List Char} (h : EndsLine rest) (more : List Char) :
    EndsLine (rest ++ '\n' :: more) := by
  cases rest with
  | nil => simp [EndsLine]
  | cons c rest => exact h

theorem Maximal.append_newline {p : Char → Bool} {rest : List Char} (h : Maximal p rest)
    (hp : p '\n' = false) (more : List Char) : Maximal p (rest ++ '\n' :: more) := by
  cases rest with
  | nil => simpa [Maximal] using hp
  | cons c rest => exact h

theorem OpensComment.of_append_newline {text more : List Char} (h : OpensComment (text ++ '\n' :: more)) :
    OpensComment text :=
  h.imp (prefix_before_newline (by decide)) (prefix_before_newline (by decide))

theorem Mark.newline_not_mem (m : Mark) : '\n' ∉ m.letters := by
  cases m <;> decide

/-- A lexeme is one in front of the same line, whatever the lines after it are. -/
theorem Lexeme.append_newline {form : PieceForm} {text rest : List Char} (h : Lexeme form text rest)
    (more : List Char) : Lexeme form text (rest ++ '\n' :: more) := by
  cases h with
  | blank hblank => exact .blank hblank
  | comment hopens hline hend => exact .comment hopens hline (hend.append_newline more)
  | keyword k hrest => exact .keyword k (hrest.append_newline (by decide) more)
  | truth b hrest => exact .truth b (hrest.append_newline (by decide) more)
  | name hname hrest => exact .name hname (hrest.append_newline (by decide) more)
  | int htext hrest hle => exact .int htext (hrest.append_newline (by decide) more) hle
  | clipped htext hrest hlt => exact .clipped htext (hrest.append_newline (by decide) more) hlt
  | string hknown => exact .string hknown
  | mark hlongest hcomment =>
    refine .mark (fun m' hm' => hlongest m' ?_) fun hopens => hcomment ?_
    · rw [← List.append_assoc] at hm'
      exact prefix_before_newline m'.newline_not_mem hm'
    · rw [← List.append_assoc] at hopens
      exact hopens.of_append_newline
  | unexpectedCharacter hblank hhash hword hdigit hquote hmark =>
    refine .unexpectedCharacter hblank hhash hword hdigit hquote fun m hm => hmark m ?_
    rw [← List.cons_append] at hm
    exact prefix_before_newline m.newline_not_mem hm
  | unterminatedString hremnant hend => exact .unterminatedString hremnant (hend.append_newline more)
  | badEscape hknown => exact .badEscape hknown

theorem StringUnit.newline_not_mem (units : List StringUnit) : '\n' ∉ text units := by
  intro h
  obtain ⟨unit, -, hunit⟩ := List.mem_flatMap.1 h
  cases unit with
  | plain c hc => exact hc.2.2 (List.mem_singleton.1 hunit).symm
  | escape c hc =>
    rcases List.mem_cons.1 hunit with h | h
    · exact absurd h (by decide)
    · exact hc (List.mem_singleton.1 h).symm

/-- A lexeme with a newline in it is that newline. -/
theorem Lexeme.eq_newline {form : PieceForm} {text rest : List Char} (h : Lexeme form text rest)
    (hline : '\n' ∈ text) : form = .blank ∧ text = ['\n'] := by
  cases h with
  | blank => exact ⟨rfl, by rw [List.mem_singleton.1 hline]⟩
  | comment _ hnot => exact absurd hline hnot
  | keyword k => exact absurd (k.opens_word.2 _ hline) (by decide)
  | truth b => exact absurd ((TokenKind.opens_word b).2 _ hline) (by decide)
  | name hname => exact absurd (hname.inside _ hline) (by decide)
  | int htext | clipped htext => exact absurd (htext.digits _ hline) (by decide)
  | string | badEscape =>
    simp [StringUnit.quoted, StringUnit.newline_not_mem] at hline
  | mark => exact absurd hline (Mark.newline_not_mem _)
  | unexpectedCharacter hblank =>
    rw [← List.mem_singleton.1 hline] at hblank
    exact absurd hblank (by decide)
  | unterminatedString hremnant =>
    rcases hremnant with rfl | rfl <;> simp [StringUnit.newline_not_mem] at hline

/-! ## Pieces and places line by line -/

/-- The pieces of a text are those of its lines, with a blank for each newline. -/
theorem Piece.split_newline (a b : List Char) :
    split (a ++ '\n' :: b) = split a ++ ⟨.blank, ['\n']⟩ :: split b := by
  fun_induction split a with
  | case1 => exact Lexeme.split_append (.blank (by decide))
  | case2 c cs ih =>
    rw [← Cut.text_append_rest c cs, List.append_assoc, ((Cut.lexeme c cs).append_newline b).split_append, ih]
    rfl

namespace Placed

/-- A placed piece with another span. -/
def mapSpan (f : Span → Span) (placed : Placed) : Placed := ⟨placed.form, f placed.span⟩

theorem layout_append (p : Position) (pieces more : List Piece) :
    layout p (pieces ++ more) = layout p pieces ++ layout (p.past (pieces.flatMap Piece.text)) more := by
  induction pieces generalizing p with
  | nil => rfl
  | cons piece pieces ih =>
    rw [List.cons_append, layout, layout, ih, List.flatMap_cons, Position.past_append, List.cons_append]

theorem layout_move (d : Displacement) (p : Position) (pieces : List Piece) :
    layout (p.move d) pieces = (layout p pieces).map (mapSpan (Span.move d)) := by
  induction pieces generalizing p with
  | nil => rfl
  | cons piece pieces ih =>
    rw [layout, layout, Position.past_move, Position.spanTo_move, ih]
    rfl

theorem filterMap_token?_mapSpan (f : Span → Span) (placed : List Placed) :
    (placed.map (mapSpan f)).filterMap token? = (placed.filterMap token?).map (Token.mapSpan f) := by
  rw [List.filterMap_map, List.map_filterMap]
  refine List.filterMap_congr fun piece _ => ?_
  unfold Function.comp token? mapSpan
  cases piece.form.token? <;> rfl

theorem filterMap_finding?_mapSpan (f : Span → Span) (placed : List Placed) :
    (placed.map (mapSpan f)).filterMap finding? = (placed.filterMap finding?).map (Finding.mapSpan f) := by
  rw [List.filterMap_map, List.map_filterMap]
  refine List.filterMap_congr fun piece _ => ?_
  unfold Function.comp finding? mapSpan
  cases piece.form.issue? <;> rfl

/-- The pieces behind a newline are laid out as they are alone, at their place. -/
theorem layout_newline (a b : String) :
    layout {} (Piece.split (a.toList ++ '\n' :: b.toList)) =
      layout {} (Piece.split a.toList) ++
        ⟨.blank, (({} : Position).past a.toList).spanTo (({} : Position).move (.behind a))⟩ ::
          (layout {} (Piece.split b.toList)).map (mapSpan (Span.move (.behind a))) := by
  rw [Piece.split_newline, layout_append, Piece.flatMap_text_split, layout, ← Position.past_append,
    Position.past_newline, layout_move]

end Placed

/-! ## The scan line by line -/

namespace Scan

/-- The tokens without the one for the end. -/
def words (scan : Scan) : List Token := scan.tokens.filter (·.kind ≠ .eof)

theorem words_ofSource (source : String) :
    (ofSource source).words = (Placed.layout {} (Piece.split source.toList)).filterMap Placed.token? := by
  have hkinds : ∀ t ∈ (Placed.layout {} (Piece.split source.toList)).filterMap Placed.token?,
      decide (t.kind ≠ .eof) = true := by
    intro t ht
    rw [← Segment.placed_layout, List.filterMap_map] at ht
    obtain ⟨segment, hsegment, htoken⟩ := List.mem_filterMap.1 ht
    rw [Function.comp_apply, Segment.token?_placed] at htoken
    obtain ⟨before, after, e⟩ := List.append_of_mem hsegment
    have hlexeme := (partitions_layout source.toList).lexeme before segment after e
    exact decide_eq_true (hlexeme.token_writtenAs htoken).1
  rw [words, ofSource, ofChars, List.filter_append, List.filter_eq_self.2 hkinds]
  exact List.append_nil _

/-- The end of a text is its last token. -/
theorem tokens_eq_words (source : String) :
    (ofSource source).tokens = (ofSource source).words ++ [endToken (({} : Position).past source.toList)] := by
  rw [words_ofSource]
  rfl

theorem report_eq (source : String) : (ofSource source).report =
    ((Placed.layout {} (Piece.split source.toList)).filterMap Placed.finding?).map lexicalDiagnostic := rfl

/-- The text behind a newline, which is scanned from the line it begins on. -/
theorem past_newline (a b : String) : ({} : Position).past (a.toList ++ '\n' :: b.toList) =
    (({} : Position).past b.toList).move (.behind a) := by
  rw [List.append_cons, Position.past_append, Position.past_newline, Position.past_move]

theorem toList_newline (a b : String) : (a ++ "\n" ++ b).toList = a.toList ++ '\n' :: b.toList := by simp

/-- Tokens of a text with a newline in it. -/
theorem tokens_newline (a b : String) : (ofSource (a ++ "\n" ++ b)).tokens =
    (ofSource a).words ++ (ofSource b).tokens.map (Token.mapSpan (Span.move (.behind a))) := by
  rw [tokens_eq_words, tokens_eq_words b, words_ofSource, words_ofSource a, words_ofSource b, toList_newline,
    past_newline, Placed.layout_newline, List.filterMap_append, List.append_assoc,
    List.filterMap_cons_none rfl, Placed.filterMap_token?_mapSpan, List.map_append]
  rfl

/-- Diagnostics of a text with a newline in it. -/
theorem report_newline (a b : String) : (ofSource (a ++ "\n" ++ b)).report =
    (ofSource a).report ++ (ofSource b).report.map (Diagnostic.mapSpan (Span.move (.behind a))) := by
  rw [report_eq, report_eq, report_eq, toList_newline, Placed.layout_newline, List.filterMap_append,
    List.filterMap_cons_none rfl, Placed.filterMap_finding?_mapSpan, List.map_append, List.map_map,
    List.map_map]
  rfl

end Scan

/-- A piece with a newline in it is that newline. -/
theorem Piece.eq_newline {text : List Char} {piece : Piece} (hpiece : piece ∈ split text)
    (hline : '\n' ∈ piece.text) : piece = ⟨.blank, ['\n']⟩ := by
  obtain ⟨before, after, e⟩ := List.append_of_mem hpiece
  obtain ⟨hform, htext⟩ := (lexeme_of_split e).eq_newline hline
  rw [← hform, ← htext]

/-- A text that goes on behind a newline is scanned like its two parts: first the tokens of the one without
its end, then those of the other, moved by the bytes and lines in front of it, and so with the diagnostics.
No piece of a text has a newline in it but the newline itself. -/
theorem scan_newline (a b : String) :
    (Scan.ofSource (a ++ "\n" ++ b)).tokens = (Scan.ofSource a).words ++
      (Scan.ofSource b).tokens.map (Token.mapSpan (Span.move (.behind a))) ∧
    (Scan.ofSource (a ++ "\n" ++ b)).report = (Scan.ofSource a).report ++
      (Scan.ofSource b).report.map (Diagnostic.mapSpan (Span.move (.behind a))) ∧
    ∀ source : String, ∀ piece ∈ Piece.split source.toList, '\n' ∈ piece.text → piece = ⟨.blank, ['\n']⟩ :=
  ⟨Scan.tokens_newline a b, Scan.report_newline a b, fun _ _ => Piece.eq_newline⟩

end Namescope
