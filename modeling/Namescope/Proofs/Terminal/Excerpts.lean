import Namescope.Proofs.Naming.Renaming
import Namescope.Proofs.Reading.ProgramNames
import Namescope.Proofs.Text.Lines
import Namescope.Proofs.Token.Lines
import Namescope.Terminal.Excerpt
/-!
# What the caret points at

Places count newlines and characters, the excerpt is cut out of the lines of the text: both agree. Every token and
every diagnostic stands at a piece of the text that opens with a visible character, or behind the text; the caret
stands under that character, or behind the last line if anything stands on it.
-/
namespace Namescope

/-! ## Places with a caret -/

/-- Where tokens and diagnostics stand: at characters of which the first is not blank, or behind the text. -/
inductive Span.Marks (source : List Char) : Span → Prop
  | characters {before after text : List Char} {c : Char} : source = before ++ c :: (text ++ after) →
      Text.isBlank c = false →
      Marks source ((Position.after before).spanTo (Position.after (before ++ c :: text)))
  | behind : Marks source ((Position.after source).spanTo (Position.after source))

/-- The lines that show a span of the source, with `mark` where the span begins. -/
inductive Span.ShownBy (source : String) (span : Span) (mark : String) : List String → Prop
  /-- The mark stands under the character at the first byte of the span. -/
  | character {before after left right : List Char} {c : Char} {line : String} :
      source.toList = before ++ c :: after → span.start = String.utf8Len before → span.start < span.stop →
      Text.line? source span.line = some line → line.toList = left ++ c :: right → span.col = left.length + 1 →
      ShownBy source span mark
        [Diagnostic.margin ++ line, Diagnostic.margin ++ String.ofList (List.replicate left.length ' ') ++ mark]
  /-- The mark stands behind the last line. -/
  | lineEnd {line : String} : span.start = source.utf8ByteSize → span.stop = source.utf8ByteSize →
      source ≠ "" → source.toList.getLast? ≠ some '\n' → Text.line? source span.line = some line →
      (Text.lines source.toList).getLast? = some line.toList → span.col = line.length + 1 →
      ShownBy source span mark
        [Diagnostic.margin ++ line, Diagnostic.margin ++ String.ofList (List.replicate line.length ' ') ++ mark]
  /-- There is no line to show behind the last newline. -/
  | nothing : span.start = source.utf8ByteSize → span.stop = source.utf8ByteSize →
      source = "" ∨ source.toList.getLast? = some '\n' → Text.line? source span.line = none →
      ShownBy source span mark []

namespace Position

theorem after_offset (before : List Char) : (after before).offset = String.utf8Len before := by
  rw [← past_eq_after, (past_counts {} before).1]
  exact Nat.zero_add _

theorem after_line (before : List Char) : (after before).line = before.count '\n' + 1 := Nat.add_comm _ _

theorem after_col (before : List Char) : (after before).col = (Text.lastLine before).length + 1 := by
  rw [Text.lastLine, List.rtakeWhile, List.length_reverse, Nat.add_comm]
  rfl

end Position

namespace Diagnostic

variable {source : String} {d : Diagnostic}

/-- An excerpt shows the line and stands as many characters before the caret as the column says. -/
theorem excerptLines_of_line {line : String} (hline : Text.line? source d.span.line = some line) {n : Nat}
    (hcol : d.span.col = n + 1) (colored : Bool) : d.excerptLines colored source =
      [margin ++ line, margin ++ String.ofList (List.replicate n ' ') ++ Style.error.paint colored "^"] := by
  rw [excerptLines, hline, hcol, Nat.add_sub_cancel]

theorem shownBy_character {before after text : List Char} {c : Char}
    (hsource : source.toList = before ++ c :: (text ++ after)) (hc : Text.isBlank c = false)
    (hspan : d.span = (Position.after before).spanTo (Position.after (before ++ c :: text))) (colored : Bool) :
    d.span.ShownBy source (Style.error.paint colored "^") (d.excerptLines colored source) := by
  have hnewline : c ≠ '\n' := by
    rintro rfl
    exact absurd hc (by decide)
  have hreturn : c ≠ '\r' := by
    rintro rfl
    exact absurd hc (by decide)
  obtain ⟨line, hline, right, hright⟩ := Text.line_at before hnewline hreturn (text ++ after)
  have hshown : Text.line? source d.span.line = some (String.ofList line) := by
    rw [hspan, Position.spanTo, Position.after_line, Text.line?, hsource, hline]
    rfl
  have hcol : d.span.col = (Text.lastLine before).length + 1 := by
    rw [hspan]
    exact Position.after_col before
  have hleft : (String.ofList line).toList = Text.lastLine before ++ c :: right := by
    rw [String.toList_ofList, ← hright, List.append_assoc, List.singleton_append]
  rw [excerptLines_of_line hshown hcol]
  refine .character hsource ?_ ?_ hshown hleft hcol
  · rw [hspan]
    exact Position.after_offset before
  · rw [hspan]
    simp only [Position.spanTo, Position.after_offset, String.utf8Len_append, String.utf8Len_cons]
    have := c.utf8Size_pos
    omega

theorem shownBy_behind
    (hspan : d.span = (Position.after source.toList).spanTo (Position.after source.toList)) (colored : Bool) :
    d.span.ShownBy source (Style.error.paint colored "^") (d.excerptLines colored source) := by
  have hplace : d.span.start = source.utf8ByteSize ∧ d.span.stop = source.utf8ByteSize := by
    simp only [hspan, Position.spanTo, Position.after_offset, String.utf8Len_toList, and_self]
  have hline : Text.line? source d.span.line =
      (Text.lines source.toList)[source.toList.count '\n']?.map String.ofList := by
    rw [hspan, Position.spanTo, Position.after_line, Text.line?]
  by_cases hlast : Text.lastLine source.toList = []
  · rw [Text.no_line_behind hlast, Option.map_none] at hline
    rw [excerptLines, hline]
    refine .nothing hplace.1 hplace.2 ?_ hline
    rwa [← String.toList_eq_nil_iff, ← Text.lastLine_eq_nil_iff]
  · obtain ⟨hbehind, hgetLast⟩ := Text.line_behind hlast
    rw [hbehind, Option.map_some] at hline
    obtain ⟨hnonempty, hnewline⟩ := not_or.1 (mt Text.lastLine_eq_nil_iff.2 hlast)
    have hcol : d.span.col = (String.ofList (Text.lastLine source.toList)).length + 1 := by
      rw [hspan, String.length_ofList]
      exact Position.after_col _
    rw [excerptLines_of_line hline hcol]
    refine .lineEnd hplace.1 hplace.2 (mt String.toList_eq_nil_iff.2 hnonempty) hnewline hline ?_ hcol
    rwa [String.toList_ofList]

/-- Whatever is marked in a text is shown there. -/
theorem shownBy_of_marks (h : d.span.Marks source.toList) (colored : Bool) :
    d.span.ShownBy source (Style.error.paint colored "^") (d.excerptLines colored source) := by
  generalize hspan : d.span = span at h
  rw [← hspan]
  cases h with
  | characters hsource hc => exact shownBy_character hsource hc hspan colored
  | behind => exact shownBy_behind hspan colored

end Diagnostic

/-! ## Where tokens and diagnostics stand -/

/-- Only blanks open with a blank. -/
theorem Lexeme.opens_visible {form : PieceForm} {text rest : List Char} (h : Lexeme form text rest)
    (hform : form ≠ .blank) : ∃ c cs, text = c :: cs ∧ Text.isBlank c = false := by
  -- words open with a letter, numbers with a digit
  have hword {word : List Char} (hopens : ∃ c ∈ word.head?, startsWord c = true) :
      ∃ c cs, word = c :: cs ∧ Text.isBlank c = false := by
    obtain ⟨c, hc, hstarts⟩ := hopens
    obtain ⟨cs, rfl⟩ := List.head?_eq_some_iff.1 hc
    exact ⟨c, cs, rfl, (only_word hstarts).1⟩
  have hnumber {digits : List Char} (hdigits : IsNumeral digits) :
      ∃ c cs, digits = c :: cs ∧ Text.isBlank c = false := by
    obtain ⟨c, cs, rfl⟩ := List.exists_cons_of_ne_nil hdigits.nonempty
    exact ⟨c, cs, rfl, (only_number (hdigits.digits c List.mem_cons_self)).1⟩
  cases h with
  | blank => exact absurd rfl hform
  | comment hopens =>
    rcases hopens with ⟨more, rfl⟩ | ⟨more, rfl⟩ <;> exact ⟨_, _, rfl, by decide⟩
  | keyword k => exact hword k.opens_word.1
  | truth b => exact hword (TokenKind.opens_word b).1
  | name hname => exact hword hname.opens
  | int htext | clipped htext => exact hnumber htext
  | @mark m =>
    obtain ⟨c, cs, hletters, hvisible, -⟩ := m.opens_only
    exact ⟨c, cs, hletters, hvisible⟩
  | unexpectedCharacter hblank => exact ⟨_, [], rfl, hblank⟩
  | string | unterminatedString | badEscape => exact ⟨'"', _, rfl, by decide⟩

/-- A segment that is not blank is marked. -/
theorem Partitions.marks {segments : List Segment} {text : List Char} (h : Partitions segments text)
    {segment : Segment} (hmem : segment ∈ segments) (hform : segment.form ≠ .blank) :
    segment.span.Marks text := by
  obtain ⟨before, after, e⟩ := List.append_of_mem hmem
  obtain ⟨c, cs, htext, hc⟩ := (h.lexeme before segment after e).opens_visible hform
  have hwhole : text = Segment.textOf before ++ c :: (cs ++ Segment.textOf after) := by
    rw [← h.whole, e, Segment.textOf, List.flatMap_append, List.flatMap_cons, htext]
    rfl
  rw [h.span before segment after e, htext]
  exact .characters hwhole hc

namespace Scan

theorem token_marks (source : String) : ∀ t ∈ (ofSource source).tokens, t.span.Marks source.toList := by
  intro t ht
  rw [tokens_ofSource] at ht
  rcases List.mem_append.1 ht with ht | ht
  · obtain ⟨segment, hsegment, htoken⟩ := List.mem_filterMap.1 ht
    rw [← Segment.token?_placed] at htoken
    obtain ⟨kind, hkind, rfl⟩ := Option.map_eq_some_iff.1 htoken
    refine (partitions_layout source.toList).marks hsegment fun hblank => ?_
    rw [Segment.placed, hblank] at hkind
    cases hkind
  · rw [List.mem_singleton.1 ht]
    exact .behind

theorem report_marks (source : String) : ∀ d ∈ (ofSource source).report, d.span.Marks source.toList := by
  intro d hd
  rw [report_ofSource] at hd
  obtain ⟨segment, hsegment, hdiagnostic⟩ := List.mem_filterMap.1 hd
  rw [← Segment.diagnostic?_placed] at hdiagnostic
  obtain ⟨finding, hfinding, rfl⟩ := Option.map_eq_some_iff.1 hdiagnostic
  obtain ⟨issue, hissue, rfl⟩ := Option.map_eq_some_iff.1 hfinding
  refine (partitions_layout source.toList).marks hsegment fun hblank => ?_
  rw [Segment.placed, hblank] at hissue
  cases hissue

theorem exists_end (source : String) : ∃ t ∈ (ofSource source).tokens, t.kind = .eof := by
  rw [tokens_ofSource]
  exact ⟨_, List.mem_append_right _ List.mem_cons_self, rfl⟩

end Scan

/-- What is reported of a program that is read stands at its tokens. -/
theorem Reading.report_at_token {tokens : List Token} (hend : ∃ t ∈ tokens, t.kind = .eof) :
    ∀ d ∈ (ofTokens tokens).report, ∃ t ∈ tokens, d.span = t.span := by
  intro d hd
  obtain ⟨places, -, -, hspans⟩ := report_in_order tokens (.inr hend)
  have hmem : some d.span ∈ places.map fun p => tokens[p]?.map Token.span :=
    hspans ▸ List.mem_map_of_mem hd
  obtain ⟨p, -, hp⟩ := List.mem_map.1 hmem
  obtain ⟨t, ht, hspan⟩ := Option.map_eq_some_iff.1 hp
  exact ⟨t, List.mem_of_getElem? ht, hspan.symm⟩

/-- What is found when names are resolved stands at identifiers. -/
theorem analyze_at_occurrence (p : Program) :
    ∃ a, analyze p = .ok a ∧ ∀ f ∈ a.findings, ∃ o ∈ p.occurrences, o.ident.span = f.span := by
  obtain ⟨a, stamps, ha, -, -, -, hlike⟩ := analyze_mirrors p
  -- a program is itself with its own names, each finding at the place of one of its identifiers
  obtain ⟨b, -, -, hfindings, -⟩ := hlike (.renamed Function.injective_id p p) p (fun _ => rfl)
    (Program.RenamedTo.alike rfl Function.injective_id)
  refine ⟨a, ha, fun f hf => ?_⟩
  obtain ⟨k, hk, rfl⟩ := List.mem_iff_getElem.1 hf
  obtain ⟨-, n, o, -, ho, -, hspan, -⟩ := hfindings.get hk (hfindings.length_eq ▸ hk)
  exact ⟨o, List.mem_of_getElem? ho, hspan⟩

/-! ## Excerpts -/

/-- For every text, each span of a token and of a diagnostic is shown where it is: a span of some characters with
the line of that number and the caret under the first of these characters, with as many spaces before it as
characters stand before that one on its line. All other spans stand at the end of the text, and are shown with the
last line and the caret behind it, or not at all if the text is empty or ends with a newline. -/
theorem excerpt_points_at_source (source : String) : ∃ a, analyze (parse source).program = .ok a ∧
    ∀ d : Diagnostic, ((∃ t ∈ (Scan.ofSource source).tokens, d.span = t.span) ∨
        d ∈ (parse source).report ∨ d ∈ a.report) →
      ∀ colored, d.span.ShownBy source (Style.error.paint colored "^") (d.excerptLines colored source) := by
  have hend := Scan.exists_end source
  have htoken {span : Span} (h : ∃ t ∈ (Scan.ofSource source).tokens, span = t.span) :
      span.Marks source.toList := by
    obtain ⟨t, ht, rfl⟩ := h
    exact Scan.token_marks source t ht
  obtain ⟨a, ha, hfindings⟩ := analyze_at_occurrence (parse source).program
  refine ⟨a, ha, fun d hd => Diagnostic.shownBy_of_marks ?_⟩
  rcases hd with hd | hd | hd
  · exact htoken hd
  · rcases List.mem_append.1 hd with hd | hd
    · exact Scan.report_marks source d hd
    · exact htoken (Reading.report_at_token hend d hd)
  · obtain ⟨f, hf, rfl⟩ := List.mem_map.1 hd
    obtain ⟨o, ho, hspan⟩ := hfindings f hf
    obtain ⟨t, ht, hplace⟩ := Reading.occurrence_at_token hend o ho
    exact htoken ⟨t, ht, hspan.symm.trans hplace⟩

/-- The carriage return belongs to the line ending, and the letter of two bytes is one character: the caret stands
under it, and one further behind it. -/
theorem letter_and_line_end_shown :
    let source := "int a;\r\nint ré"
    let letter : Diagnostic := ⟨.error, "unexpected character", ⟨13, 15, 2, 6⟩, none⟩
    let missing : Diagnostic := ⟨.error, "expected ';'", ⟨15, 15, 2, 7⟩, none⟩
    letter ∈ (parse source).report ∧ letter.span.ShownBy source "^" ["  int ré", "       ^"] ∧
      missing ∈ (parse source).report ∧ missing.span.ShownBy source "^" ["  int ré", "        ^"] := by
  intro source letter missing
  have hletter : letter ∈ (parse source).report := by decide +kernel
  have hmissing : missing ∈ (parse source).report := by decide +kernel
  obtain ⟨a, -, hshown⟩ := excerpt_points_at_source source
  have hletterLines : letter.excerptLines false source = ["  int ré", "       ^"] := by decide
  have hmissingLines : missing.excerptLines false source = ["  int ré", "        ^"] := by decide
  refine ⟨hletter, ?_, hmissing, ?_⟩
  · rw [← hletterLines]
    exact hshown letter (.inr (.inl hletter)) false
  · rw [← hmissingLines]
    exact hshown missing (.inr (.inl hmissing)) false

end Namescope
