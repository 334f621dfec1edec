import Namescope.Proofs.Printing.Lexing
import Namescope.Proofs.Reading.Joined
/-!
# Layout between tokens

Tokens may be spelled in several ways and stand apart by blanks and comments. A text of them is scanned as
these tokens and nothing else, and what is read does not depend on the layout but for its spans.
-/
namespace Namescope

/-! ## Spellings and separators -/

/-- The spellings of a token: names and strings are written as they are, a number in decimal with any zeros in
front, and what is fixed in its letters. -/
inductive Spelled : TokenKind → List Char → Prop
  | ident {name} : IsName name → Spelled (.ident (String.ofList name)) name
  | int {text} : IsNumeral text → Text.numeral text ≤ maxInteger → Spelled (.int (Text.numeral text)) text
  | string {units} : units.all StringUnit.known = true →
      Spelled (.string (String.ofList (StringUnit.quoted units))) (StringUnit.quoted units)
  | bool (value : Bool) : Spelled (.bool value) (TokenKind.truthLetters value)
  | keyword (word : Keyword) : Spelled (.keyword word) word.letters
  | mark (m : Mark) : Spelled (.mark m) m.letters

/-- A part of the layout: a blank, or a comment with the newline that ends it. -/
inductive LayoutPart where
  | blank (c : Char) (h : Text.isBlank c = true)
  | comment (text : List Char) (h : OpensComment text ∧ '\n' ∉ text)

/-- The characters of a part. -/
def LayoutPart.chars : LayoutPart → List Char
  | blank c _ => [c]
  | comment text _ => text ++ ['\n']

/-- What keeps two tokens apart: a blank and any layout behind it. -/
structure Separator where
  first : Char
  isBlank : Text.isBlank first = true
  more : List LayoutPart

/-- The characters of a separator. -/
def Separator.chars (s : Separator) : List Char := s.first :: s.more.flatMap LayoutPart.chars

/-- A text of tokens in any spelling with any separators between them. -/
inductive LaidOut : List TokenKind → List Char → Prop
  | nil : LaidOut [] []
  | last {k text} : Spelled k text → LaidOut [k] text
  | cons {k text ks more} (s : Separator) : Spelled k text → LaidOut ks more →
      LaidOut (k :: ks) (text ++ (s.chars ++ more))

/-! ## A token ends in front of a blank -/

theorem Mark.isBlank_eq_false (m : Mark) : ∀ c ∈ m.letters, Text.isBlank c = false := by
  have hnone : m.letters.any Text.isBlank = false := by cases m <;> decide
  simpa using hnone

theorem TokenKind.endsBefore_blank (k : TokenKind) {c : Char} (h : Text.isBlank c = true) : k.endsBefore c := by
  have hblank := isBlank_range h
  have hword : inWord c = false := by
    refine Bool.eq_false_iff.2 fun hin => ?_
    rcases Bool.or_eq_true_iff.1 hin with hin | hin
    · rcases Bool.or_eq_true_iff.1 hin with halpha | hdigit
      · have := startsWord_range (Bool.or_eq_true_iff.2 (.inl halpha))
        omega
      · have := isDigit_range hdigit
        omega
    · obtain rfl := of_decide_eq_true hin
      revert h
      decide
  cases k with
  | ident | keyword | bool => exact hword
  | int =>
    refine Bool.eq_false_iff.2 fun hdigit => ?_
    have := isDigit_range hdigit
    omega
  | mark m =>
    refine ⟨fun m' hm' => ?_, fun hcomment => ?_⟩
    · have hc := m'.isBlank_eq_false c (hm' ▸ List.mem_append_right _ List.mem_cons_self)
      rw [h] at hc
      cases hc
    · have hc : c ∈ ['/', '/'] := hcomment ▸ List.mem_append_right _ List.mem_cons_self
      obtain rfl : c = '/' := by simpa using hc
      revert h
      decide
  | string | eof => trivial

/-- A spelling is a lexeme where its token ends. -/
theorem Spelled.lexeme {k : TokenKind} {text : List Char} (h : Spelled k text) {rest : List Char}
    (hrest : ∀ c ∈ rest.head?, k.endsBefore c) : Lexeme (.token k) text rest := by
  cases h with
  | ident hname => exact .name hname hrest
  | int htext hle => exact .int htext hrest hle
  | string hknown => exact .string hknown
  | bool value => exact .truth value hrest
  | keyword word => exact .keyword word hrest
  | mark m => exact (Writable.mark m).lexeme hrest

/-! ## Scans of laid out tokens -/

/-- Layout stands for nothing, whatever follows. -/
theorem LayoutPart.cutsInto (part : LayoutPart) (rest : List Char) : CutsInto part.chars [] rest := by
  cases part with
  | blank c h => exact (Lexeme.blank h).cutsInto rfl
  | comment text h =>
    have htext : Lexeme .comment text (['\n'] ++ rest) := .comment h.1 h.2 (by simp [EndsLine])
    have hline : Lexeme .blank ['\n'] rest := .blank (by decide)
    exact (htext.cutsInto rfl).append (hline.cutsInto rfl)

theorem Separator.cutsInto (s : Separator) (rest : List Char) : CutsInto s.chars [] rest := by
  have hfirst : Lexeme .blank [s.first] (s.more.flatMap LayoutPart.chars ++ rest) := .blank s.isBlank
  refine (hfirst.cutsInto rfl).append ?_
  induction s.more with
  | nil => exact cutsInto_nil rest
  | cons part more ih =>
    rw [List.flatMap_cons]
    exact (part.cutsInto _).append ih

/-- Laid out tokens are cut into these tokens. -/
theorem LaidOut.cutsInto {ks : List TokenKind} {text : List Char} (h : LaidOut ks text) : CutsInto text ks [] := by
  induction h with
  | nil => exact cutsInto_nil []
  | last hk => exact (hk.lexeme (by simp)).cutsInto rfl
  | @cons k text ks more s hk _ ih =>
    have hends : ∀ c ∈ ((s.chars ++ more) ++ []).head?, k.endsBefore c := by
      rintro _ ⟨⟩
      exact k.endsBefore_blank s.isBlank
    have htoken := (hk.lexeme hends).cutsInto rfl
    exact htoken.append ((s.cutsInto _).append ih)

/-- The tokens of a text are those of its kinds and the one for the end. -/
theorem Scan.map_kind_tokens (source : String) :
    (ofSource source).tokens.map Token.kind = Token.kinds (ofSource source).tokens ++ [.eof] := by
  rw [kinds_ofSource, ofSource, ofChars, List.map_append, kinds_layout]
  rfl

theorem LaidOut.scan {ks : List TokenKind} {source : String} (h : LaidOut ks source.toList) :
    (Scan.ofSource source).tokens.map Token.kind = ks ++ [.eof] ∧ (Scan.ofSource source).report = [] := by
  obtain ⟨hkinds, hfindings⟩ := h.cutsInto.scan
  rw [String.ofList_toList] at hkinds hfindings
  rw [Scan.map_kind_tokens, hkinds, Scan.report, hfindings]
  exact ⟨rfl, rfl⟩

/-! ## Trees without their places -/

/-- A span that is taken away. -/
def Span.away : Span → Span := fun _ => {}

theorem Token.map_away {tokens others : List Token} (h : others.map Token.kind = tokens.map Token.kind) :
    others.map (Token.mapSpan Span.away) = tokens.map (Token.mapSpan Span.away) := by
  have hkind (ts : List Token) : ts.map (Token.mapSpan Span.away) = (ts.map Token.kind).map (⟨·, {}⟩) := by
    rw [List.map_map]
    rfl
  rw [hkind, hkind, h]

/-- Texts of the same tokens are read as the same tree, spans apart, and what is noted on the way is the same. -/
theorem Reading.eq_of_kinds {source other : String}
    (h : (Scan.ofSource other).tokens.map Token.kind = (Scan.ofSource source).tokens.map Token.kind) :
    (parse other).program.relabel .unplaced = (parse source).program.relabel .unplaced ∧
      (ofTokens (Scan.ofSource other).tokens).findings.map (Finding.mapSpan Span.away) =
        (ofTokens (Scan.ofSource source).tokens).findings.map (Finding.mapSpan Span.away) := by
  have haway (text : String) : _ ∧ _ := ofTokens_mapSpan (f := Span.away) (fun _ _ => rfl)
    (Scan.ofSource text).words (show (Scan.endToken (({} : Position).past text.toList)).kind = .eof from rfl)
  simp only [← Scan.tokens_eq_words] at haway
  obtain ⟨hdecls, hfindings⟩ := haway source
  obtain ⟨hotherDecls, hotherFindings⟩ := haway other
  rw [Token.map_away h] at hotherDecls hotherFindings
  exact ⟨congrArg Program.mk (hotherDecls.symm.trans hdecls), hotherFindings.symm.trans hfindings⟩

/-- Tokens in any spelling and any layout are scanned as these tokens and the end, without a diagnostic. Another
spelling and layout of them is parsed to the same tree with the same diagnostics, spans apart. -/
theorem layout_undone {ks : List TokenKind} {source : String} (h : LaidOut ks source.toList) :
    (Scan.ofSource source).tokens.map Token.kind = ks ++ [.eof] ∧ (Scan.ofSource source).report = [] ∧
    ∀ other : String, LaidOut ks other.toList →
      (parse other).program.relabel .unplaced = (parse source).program.relabel .unplaced ∧
      (parse other).report.map (Diagnostic.mapSpan Span.away) =
        (parse source).report.map (Diagnostic.mapSpan Span.away) := by
  obtain ⟨hkinds, hreport⟩ := h.scan
  refine ⟨hkinds, hreport, fun other hother => ?_⟩
  obtain ⟨hotherKinds, hotherReport⟩ := hother.scan
  obtain ⟨hprogram, hfindings⟩ := Reading.eq_of_kinds (hotherKinds.trans hkinds.symm)
  refine ⟨hprogram, ?_⟩
  have haway (text : String) (hscan : (Scan.ofSource text).report = []) :
      (parse text).report.map (Diagnostic.mapSpan Span.away) =
        ((Reading.ofTokens (Scan.ofSource text).tokens).findings.map (Finding.mapSpan Span.away)).map
          (Finding.toError SyntaxIssue.message) := by
    rw [parse, hscan, Reading.report, Report.extend, List.nil_append, List.map_map, List.map_map]
    rfl
  rw [haway other hotherReport, haway source hreport, hfindings]

/-- Zeros in front of a number, a string with an escaped quote and a comment with operators and a quote in it. -/
theorem comment_layout_undone :
    LaidOut [.ident "x", .mark .slash, .int 7, .string "\"#\\\"\""] "x /\t// 2 >= \"\n007 \"#\\\"\"".toList ∧
    LaidOut [.ident "x", .mark .slash, .int 7, .string "\"#\\\"\""] "x / 7 \"#\\\"\"".toList ∧
    (Scan.ofSource "x /\t// 2 >= \"\n007 \"#\\\"\"").tokens.map Token.kind =
      [.ident "x", .mark .slash, .int 7, .string "\"#\\\"\"", .eof] ∧
    (parse "x / 7 \"#\\\"\"").program.relabel .unplaced =
      (parse "x /\t// 2 >= \"\n007 \"#\\\"\"").program.relabel .unplaced := by
  have hx : IsName ['x'] :=
    ⟨⟨'x', rfl, by decide⟩, List.forall_mem_singleton.2 (by decide), fun k => by cases k <;> decide, fun b => by cases b <;> decide⟩
  have hwideSeven : Spelled (.int (Text.numeral ['0', '0', '7'])) ['0', '0', '7'] :=
    .int ⟨by decide, List.all_eq_true.1 (by decide)⟩ (by decide)
  have hseven : Spelled (.int (Text.numeral ['7'])) ['7'] :=
    .int ⟨by decide, List.forall_mem_singleton.2 (by decide)⟩ (by decide)
  have hunits : [StringUnit.plain '#' (by decide), .escape '"' (by decide)].all StringUnit.known = true := by decide
  have hlaid {ks : List TokenKind} {text : List Char} (source : String) (h : LaidOut ks text)
      (htext : text = source.toList) : LaidOut ks source.toList := htext ▸ h
  have hwide := hlaid "x /\t// 2 >= \"\n007 \"#\\\"\"" (.cons ⟨' ', by decide, []⟩ (.ident hx) <|
    .cons ⟨'\t', by decide, [.comment "// 2 >= \"".toList ⟨.inr (by decide +kernel), by decide +kernel⟩]⟩
      (.mark .slash) <|
    .cons ⟨' ', by decide, []⟩ hwideSeven (.last (.string hunits))) (by decide +kernel)
  have hnarrow := hlaid "x / 7 \"#\\\"\"" (.cons ⟨' ', by decide, []⟩ (.ident hx) <|
    .cons ⟨' ', by decide, []⟩ (.mark .slash) <| .cons ⟨' ', by decide, []⟩ hseven (.last (.string hunits)))
    (by decide +kernel)
  have hall := layout_undone hwide
  exact ⟨hwide, hnarrow, hall.1, (hall.2.2 _ hnarrow).1⟩

end Namescope
