import Namescope.Proofs.Token.Lines
/-!
# String literals of a source text

Where a scan comes to an opening quote, the characters behind it are read in units, each a character or a
backslash with the character after it, up to a closing quote or the end of the line. One token comes of it, or
one error for a quote that is missing, or else one for an escape that is unknown; and the scan goes on behind
the closing quote, or at the end of the line.
-/
namespace Namescope

/-! ## One piece of a scan -/

/-- The span of the characters `text` behind the characters `before`. -/
def Span.behind (before text : List Char) : Span :=
  (Position.after before).spanTo (Position.after (before ++ text))

/-- The scan of a source makes its tokens and its report of the pieces `front`, then `tokens` and `report` of the
characters `text` behind them, and then goes on with `rest` at its place. -/
structure Scan.GoesOn (source : String) (front : List Piece) (text rest : List Char) (tokens : List Token)
    (report : Report) : Prop where
  whole : source.toList = front.flatMap Piece.text ++ text ++ rest
  tokens : (ofSource source).tokens = (Placed.layout {} front).filterMap Placed.token? ++ tokens ++
    (ofChars (Position.after (front.flatMap Piece.text ++ text)) rest).tokens
  report : (ofSource source).report =
    ((Placed.layout {} front).filterMap Placed.finding?).map lexicalDiagnostic ++ report ++
      (ofChars (Position.after (front.flatMap Piece.text ++ text)) rest).report

/-- A scan of a source has cut off the pieces `front` and comes to the characters `rest`. -/
inductive Scan.Reaches (source : String) : List Piece → List Char → Prop
  | start : Reaches source [] source.toList
  | cut {front : List Piece} {c : Char} {cs : List Char} (h : Reaches source front (c :: cs)) :
    Reaches source (front ++ [(Cut.first c cs).toPiece]) (Cut.first c cs).rest

theorem Scan.Reaches.split_eq {source : String} {front : List Piece} {rest : List Char}
    (h : Reaches source front rest) : Piece.split source.toList = front ++ Piece.split rest := by
  induction h with
  | start => rfl
  | @cut front c cs h ih => rw [ih, Piece.split, List.append_assoc, List.singleton_append]

/-- A piece gives its token and its diagnostic, and the scan goes on behind it. -/
theorem Scan.goesOn_piece {source : String} {front : List Piece} {piece : Piece} {rest : List Char}
    (h : Piece.split source.toList = front ++ piece :: Piece.split rest) :
    let placed : Placed := ⟨piece.form, .behind (front.flatMap Piece.text) piece.text⟩
    GoesOn source front piece.text rest placed.token?.toList (placed.finding?.map lexicalDiagnostic).toList := by
  intro placed
  have hwhole : source.toList = front.flatMap Piece.text ++ piece.text ++ rest := by
    have htext := congrArg (List.flatMap Piece.text) h
    rwa [Piece.flatMap_text_split, List.flatMap_append, List.flatMap_cons, Piece.flatMap_text_split,
      ← List.append_assoc] at htext
  have hlayout : Placed.layout {} (Piece.split source.toList) = Placed.layout {} front ++
      placed :: Placed.layout (.after (front.flatMap Piece.text ++ piece.text)) (Piece.split rest) := by
    rw [h, Placed.layout_append, Placed.layout, Position.past_eq_after, Position.after_past]
    rfl
  constructor
  case whole => exact hwhole
  case tokens =>
    have hend : ({} : Position).past source.toList =
        (Position.after (front.flatMap Piece.text ++ piece.text)).past rest := by
      rw [hwhole, Position.past_eq_after, Position.after_past]
    simp only [ofSource, ofChars, hlayout, hend, List.filterMap_append, List.filterMap_cons]
    cases placed.token? <;> simp
  case report =>
    simp only [Scan.report, ofSource, ofChars, hlayout, List.filterMap_append, List.filterMap_cons, List.map_append]
    cases placed.finding? <;> simp

/-! ## Units -/

namespace StringUnit

/-- Every backslash takes along one of the characters that it may stand before. -/
def OnlyKnownEscapes (units : List StringUnit) : Prop :=
  ∀ c h, escape c h ∈ units → c ∈ ['n', 't', '\'', '"', '\\']

theorem all_known_iff (units : List StringUnit) : units.all known = true ↔ OnlyKnownEscapes units := by
  have hescape (c : Char) : isEscape c = true ↔ c ∈ ['n', 't', '\'', '"', '\\'] := by
    simp [isEscape, or_assoc]
  rw [List.all_eq_true]
  constructor
  · intro h c hc hmem
    exact (hescape c).1 (h _ hmem)
  · intro h unit hmem
    cases unit with
    | plain c hc => rfl
    | escape c hc => exact (hescape c).2 (h c hc hmem)

end StringUnit

/-! ## Literals -/

/-- Where a scan has come to an opening quote, the characters behind it are units and a closing quote, or units up
to the end of the line with a backslash left over at most. A literal that is closed is one token, which has all its
characters, if its escapes are known, and one error if some escape is not; a literal that is not closed is
one error. The scan goes on behind the closing quote, or at the end of the line. -/
theorem literal_scanned {source : String} {front : List Piece} {cs : List Char}
    (h : Scan.Reaches source front ('"' :: cs)) :
    ((∃ units rest, cs = StringUnit.text units ++ '"' :: rest) ∨
      ∃ units remnant rest, cs = StringUnit.text units ++ (remnant ++ rest) ∧ StringBody.Remnant remnant ∧
        EndsLine rest) ∧
    (∀ units rest, cs = StringUnit.text units ++ '"' :: rest →
      let literal := StringUnit.quoted units
      let span := Span.behind (front.flatMap Piece.text) literal
      (StringUnit.OnlyKnownEscapes units →
        Scan.GoesOn source front literal rest [⟨.string (String.ofList literal), span⟩] []) ∧
      (¬ StringUnit.OnlyKnownEscapes units →
        Scan.GoesOn source front literal rest []
          [⟨.error, "bad escape sequence in string literal", span, none⟩])) ∧
    ∀ units remnant rest, cs = StringUnit.text units ++ (remnant ++ rest) → StringBody.Remnant remnant →
      EndsLine rest →
      let literal := '"' :: StringUnit.text units ++ remnant
      Scan.GoesOn source front literal rest []
        [⟨.error, "unterminated string literal", .behind (front.flatMap Piece.text) literal, none⟩] := by
  have hcut {form : PieceForm} {text rest : List Char} (hcs : '"' :: cs = text ++ rest)
      (hlexeme : Lexeme form text rest) :
      Piece.split source.toList = front ++ ⟨form, text⟩ :: Piece.split rest := by
    rw [h.split_eq, hcs, hlexeme.split_append]
  refine ⟨?_, ?_, ?_⟩
  · obtain ⟨units, ⟨rest, hrest⟩ | ⟨remnant, rest, hrest⟩⟩ := StringBody.exists_units cs
    · exact .inl ⟨units, rest, hrest⟩
    · exact .inr ⟨units, remnant, rest, hrest⟩
  · intro units rest hcs
    have hquoted : '"' :: cs = StringUnit.quoted units ++ rest := by
      simp [hcs, StringUnit.quoted]
    constructor
    · intro hknown
      exact Scan.goesOn_piece (hcut hquoted (.string ((StringUnit.all_known_iff units).2 hknown)))
    · intro hunknown
      rw [← StringUnit.all_known_iff, Bool.not_eq_true] at hunknown
      exact Scan.goesOn_piece (hcut hquoted (.badEscape hunknown))
  · intro units remnant rest hcs hremnant hend
    have hopen : '"' :: cs = ('"' :: StringUnit.text units ++ remnant) ++ rest := by
      simp [hcs]
    exact Scan.goesOn_piece (hcut hopen (.unterminatedString hremnant hend))

/-- In the text `x"\\""a\` the backslash in front of the second quote stands behind another one and so does not
escape it; the last quote opens a literal that is not closed. -/
theorem backslashes_before_quote_scanned :
    let cs := ['\\', '\\', '"', '"', 'a', '\\']
    Scan.Reaches "x\"\\\\\"\"a\\" [⟨.token (.ident "x"), ['x']⟩] ('"' :: cs) ∧
      Scan.GoesOn "x\"\\\\\"\"a\\" [⟨.token (.ident "x"), ['x']⟩] ['"', '\\', '\\', '"'] ['"', 'a', '\\']
        [⟨.string "\"\\\\\"", ⟨1, 5, 1, 2⟩⟩] [] := by
  intro cs
  have hstart : Scan.Reaches "x\"\\\\\"\"a\\" [] ('x' :: '"' :: cs) := .start
  have h : Scan.Reaches "x\"\\\\\"\"a\\" [⟨.token (.ident "x"), ['x']⟩] ('"' :: cs) := hstart.cut
  have hknown : StringUnit.OnlyKnownEscapes [.escape '\\' (by decide)] := by
    rw [← StringUnit.all_known_iff]
    decide
  exact ⟨h, ((literal_scanned h).2.1 _ ['"', 'a', '\\'] rfl).1 hknown⟩

end Namescope
