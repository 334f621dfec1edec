import Namescope.Proofs.Reading.Moves
import Namescope.Proofs.Token.Partition
/-!
# Printed words are scanned back

A token that a scan can give has a spelling that is scanned as that token, unless the next character goes on
with it. Words of which no token runs into the next one are scanned as their tokens.
-/
namespace Namescope

/-! ## Words and their tokens -/

/-- The token of a word. -/
def Word.token? : Word → Option TokenKind
  | .token kind => some kind
  | .gap _ | .note _ => none

/-- The tokens of words in order. -/
def tokensOf (words : List Word) : List TokenKind := words.filterMap Word.token?

/-- The characters of words, without annotations. -/
def plainText (words : List Word) : List Char := words.flatMap (Word.text fun _ => [])

@[simp] theorem tokensOf_nil : tokensOf [] = [] := rfl

@[simp] theorem tokensOf_token (k : TokenKind) (ws : List Word) :
    tokensOf (.token k :: ws) = k :: tokensOf ws := rfl

@[simp] theorem tokensOf_gap (text : List Char) (ws : List Word) : tokensOf (.gap text :: ws) = tokensOf ws := rfl

@[simp] theorem tokensOf_note (note : Note) (ws : List Word) : tokensOf (.note note :: ws) = tokensOf ws := rfl

@[simp] theorem tokensOf_append (ws vs : List Word) : tokensOf (ws ++ vs) = tokensOf ws ++ tokensOf vs :=
  List.filterMap_append

@[simp] theorem tokensOf_flatMap {α : Type} (words : α → List Word) (as : List α) :
    tokensOf (as.flatMap words) = as.flatMap fun a => tokensOf (words a) :=
  List.filterMap_flatMap

@[simp] theorem plainText_nil : plainText [] = [] := rfl

@[simp] theorem plainText_token (k : TokenKind) (ws : List Word) :
    plainText (.token k :: ws) = k.spelling ++ plainText ws := rfl

@[simp] theorem plainText_gap (text : List Char) (ws : List Word) :
    plainText (.gap text :: ws) = text ++ plainText ws := rfl

@[simp] theorem plainText_note (note : Note) (ws : List Word) : plainText (.note note :: ws) = plainText ws := rfl

@[simp] theorem plainText_append (ws vs : List Word) : plainText (ws ++ vs) = plainText ws ++ plainText vs :=
  List.flatMap_append

/-! ## Tokens that can be written -/

/-- The tokens that a scan can give, the one for the end apart. -/
inductive Writable : TokenKind → Prop
  | ident {name : String} : IsName name.toList → Writable (.ident name)
  | int {n : Nat} : n ≤ maxInteger → Writable (.int n)
  | string {units : List StringUnit} : units.all StringUnit.known = true →
      Writable (.string (String.ofList (StringUnit.quoted units)))
  | bool (value : Bool) : Writable (.bool value)
  | keyword (word : Keyword) : Writable (.keyword word)
  | mark (m : Mark) : Writable (.mark m)

/-- Every token of the words can be written. -/
def Written (words : List Word) : Prop := ∀ k ∈ tokensOf words, Writable k

section
variable {ws vs : List Word}

@[simp] theorem written_nil : Written [] := nofun

@[simp] theorem written_append : Written (ws ++ vs) ↔ Written ws ∧ Written vs := by
  simp only [Written, tokensOf_append, List.mem_append, or_imp, forall_and]

@[simp] theorem written_flatMap {α : Type} {words : α → List Word} {as : List α} :
    Written (as.flatMap words) ↔ ∀ a ∈ as, Written (words a) := by
  simp only [Written, tokensOf_flatMap, List.mem_flatMap]
  exact ⟨fun h a ha k hk => h k ⟨a, ha, hk⟩, fun h k ⟨a, ha, hk⟩ => h a ha k hk⟩

@[simp] theorem written_token (k : TokenKind) : Written (.token k :: ws) ↔ Writable k ∧ Written ws := by
  simp only [Written, tokensOf_token, List.forall_mem_cons]

@[simp] theorem written_gap (text : List Char) : Written (.gap text :: ws) ↔ Written ws := .rfl

@[simp] theorem written_note (note : Note) : Written (.note note :: ws) ↔ Written ws := .rfl

@[simp] theorem written_mark (m : Mark) : Written (.mark m :: ws) ↔ Written ws :=
  (written_token _).trans (and_iff_right (.mark m))

@[simp] theorem written_keyword (k : Keyword) : Written (.keyword k :: ws) ↔ Written ws :=
  (written_token _).trans (and_iff_right (.keyword k))

@[simp] theorem written_space : Written (.space :: ws) ↔ Written ws := .rfl

@[simp] theorem written_newline : Written (.newline :: ws) ↔ Written ws := .rfl

@[simp] theorem written_pad (n : Nat) : Written (.pad n :: ws) ↔ Written ws := .rfl

end

/-- A lexeme that stands for a token stands for one that can be written. -/
theorem Lexeme.writable {form : PieceForm} {text rest : List Char} (h : Lexeme form text rest) {k : TokenKind}
    (hk : form.token? = some k) : Writable k := by
  cases h with
  | blank | comment | unexpectedCharacter | unterminatedString | badEscape => cases hk
  | keyword word =>
    cases hk
    exact .keyword word
  | truth value =>
    cases hk
    exact .bool value
  | name hname =>
    cases hk
    exact .ident (String.toList_ofList.symm ▸ hname)
  | int _ _ hle =>
    cases hk
    exact .int hle
  | clipped =>
    cases hk
    exact .int (Nat.le_refl _)
  | string hknown =>
    cases hk
    exact .string hknown
  | @mark m =>
    cases hk
    exact .mark m

/-- A character in front of which a token ends. -/
def TokenKind.endsBefore (c : Char) : TokenKind → Prop
  | .ident _ | .keyword _ | .bool _ => inWord c = false
  | .int _ => c.isDigit = false
  | .mark m => (∀ m' : Mark, m'.letters ≠ m.letters ++ [c]) ∧ m.letters ++ [c] ≠ ['/', '/']
  | .string _ | .eof => True

theorem Mark.length_letters (m : Mark) : 1 ≤ m.letters.length ∧ m.letters.length ≤ 2 := by
  cases m <;> decide

/-- Two characters at the front of a text are a mark and what follows it, or begin a mark of two. -/
theorem Mark.eq_of_prefix {m : Mark} {two rest : List Char} (htwo : two.length = 2)
    (h : two <+: m.letters ++ rest) : two = m.letters ∨ ∃ c ∈ rest.head?, two = m.letters ++ [c] := by
  have hlength := m.length_letters
  cases rest with
  | nil =>
    rw [List.append_nil] at h
    exact .inl (h.eq_of_length (Nat.le_antisymm h.length_le (htwo ▸ hlength.2)))
  | cons c rest =>
    have hmore : m.letters ++ [c] <+: m.letters ++ c :: rest := ⟨rest, by simp⟩
    by_cases hone : m.letters.length = 1
    · have hfront := List.prefix_of_prefix_length_le h hmore (by simp [htwo, hone])
      exact .inr ⟨c, rfl, hfront.eq_of_length (by simp [htwo, hone])⟩
    · have hfront := List.prefix_of_prefix_length_le h (List.prefix_append m.letters _) (by omega)
      exact .inl (hfront.eq_of_length (by omega))

/-- The spelling of a token is a lexeme if the token ends there. -/
theorem Writable.lexeme {k : TokenKind} (h : Writable k) {rest : List Char}
    (hrest : ∀ c ∈ rest.head?, k.endsBefore c) : Lexeme (.token k) k.spelling rest := by
  cases h with
  | @ident name hname =>
    have := Lexeme.name hname hrest
    rwa [String.ofList_toList] at this
  | @int n hn =>
    have htext : IsNumeral (Text.digits n) := ⟨Text.digits_ne_nil n, fun c => Text.isDigit_of_mem_digits⟩
    have := Lexeme.int htext hrest (by rwa [Text.numeral_digits])
    rwa [Text.numeral_digits] at this
  | string hknown =>
    rw [TokenKind.spelling, String.toList_ofList]
    exact .string hknown
  | bool value => exact .truth value hrest
  | keyword word => exact .keyword word hrest
  | mark m =>
    refine .mark (fun m' hm' => Nat.le_of_not_lt fun hlt => ?_) ?_
    · have hlength := m.length_letters
      have hlength' := m'.length_letters
      rcases Mark.eq_of_prefix (Nat.le_antisymm hlength'.2 (by omega)) hm' with h | ⟨c, hc, h⟩
      · rw [h] at hlt
        exact Nat.lt_irrefl _ hlt
      · exact (hrest c hc).1 m' h
    · rintro (h | h)
      · cases m <;> simp [Mark.letters] at h
      · rcases Mark.eq_of_prefix rfl h with h | ⟨c, hc, h⟩
        · cases m <;> cases h
        · exact (hrest c hc).2 h.symm

/-! ## Words that keep apart -/

/-- Every gap is blank and every token ends where its word does, in front of the text `rest`. -/
def Spaced : List Word → List Char → Prop
  | [], _ => True
  | .token k :: ws, rest => (∀ c ∈ (plainText ws ++ rest).head?, k.endsBefore c) ∧ Spaced ws rest
  | .gap text :: ws, rest => (∀ c ∈ text, Text.isBlank c = true) ∧ Spaced ws rest
  | .note _ :: ws, rest => Spaced ws rest

theorem spaced_append {ws vs : List Word} {rest : List Char} :
    Spaced (ws ++ vs) rest ↔ Spaced ws (plainText vs ++ rest) ∧ Spaced vs rest := by
  induction ws with
  | nil => simp [Spaced]
  | cons w ws ih =>
    cases w with
    | token k => simp only [List.cons_append, Spaced, ih, plainText_append, List.append_assoc, and_assoc]
    | gap text => simp only [List.cons_append, Spaced, ih, and_assoc]
    | note n => simp only [List.cons_append, Spaced, ih]

/-! ## Cuts of a part of a text -/

/-- In front of the text `rest` the characters `text` are cut into pieces that stand for the tokens `ks`, and
nothing is noticed about them. -/
def CutsInto (text : List Char) (ks : List TokenKind) (rest : List Char) : Prop :=
  ∃ pieces, Piece.split (text ++ rest) = pieces ++ Piece.split rest ∧
    pieces.filterMap (·.form.token?) = ks ∧ pieces.filterMap (·.form.issue?) = []

theorem cutsInto_nil (rest : List Char) : CutsInto [] [] rest := ⟨[], rfl, rfl, rfl⟩

theorem CutsInto.append {text more rest : List Char} {ks ls : List TokenKind} (h : CutsInto text ks (more ++ rest))
    (hmore : CutsInto more ls rest) : CutsInto (text ++ more) (ks ++ ls) rest := by
  obtain ⟨pieces, hsplit, rfl, hissues⟩ := h
  obtain ⟨others, hothers, rfl, hmoreIssues⟩ := hmore
  refine ⟨pieces ++ others, ?_, List.filterMap_append, ?_⟩
  · rw [List.append_assoc, hsplit, hothers, List.append_assoc]
  · rw [List.filterMap_append, hissues, hmoreIssues]
    rfl

theorem Lexeme.cutsInto {form : PieceForm} {text rest : List Char} (h : Lexeme form text rest)
    (hissue : form.issue? = none) : CutsInto text form.token?.toList rest := by
  refine ⟨[⟨form, text⟩], h.split_append, ?_, ?_⟩
  · cases hform : form.token? <;> simp [hform]
  · simp [hissue]

/-- Blanks stand for nothing. -/
theorem cutsInto_blanks {text : List Char} (h : ∀ c ∈ text, Text.isBlank c = true) (rest : List Char) :
    CutsInto text [] rest := by
  induction text with
  | nil => exact cutsInto_nil rest
  | cons c text ih =>
    have hblank : Lexeme .blank [c] (text ++ rest) := .blank (h c List.mem_cons_self)
    exact (hblank.cutsInto rfl).append (ih fun d hd => h d (List.mem_cons_of_mem c hd))

/-- Words that keep apart are cut into their tokens. -/
theorem Spaced.cutsInto {ws : List Word} {rest : List Char} (hwritable : Written ws) (h : Spaced ws rest) :
    CutsInto (plainText ws) (tokensOf ws) rest := by
  induction ws with
  | nil => exact cutsInto_nil rest
  | cons w ws ih =>
    cases w with
    | token k =>
      obtain ⟨hends, hmore⟩ := h
      have hk := (hwritable k List.mem_cons_self).lexeme hends
      exact (hk.cutsInto rfl).append (ih (fun k hk => hwritable k (List.mem_cons_of_mem _ hk)) hmore)
    | gap text =>
      obtain ⟨hblank, hmore⟩ := h
      exact (cutsInto_blanks hblank _).append (ih hwritable hmore)
    | note n => exact ih hwritable h

/-! ## Scans of words -/

theorem Writable.ne_eof {k : TokenKind} (h : Writable k) : k ≠ .eof := by
  rintro rfl
  cases h

/-- The pieces that stand for a token stand for one that can be written. -/
theorem writable_of_split {text : List Char} {k : TokenKind}
    (hk : k ∈ (Piece.split text).filterMap (·.form.token?)) : Writable k := by
  obtain ⟨piece, hmem, htoken⟩ := List.mem_filterMap.1 hk
  obtain ⟨before, after, e⟩ := List.append_of_mem hmem
  exact (Piece.lexeme_of_split e).writable htoken

theorem kinds_layout (p : Position) (pieces : List Piece) :
    ((Placed.layout p pieces).filterMap Placed.token?).map Token.kind = pieces.filterMap (·.form.token?) := by
  induction pieces generalizing p with
  | nil => rfl
  | cons piece pieces ih =>
    rw [Placed.layout, List.filterMap_cons, List.filterMap_cons, Placed.token?]
    cases piece.form.token? with
    | none => exact ih _
    | some k => exact congrArg (k :: ·) (ih _)

theorem issues_layout (p : Position) (pieces : List Piece) :
    ((Placed.layout p pieces).filterMap Placed.finding?).map Finding.issue = pieces.filterMap (·.form.issue?) := by
  induction pieces generalizing p with
  | nil => rfl
  | cons piece pieces ih =>
    rw [Placed.layout, List.filterMap_cons, List.filterMap_cons, Placed.finding?]
    cases piece.form.issue? with
    | none => exact ih _
    | some issue => exact congrArg (issue :: ·) (ih _)

/-- The kinds of the tokens of a text are those of its pieces. -/
theorem kinds_ofSource (source : String) : Token.kinds (Scan.ofSource source).tokens =
    (Piece.split source.toList).filterMap (·.form.token?) := by
  have hpieces := kinds_layout {} (Piece.split source.toList)
  rw [Token.kinds, Scan.ofSource, Scan.ofChars, List.map_append, hpieces, List.takeWhile_append_of_pos]
  · simp [Scan.endToken]
  · intro k hk
    exact decide_eq_true (writable_of_split hk).ne_eof

/-- Every token of a scan can be written. -/
theorem scan_writable {source : String} {k : TokenKind} (hk : k ∈ Token.kinds (Scan.ofSource source).tokens) :
    Writable k := by
  rw [kinds_ofSource] at hk
  exact writable_of_split hk

/-- A text that is cut into tokens is scanned as these, and nothing is noticed. -/
theorem CutsInto.scan {text : List Char} {ks : List TokenKind} (h : CutsInto text ks []) :
    Token.kinds (Scan.ofSource (String.ofList text)).tokens = ks ∧
      (Scan.ofSource (String.ofList text)).findings = [] := by
  obtain ⟨pieces, hsplit, htokens, hissues⟩ := h
  rw [List.append_nil, Piece.split, List.append_nil] at hsplit
  refine ⟨?_, ?_⟩
  · rw [kinds_ofSource, String.toList_ofList, hsplit, htokens]
  · refine List.map_eq_nil_iff.1 ((issues_layout {} _).trans ?_)
    rw [String.toList_ofList, hsplit, hissues]

/-- Words that keep apart are scanned as their tokens, and nothing is noticed. -/
theorem scan_spaced {ws : List Word} (hwritable : Written ws) (h : Spaced ws []) :
    Token.kinds (Scan.ofSource (String.ofList (plainText ws))).tokens = tokensOf ws ∧
      (Scan.ofSource (String.ofList (plainText ws))).findings = [] :=
  (h.cutsInto hwritable).scan

end Namescope
