import Namescope.Token.Piece
/-!
# Lexemes

What a piece of a source text looks like, said of its characters and of the text after it alone: names
and numbers are maximal, a mark is the longest that begins there, a comment and a string that is not
closed end with their line. The first cut of a text is a lexeme, and no other first cut would be one.
-/
namespace Namescope

/-! ## String literals -/

/-- A unit of a string: a character that stands for itself, or a backslash and the character after it. -/
inductive StringUnit where
  | plain (c : Char) (h : c ≠ '"' ∧ c ≠ '\\' ∧ c ≠ '\n')
  | escape (c : Char) (h : c ≠ '\n')

namespace StringUnit

/-- The characters of a unit. -/
def chars : StringUnit → List Char
  | plain c _ => [c]
  | escape c _ => ['\\', c]

/-- Whether a unit is anything but an unknown escape. -/
def known : StringUnit → Bool
  | plain _ _ => true
  | escape c _ => isEscape c

/-- The characters of units in order. -/
def text (units : List StringUnit) : List Char := units.flatMap chars

/-- Units between quotes. -/
def quoted (units : List StringUnit) : List Char := '"' :: text units ++ ['"']

end StringUnit

/-- The line is over in front of this text. -/
def EndsLine (rest : List Char) : Prop := ∀ c ∈ rest.head?, c = '\n'

namespace StringBody

theorem read_plain {c : Char} (h : c ≠ '"' ∧ c ≠ '\\' ∧ c ≠ '\n') (rest : List Char) :
    read (c :: rest) = { read rest with text := c :: (read rest).text } := by
  obtain ⟨hquote, hslash, hline⟩ := h
  rw [read]
  · exact fun e => hline e
  · exact fun e => hquote e
  · exact fun e _ => hslash e
  · exact fun _ e _ => hslash e
  · exact fun _ _ e _ => hslash e

theorem read_escape {c : Char} (h : c ≠ '\n') (rest : List Char) :
    read ('\\' :: c :: rest) =
      ⟨'\\' :: c :: (read rest).text, (read rest).rest, (read rest).closed, isEscape c && (read rest).sound⟩ := by
  rw [read]
  exact h

/-- Units in front of a text are read first. -/
theorem read_units (units : List StringUnit) (rest : List Char) :
    read (StringUnit.text units ++ rest) =
      ⟨StringUnit.text units ++ (read rest).text, (read rest).rest, (read rest).closed,
        units.all StringUnit.known && (read rest).sound⟩ := by
  induction units with
  | nil => rfl
  | cons unit units ih =>
    rw [StringUnit.text, List.flatMap_cons, ← StringUnit.text, List.append_assoc, List.all_cons]
    cases unit with
    | plain c h => rw [StringUnit.chars, List.singleton_append, read_plain h, ih]; rfl
    | escape c h =>
      simp only [StringUnit.chars, List.cons_append, List.nil_append, read_escape h, ih, StringUnit.known,
        Bool.and_assoc]

/-- A quote closes the string. -/
theorem read_closed (units : List StringUnit) (rest : List Char) :
    read (StringUnit.text units ++ '"' :: rest) =
      ⟨StringUnit.text units ++ ['"'], rest, true, units.all StringUnit.known⟩ := by
  rw [read_units, read, Bool.and_true]

/-- What is left of a line after the last unit, if no quote closes the string. -/
def Remnant (remnant : List Char) : Prop := remnant = [] ∨ remnant = ['\\']

theorem read_remnant {remnant rest : List Char} (hremnant : Remnant remnant) (hrest : EndsLine rest) :
    read (remnant ++ rest) = ⟨remnant, rest, false, true⟩ := by
  cases rest with
  | nil => rcases hremnant with rfl | rfl <;> simp [read]
  | cons c rest =>
    obtain rfl := hrest c rfl
    rcases hremnant with rfl | rfl <;> simp [read]

/-- Without a quote the string is not closed on its line. -/
theorem read_open (units : List StringUnit) {remnant rest : List Char} (hremnant : Remnant remnant)
    (hrest : EndsLine rest) :
    read (StringUnit.text units ++ (remnant ++ rest)) =
      ⟨StringUnit.text units ++ remnant, rest, false, units.all StringUnit.known⟩ := by
  rw [read_units, read_remnant hremnant hrest, Bool.and_true]

/-- Every text begins with units that a quote follows, or with units up to the end of the line. -/
theorem exists_units (cs : List Char) : ∃ units : List StringUnit,
    (∃ rest, cs = StringUnit.text units ++ '"' :: rest) ∨
      ∃ remnant rest, cs = StringUnit.text units ++ (remnant ++ rest) ∧ Remnant remnant ∧ EndsLine rest := by
  -- one more unit in front of the others
  have step : ∀ (unit : StringUnit) (rest : List Char), (∃ units : List StringUnit,
      (∃ more, rest = StringUnit.text units ++ '"' :: more) ∨
        ∃ remnant more, rest = StringUnit.text units ++ (remnant ++ more) ∧ Remnant remnant ∧ EndsLine more) →
      ∃ units : List StringUnit, (∃ more, unit.chars ++ rest = StringUnit.text units ++ '"' :: more) ∨
        ∃ remnant more, unit.chars ++ rest = StringUnit.text units ++ (remnant ++ more) ∧ Remnant remnant ∧
          EndsLine more := by
    rintro unit rest ⟨units, ⟨more, rfl⟩ | ⟨remnant, more, rfl, hremnant, hmore⟩⟩
    · exact ⟨unit :: units, .inl ⟨more, by simp [StringUnit.text]⟩⟩
    · exact ⟨unit :: units, .inr ⟨remnant, more, by simp [StringUnit.text], hremnant, hmore⟩⟩
  fun_induction read cs with
  | case1 => exact ⟨[], .inr ⟨[], [], rfl, .inl rfl, by simp [EndsLine]⟩⟩
  | case2 rest => exact ⟨[], .inr ⟨[], '\n' :: rest, rfl, .inl rfl, by simp [EndsLine]⟩⟩
  | case3 rest => exact ⟨[], .inl ⟨rest, rfl⟩⟩
  | case4 => exact ⟨[], .inr ⟨['\\'], [], rfl, .inr rfl, by simp [EndsLine]⟩⟩
  | case5 rest => exact ⟨[], .inr ⟨['\\'], '\n' :: rest, rfl, .inr rfl, by simp [EndsLine]⟩⟩
  | case6 c rest hline _ ih => exact step (.escape c hline) rest ih
  | case7 c rest hline hquote hend hslash hother _ ih =>
    have hplain : c ≠ '\\' := by
      rintro rfl
      cases rest with
      | nil => exact hend rfl rfl
      | cons d rest => exact hother d rest rfl rfl
    exact step (.plain c ⟨hquote, hplain, hline⟩) rest ih

end StringBody

/-! ## Characters -/

/-- No character with the property `p` follows. -/
def Maximal (p : Char → Bool) (rest : List Char) : Prop := ∀ c ∈ rest.head?, p c = false

theorem Maximal.dropWhile (p : Char → Bool) (text : List Char) : Maximal p (text.dropWhile p) := by
  intro c hc
  cases h : p c with
  | false => rfl
  | true =>
    have hnot := List.head?_dropWhile_not p text
    rw [Option.mem_def.1 hc] at hnot
    simp [h] at hnot

/-- Characters with the property `p` are a run if no further one follows. -/
theorem takeWhile_of_maximal {p : Char → Bool} {text rest : List Char} (htext : ∀ c ∈ text, p c = true)
    (hrest : Maximal p rest) :
    (text ++ rest).takeWhile p = text ∧ (text ++ rest).dropWhile p = rest := by
  have hnone : rest.takeWhile p = [] ∧ rest.dropWhile p = rest := by
    cases rest with
    | nil => exact ⟨rfl, rfl⟩
    | cons c rest => simp [hrest c rfl]
  rw [List.takeWhile_append_of_pos htext, List.dropWhile_append_of_pos htext, hnone.1, hnone.2,
    List.append_nil]
  exact ⟨rfl, rfl⟩

theorem startsWord_range {c : Char} (h : startsWord c = true) :
    (65 ≤ c.toNat ∧ c.toNat ≤ 90) ∨ c.toNat = 95 ∨ (97 ≤ c.toNat ∧ c.toNat ≤ 122) := by
  have halpha : c.isAlpha = (decide (c.val ≥ 65 ∧ c.val ≤ 90) || decide (c.val ≥ 97) && decide (c.val ≤ 122)) := rfl
  simp only [startsWord, halpha, ge_iff_le, Bool.or_eq_true, Bool.and_eq_true, decide_eq_true_eq,
    UInt32.le_iff_toNat_le, Char.toNat_val] at h
  rcases h with (h | h) | rfl
  · exact .inl h
  · exact .inr (.inr h)
  · exact .inr (.inl rfl)

theorem isDigit_range {c : Char} (h : c.isDigit = true) : 48 ≤ c.toNat ∧ c.toNat ≤ 57 := by
  simp only [Char.isDigit, Bool.and_eq_true, decide_eq_true_eq, UInt32.le_iff_toNat_le, Char.toNat_val] at h
  exact h

theorem isBlank_range {c : Char} (h : Text.isBlank c = true) :
    (9 ≤ c.toNat ∧ c.toNat ≤ 13) ∨ c.toNat = 32 ∨ 133 ≤ c.toNat := by
  obtain ⟨⟨low, high⟩, hrange, hc⟩ := List.any_eq_true.1 h
  have hbounds : ∀ range ∈ Text.blankRanges,
      (9 ≤ range.1 ∧ range.2 ≤ 13) ∨ (range.1 = 32 ∧ range.2 = 32) ∨ 133 ≤ range.1 := by decide
  have := hbounds _ hrange
  simp only [Bool.and_eq_true, decide_eq_true_eq] at hc this
  omega

/-- Letters and the underscore begin nothing but names and keywords. -/
theorem only_word {c : Char} (h : startsWord c = true) :
    Text.isBlank c = false ∧ c ≠ '#' ∧ c ≠ '/' ∧ inWord c = true := by
  have hrange := startsWord_range h
  refine ⟨?_, ?_, ?_, ?_⟩
  · refine Bool.eq_false_iff.2 fun hblank => ?_
    have := isBlank_range hblank
    omega
  · rintro rfl
    revert hrange
    decide
  · rintro rfl
    revert hrange
    decide
  · simp only [startsWord, inWord, Char.isAlphanum, Bool.or_eq_true] at h ⊢
    rcases h with h | h <;> simp [h]

/-- Digits begin nothing but numbers. -/
theorem only_number {c : Char} (h : c.isDigit = true) :
    Text.isBlank c = false ∧ c ≠ '#' ∧ c ≠ '/' ∧ startsWord c = false := by
  have hrange := isDigit_range h
  refine ⟨?_, ?_, ?_, ?_⟩
  · refine Bool.eq_false_iff.2 fun hblank => ?_
    have := isBlank_range hblank
    omega
  · rintro rfl
    revert hrange
    decide
  · rintro rfl
    revert hrange
    decide
  · refine Bool.eq_false_iff.2 fun hword => ?_
    have := startsWord_range hword
    omega

/-! ## Marks -/

namespace Mark

/-- Longer marks stand before shorter ones. -/
theorem all_sorted : all.Pairwise fun m m' => m'.letters.length ≤ m.letters.length := by decide

theorem letters_inj {m m' : Mark} (h : m.letters = m'.letters) : m = m' := by
  have e := ofLetters?_letters m
  rw [h, ofLetters?_letters] at e
  exact (Option.some.inj e).symm

/-- The first mark of a text is the longest mark that the text begins with. -/
theorem first?_eq_some_iff {text : List Char} {m : Mark} : first? text = some m ↔
    m.letters <+: text ∧ ∀ m' : Mark, m'.letters <+: text → m'.letters.length ≤ m.letters.length := by
  have found : ∀ {m}, first? text = some m →
      m.letters <+: text ∧ ∀ m' : Mark, m'.letters <+: text → m'.letters.length ≤ m.letters.length := by
    intro m h
    obtain ⟨hm, before, after, hall, hbefore⟩ := List.find?_eq_some_iff_append.1 h
    refine ⟨List.isPrefixOf_iff_prefix.1 hm, fun m' hm' => ?_⟩
    have hmem : m' ∈ before ++ m :: after := hall ▸ mem_all m'
    have hsorted := all_sorted
    rw [hall, List.pairwise_append] at hsorted
    rcases List.mem_append.1 hmem with hmem | hmem
    · have := hbefore m' hmem
      rw [List.isPrefixOf_iff_prefix.2 hm'] at this
      cases this
    · rcases List.mem_cons.1 hmem with rfl | hmem
      · exact Nat.le_refl _
      · exact List.rel_of_pairwise_cons hsorted.2.1 hmem
  refine ⟨found, fun ⟨hm, hlongest⟩ => ?_⟩
  -- a mark is found, and of two marks that begin a text and are of one length there is only one
  cases h : first? text with
  | none =>
    have hnone := List.find?_eq_none.1 h m (mem_all m)
    exact absurd (List.isPrefixOf_iff_prefix.2 hm) hnone
  | some m' =>
    obtain ⟨hm', hlongest'⟩ := found h
    have hlength := Nat.le_antisymm (hlongest m' hm') (hlongest' m hm)
    have hfront := List.prefix_of_prefix_length_le hm' hm (Nat.le_of_eq hlength)
    rw [letters_inj (hfront.eq_of_length hlength)]

theorem first?_eq_none_iff {text : List Char} : first? text = none ↔ ∀ m : Mark, ¬ m.letters <+: text := by
  rw [first?, List.find?_eq_none]
  constructor
  · exact fun h m hm => h m (mem_all m) (List.isPrefixOf_iff_prefix.2 hm)
  · exact fun h m _ hm => h m (List.isPrefixOf_iff_prefix.1 hm)

end Mark

/-! ## The judgement -/

/-- The letters of a name: a word that is neither a keyword nor a truth value. -/
structure IsName (word : List Char) : Prop where
  opens : ∃ c ∈ word.head?, startsWord c = true
  inside : ∀ c ∈ word, inWord c = true
  notKeyword : ∀ k : Keyword, word ≠ k.letters
  notTruth : ∀ b : Bool, word ≠ TokenKind.truthLetters b

/-- The digits of a number. -/
structure IsNumeral (text : List Char) : Prop where
  nonempty : text ≠ []
  digits : ∀ c ∈ text, c.isDigit = true

/-- A comment begins here. -/
def OpensComment (text : List Char) : Prop := ['#'] <+: text ∨ ['/', '/'] <+: text

/-- In front of the text `rest` the characters `text` are a piece of a form. -/
inductive Lexeme : PieceForm → List Char → List Char → Prop
  | blank {c rest} : Text.isBlank c = true → Lexeme .blank [c] rest
  | comment {text rest} : OpensComment text → '\n' ∉ text → EndsLine rest → Lexeme .comment text rest
  | keyword {rest} (k : Keyword) : Maximal inWord rest → Lexeme (.token (.keyword k)) k.letters rest
  | truth {rest} (b : Bool) : Maximal inWord rest →
      Lexeme (.token (.bool b)) (TokenKind.truthLetters b) rest
  | name {name rest} : IsName name → Maximal inWord rest →
      Lexeme (.token (.ident (String.ofList name))) name rest
  | int {text rest} : IsNumeral text → Maximal Char.isDigit rest → Text.numeral text ≤ maxInteger →
      Lexeme (.token (.int (Text.numeral text))) text rest
  | clipped {text rest} : IsNumeral text → Maximal Char.isDigit rest → maxInteger < Text.numeral text →
      Lexeme .clipped text rest
  | string {units rest} : units.all StringUnit.known = true →
      Lexeme (.token (.string (String.ofList (StringUnit.quoted units)))) (StringUnit.quoted units) rest
  | mark {m : Mark} {rest} : (∀ m' : Mark, m'.letters <+: m.letters ++ rest →
        m'.letters.length ≤ m.letters.length) → ¬ OpensComment (m.letters ++ rest) →
      Lexeme (.token (.mark m)) m.letters rest
  | unexpectedCharacter {c rest} : Text.isBlank c = false → c ≠ '#' → startsWord c = false →
      c.isDigit = false → c ≠ '"' → (∀ m : Mark, ¬ m.letters <+: c :: rest) →
      Lexeme (.flaw .unexpectedCharacter) [c] rest
  | unterminatedString {units remnant rest} : StringBody.Remnant remnant → EndsLine rest →
      Lexeme (.flaw .unterminatedString) ('"' :: StringUnit.text units ++ remnant) rest
  | badEscape {units rest} : units.all StringUnit.known = false →
      Lexeme (.flaw .badEscape) (StringUnit.quoted units) rest

/-! ## Every cut is a lexeme -/

theorem Keyword.ofLetters?_eq_some {word : List Char} {k : Keyword} (h : ofLetters? word = some k) :
    word = k.letters := by
  have := List.find?_some h
  exact (of_decide_eq_true this).symm

theorem Keyword.ofLetters?_eq_none {word : List Char} (h : ofLetters? word = none) (k : Keyword) :
    word ≠ k.letters := by
  rintro rfl
  rw [ofLetters?_letters] at h
  cases h

/-- A maximal word is a keyword, a truth value or a name. -/
theorem Lexeme.word {word rest : List Char} (hopens : ∃ c ∈ word.head?, startsWord c = true)
    (hinside : ∀ c ∈ word, inWord c = true) (hrest : Maximal inWord rest) :
    Lexeme (.token (.ofWord word)) word rest := by
  unfold TokenKind.ofWord
  split
  · next k hk =>
    rw [Keyword.ofLetters?_eq_some hk]
    exact .keyword k hrest
  · next hk =>
    split
    · next htrue => rw [htrue]; exact .truth true hrest
    · next htrue =>
      split
      · next hfalse => rw [hfalse]; exact .truth false hrest
      · next hfalse =>
        refine .name ⟨hopens, hinside, Keyword.ofLetters?_eq_none hk, fun b => ?_⟩ hrest
        cases b
        · exact hfalse
        · exact htrue

/-- A maximal run of digits is a number, clipped or not. -/
theorem Lexeme.number {text rest : List Char} (htext : IsNumeral text) (hrest : Maximal Char.isDigit rest) :
    Lexeme (.ofDigits text) text rest := by
  unfold PieceForm.ofDigits
  split
  · next h => exact .int htext hrest h
  · next h => exact .clipped htext hrest (Nat.lt_of_not_le h)

/-- What is read behind an opening quote is a string, with it. -/
theorem Lexeme.literal (cs : List Char) :
    Lexeme (.ofLiteral (StringBody.read cs)) ('"' :: (StringBody.read cs).text) (StringBody.read cs).rest := by
  obtain ⟨units, ⟨rest, rfl⟩ | ⟨remnant, rest, rfl, hremnant, hrest⟩⟩ := StringBody.exists_units cs
  · rw [StringBody.read_closed]
    cases hknown : units.all StringUnit.known with
    | true => exact .string hknown
    | false => exact .badEscape hknown
  · rw [StringBody.read_open units hremnant hrest]
    exact .unterminatedString hremnant hrest

theorem opensComment_cons {c : Char} {cs : List Char} :
    OpensComment (c :: cs) ↔ (c = '#' || (c = '/' && cs.head? = some '/')) = true := by
  simp only [OpensComment, List.cons_prefix_cons, List.nil_prefix, and_true, Bool.or_eq_true,
    Bool.and_eq_true, decide_eq_true_eq]
  cases cs <;> simp [eq_comm]

theorem opensComment_of_prefix {text rest : List Char} (h : OpensComment text) : OpensComment (text ++ rest) :=
  h.imp (·.trans (List.prefix_append ..)) (·.trans (List.prefix_append ..))

/-- A comment goes on to the end of its line. -/
theorem Lexeme.line {c : Char} {cs : List Char} (h : OpensComment (c :: cs)) :
    Lexeme .comment ((c :: cs).takeWhile (· ≠ '\n')) ((c :: cs).dropWhile (· ≠ '\n')) := by
  refine .comment ?_ ?_ ?_
  · rcases h with ⟨rest, hrest⟩ | ⟨rest, hrest⟩
    · exact .inl ⟨rest.takeWhile (· ≠ '\n'), by rw [← hrest]; rfl⟩
    · exact .inr ⟨rest.takeWhile (· ≠ '\n'), by rw [← hrest]; rfl⟩
  · intro hmem
    have hall := List.all_takeWhile (p := fun d => decide (d ≠ '\n')) (l := c :: cs)
    simpa using List.all_eq_true.1 hall _ hmem
  · intro d hd
    simpa using Maximal.dropWhile (fun d => decide (d ≠ '\n')) (c :: cs) d hd

/-- What is cut off a text is a lexeme in front of the rest. -/
theorem Cut.lexeme (c : Char) (cs : List Char) :
    Lexeme (first c cs).form (first c cs).text (first c cs).rest := by
  unfold first
  split
  · next h => exact .blank h
  next hblank =>
  split
  · next h => exact .line (opensComment_cons.2 h)
  next hcomment =>
  split
  · next h =>
    refine .word ⟨c, ?_, h⟩ (fun d hd => ?_) (Maximal.dropWhile _ _)
    · simp [(only_word h).2.2.2]
    · exact List.all_eq_true.1 List.all_takeWhile d hd
  next hword =>
  split
  · next h =>
    refine .number ⟨?_, fun d hd => ?_⟩ (Maximal.dropWhile _ _)
    · simp [h]
    · exact List.all_eq_true.1 List.all_takeWhile d hd
  next hdigit =>
  split
  · next h =>
    subst h
    exact .literal cs
  next hquote =>
  split
  · next m hm =>
    obtain ⟨hfront, hlongest⟩ := Mark.first?_eq_some_iff.1 hm
    have htext : m.letters ++ (c :: cs).drop m.letters.length = c :: cs :=
      (List.prefix_iff_eq_append.1 hfront)
    refine .mark ?_ ?_
    · rw [htext]
      exact hlongest
    · rw [htext, opensComment_cons]
      exact hcomment
  · next hm =>
    refine .unexpectedCharacter ?_ ?_ ?_ ?_ hquote (Mark.first?_eq_none_iff.1 hm)
    · exact Bool.eq_false_iff.2 hblank
    · rintro rfl
      exact hcomment rfl
    · exact Bool.eq_false_iff.2 hword
    · exact Bool.eq_false_iff.2 hdigit

/-! ## Every lexeme is cut off -/

theorem TokenKind.ofWord_letters (k : Keyword) : ofWord k.letters = keyword k := by
  rw [ofWord, Keyword.ofLetters?_letters]

theorem TokenKind.ofWord_truthLetters (b : Bool) : ofWord (truthLetters b) = bool b := by
  cases b <;> decide

theorem IsName.ofWord {word : List Char} (h : IsName word) :
    TokenKind.ofWord word = .ident (String.ofList word) := by
  have hnone : Keyword.ofLetters? word = none := by
    rw [Keyword.ofLetters?, List.find?_eq_none]
    intro k _
    simpa using (h.notKeyword k).symm
  rw [TokenKind.ofWord, hnone]
  simp only [if_neg (h.notTruth true), if_neg (h.notTruth false)]

namespace Cut

theorem first_blank {c : Char} (h : Text.isBlank c = true) (cs : List Char) :
    first c cs = ⟨⟨.blank, [c]⟩, cs⟩ := by
  rw [first, if_pos h]

theorem first_comment {c : Char} {cs : List Char} (h : OpensComment (c :: cs)) :
    first c cs = run (· ≠ '\n') (fun _ => .comment) (c :: cs) := by
  have hopens := opensComment_cons.1 h
  have hblank : Text.isBlank c = false := by
    simp only [Bool.or_eq_true, Bool.and_eq_true, decide_eq_true_eq] at hopens
    rcases hopens with rfl | ⟨rfl, -⟩ <;> decide
  rw [first, hblank, if_neg Bool.false_ne_true, if_pos hopens]

theorem first_word {c : Char} (h : startsWord c = true) (cs : List Char) :
    first c cs = run inWord (fun word => .token (.ofWord word)) (c :: cs) := by
  obtain ⟨hblank, hhash, hslash, -⟩ := only_word h
  simp [first, hblank, hhash, hslash, h]

theorem first_number {c : Char} (h : c.isDigit = true) (cs : List Char) :
    first c cs = run Char.isDigit .ofDigits (c :: cs) := by
  obtain ⟨hblank, hhash, hslash, hword⟩ := only_number h
  simp [first, hblank, hhash, hslash, hword, h]

theorem first_quote (cs : List Char) : first '"' cs =
    ⟨⟨.ofLiteral (StringBody.read cs), '"' :: (StringBody.read cs).text⟩, (StringBody.read cs).rest⟩ := by
  have hblank : Text.isBlank '"' = false := by decide
  have hword : startsWord '"' = false := by decide
  simp [first, hblank, hword]

/-- A character that begins nothing else begins a mark or is not expected. -/
theorem first_other {c : Char} {cs : List Char} (hblank : Text.isBlank c = false)
    (hcomment : ¬ OpensComment (c :: cs)) (hword : startsWord c = false) (hdigit : c.isDigit = false)
    (hquote : c ≠ '"') : first c cs =
      match Mark.first? (c :: cs) with
      | some m => ⟨⟨.token (.mark m), m.letters⟩, (c :: cs).drop m.letters.length⟩
      | none => ⟨⟨.flaw .unexpectedCharacter, [c]⟩, cs⟩ := by
  rw [opensComment_cons, Bool.not_eq_true] at hcomment
  cases hmark : Mark.first? (c :: cs) <;> simp [first, hblank, hcomment, hword, hdigit, hquote, hmark]

/-- A run that goes as far as it can is cut off whole. -/
theorem run_append {p : Char → Bool} (form : List Char → PieceForm) {text rest : List Char}
    (htext : ∀ c ∈ text, p c = true) (hrest : Maximal p rest) :
    run p form (text ++ rest) = ⟨⟨form text, text⟩, rest⟩ := by
  obtain ⟨htake, hdrop⟩ := takeWhile_of_maximal htext hrest
  rw [run, htake, hdrop]

end Cut

/-- The characters that a mark can begin with begin nothing else, a comment apart. -/
theorem Mark.opens_only (m : Mark) : ∃ c cs, m.letters = c :: cs ∧ Text.isBlank c = false ∧
    startsWord c = false ∧ c.isDigit = false ∧ c ≠ '"' := by
  cases m <;> exact ⟨_, _, rfl, by decide, by decide, by decide, by decide⟩

theorem Keyword.opens_word (k : Keyword) :
    (∃ c ∈ k.letters.head?, startsWord c = true) ∧ ∀ c ∈ k.letters, inWord c = true := by
  cases k <;> exact ⟨⟨_, rfl, by decide⟩, List.all_eq_true.1 (by decide)⟩

theorem TokenKind.opens_word (b : Bool) :
    (∃ c ∈ (truthLetters b).head?, startsWord c = true) ∧ ∀ c ∈ truthLetters b, inWord c = true := by
  cases b <;> exact ⟨⟨_, rfl, by decide⟩, List.all_eq_true.1 (by decide)⟩

theorem Cut.first_of_word {word rest : List Char} (hopens : ∃ c ∈ word.head?, startsWord c = true)
    (hinside : ∀ c ∈ word, inWord c = true) (hrest : Maximal inWord rest) {c : Char} {cs : List Char}
    (h : word ++ rest = c :: cs) : first c cs = ⟨⟨.token (.ofWord word), word⟩, rest⟩ := by
  obtain ⟨d, hd, hstart⟩ := hopens
  have hcd : c = d := by
    cases word with
    | nil => cases hd
    | cons e word =>
      cases h
      exact Option.some.inj hd
  rw [first_word (hcd ▸ hstart), ← h, run_append _ hinside hrest]

theorem Cut.first_of_numeral {text rest : List Char} (htext : IsNumeral text)
    (hrest : Maximal Char.isDigit rest) {c : Char} {cs : List Char} (h : text ++ rest = c :: cs) :
    first c cs = ⟨⟨.ofDigits text, text⟩, rest⟩ := by
  have hc : c.isDigit = true := by
    cases text with
    | nil => exact absurd rfl htext.nonempty
    | cons d text =>
      cases h
      exact htext.digits _ List.mem_cons_self
  rw [first_number hc, ← h, run_append _ htext.digits hrest]

/-- In front of a text each lexeme is what is cut off it. -/
theorem Lexeme.first_eq {form : PieceForm} {text rest : List Char} (h : Lexeme form text rest) {c : Char}
    {cs : List Char} (hcs : text ++ rest = c :: cs) : Cut.first c cs = ⟨⟨form, text⟩, rest⟩ := by
  cases h with
  | blank hblank =>
    cases hcs
    exact Cut.first_blank hblank _
  | comment hopens hline hend =>
    have hall : ∀ d ∈ text, decide (d ≠ '\n') = true := by
      intro d hd
      exact decide_eq_true fun e => hline (e ▸ hd)
    have hrest : Maximal (· ≠ '\n') rest := fun d hd => by simp [hend d hd]
    rw [Cut.first_comment (hcs ▸ opensComment_of_prefix hopens), ← hcs, Cut.run_append _ hall hrest]
  | keyword k hrest =>
    rw [Cut.first_of_word k.opens_word.1 k.opens_word.2 hrest hcs, TokenKind.ofWord_letters]
  | truth b hrest =>
    have hopens := TokenKind.opens_word b
    rw [Cut.first_of_word hopens.1 hopens.2 hrest hcs, TokenKind.ofWord_truthLetters]
  | name hname hrest => rw [Cut.first_of_word hname.opens hname.inside hrest hcs, hname.ofWord]
  | int htext hrest hle => rw [Cut.first_of_numeral htext hrest hcs, PieceForm.ofDigits, if_pos hle]
  | clipped htext hrest hlt =>
    rw [Cut.first_of_numeral htext hrest hcs, PieceForm.ofDigits, if_neg (Nat.not_le_of_lt hlt)]
  | @string units _ hknown =>
    simp only [StringUnit.quoted, List.cons_append, List.append_assoc, List.nil_append] at hcs
    obtain ⟨rfl, rfl⟩ := List.cons.inj hcs
    rw [Cut.first_quote, StringBody.read_closed, hknown]
    rfl
  | @badEscape units _ hknown =>
    simp only [StringUnit.quoted, List.cons_append, List.append_assoc, List.nil_append] at hcs
    obtain ⟨rfl, rfl⟩ := List.cons.inj hcs
    rw [Cut.first_quote, StringBody.read_closed, hknown]
    rfl
  | unterminatedString hremnant hend =>
    simp only [List.cons_append, List.append_assoc] at hcs
    obtain ⟨rfl, rfl⟩ := List.cons.inj hcs
    rw [Cut.first_quote, StringBody.read_open _ hremnant hend]
    rfl
  | @mark m _ hlongest hcomment =>
    have hfirst : Mark.first? (c :: cs) = some m := by
      rw [← hcs]
      exact Mark.first?_eq_some_iff.2 ⟨List.prefix_append .., hlongest⟩
    obtain ⟨d, ds, hletters, hblank, hword, hdigit, hquote⟩ := m.opens_only
    have hcd : c = d := by
      rw [hletters] at hcs
      exact (List.cons.inj hcs).1.symm
    subst hcd
    rw [hcs] at hcomment
    rw [Cut.first_other hblank hcomment hword hdigit hquote, hfirst, ← hcs]
    simp only [List.drop_left]
  | @unexpectedCharacter d _ hblank hhash hword hdigit hquote hmark =>
    rw [List.singleton_append] at hcs
    obtain ⟨rfl, rfl⟩ := List.cons.inj hcs
    have hcomment : ¬ OpensComment (d :: rest) := by
      rintro (h | h)
      · exact hhash (List.cons_prefix_cons.1 h).1.symm
      · exact hmark .slash ((List.prefix_append ['/'] ['/']).trans h)
    rw [Cut.first_other hblank hcomment hword hdigit hquote, Mark.first?_eq_none_iff.2 hmark]

theorem Lexeme.text_ne_nil {form : PieceForm} {text rest : List Char} (h : Lexeme form text rest) :
    text ≠ [] := by
  cases h with
  | comment hopens =>
    rintro rfl
    rcases hopens with h | h <;> simpa using h.length_le
  | keyword k => cases k <;> decide
  | truth b => cases b <;> decide
  | name hname =>
    rintro rfl
    obtain ⟨c, hc, -⟩ := hname.opens
    cases hc
  | int htext | clipped htext => exact htext.nonempty
  | mark => exact Mark.letters_ne_nil _
  | blank | string | unexpectedCharacter | unterminatedString | badEscape => exact List.cons_ne_nil _ _

/-- A lexeme in front of a text is the first piece of both together. -/
theorem Lexeme.split_append {form : PieceForm} {text rest : List Char} (h : Lexeme form text rest) :
    Piece.split (text ++ rest) = ⟨form, text⟩ :: Piece.split rest := by
  obtain ⟨c, cs, hcs⟩ := List.exists_cons_of_ne_nil (List.append_ne_nil_of_left_ne_nil h.text_ne_nil rest)
  rw [hcs, Piece.split, h.first_eq hcs]

end Namescope
