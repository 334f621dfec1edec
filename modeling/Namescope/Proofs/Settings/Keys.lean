import Mathlib.Data.List.Chain
import Namescope.Settings.Environment
/-!
# Spellings of a name

The name of a setting is made of words, and there are many ways to write them: behind one separator or several,
with small letters or capitals, and with nothing between two words if a capital tells them apart. All spellings
of the same words name the same variable.
-/
namespace Namescope.Settings

/-! ## Spellings -/

/-- A word of a name: a small letter, then small letters and digits. -/
structure NameWord where
  initial : Char
  tail : List Char
  isLower_initial : initial.isLower = true
  isLower_tail : ∀ c ∈ tail, (c.isLower || c.isDigit) = true

/-- The word in capitals. -/
def NameWord.upper (w : NameWord) : List Char := (w.initial :: w.tail).map Char.toUpper

/-- A word as it is written: behind separators, if any, and with a capital or without. -/
structure SpelledWord where
  word : NameWord
  separators : List Char
  capital : Bool
  isSeparator_separators : ∀ c ∈ separators, isSeparator c = true

namespace SpelledWord

/-- The letters of the word. -/
def letters (w : SpelledWord) : List Char :=
  (if w.capital then w.word.initial.toUpper else w.word.initial) :: w.word.tail

/-- The characters that the word takes in a name. -/
def text (w : SpelledWord) : List Char := w.separators ++ w.letters

/-- Whether the word is a single capital letter. -/
def IsSingleCapital (w : SpelledWord) : Prop := w.capital = true ∧ w.word.tail = []

/-- How `w` may stand behind `v`: with separators between them, or directly if it has a capital and `v` is not
a single capital letter. -/
def Follows (v w : SpelledWord) : Prop :=
  w.separators ≠ [] ∨ (w.capital = true ∧ ¬ v.IsSingleCapital)

end SpelledWord

/-- A way to write a name. -/
structure Spelling where
  words : List SpelledWord
  chain : words.IsChain SpelledWord.Follows

namespace Spelling

/-- The name as it is written. -/
def text (s : Spelling) : String := String.ofList (s.words.flatMap SpelledWord.text)

/-- The words in capitals with an underscore between neighbours. -/
def joined (s : Spelling) : String := String.intercalate "_" (s.words.map fun w => String.ofList w.word.upper)

end Spelling

/-! ## Characters -/

/-- What holds of all small letters, one by one. -/
theorem forall_isLower {P : Char → Prop} (h : ∀ n : Fin 26, P (Char.ofNat (97 + n))) {c : Char}
    (hc : c.isLower = true) : P c := by
  obtain ⟨hlow, hhigh⟩ := Bool.and_eq_true_iff.1 hc
  have hrange : 97 ≤ c.toNat ∧ c.toNat ≤ 122 := ⟨of_decide_eq_true hlow, of_decide_eq_true hhigh⟩
  have hn := h ⟨c.toNat - 97, by omega⟩
  rwa [show 97 + (c.toNat - 97) = c.toNat by omega, Char.ofNat_toNat] at hn

theorem isLower_facts {c : Char} (hc : c.isLower = true) :
    isSeparator c = false ∧ c.isUpper = false ∧ isSeparator c.toUpper = false ∧ c.toUpper.isUpper = true ∧
      c.toUpper.toUpper = c.toUpper ∧ Before.next c.toUpper = .other :=
  forall_isLower (P := fun c => isSeparator c = false ∧ c.isUpper = false ∧ isSeparator c.toUpper = false ∧
    c.toUpper.isUpper = true ∧ c.toUpper.toUpper = c.toUpper ∧ Before.next c.toUpper = .other) (by decide) hc

theorem isDigit_facts {c : Char} (hc : c.isDigit = true) : isSeparator c = false ∧ c.isUpper = false := by
  have hrange : 48 ≤ c.toNat ∧ c.toNat ≤ 57 := Char.isDigit_iff_toNat.1 hc
  constructor
  · simp only [isSeparator, Bool.or_eq_false_iff, decide_eq_false_iff_not]
    refine ⟨⟨?_, ?_⟩, ?_⟩ <;> rintro rfl <;> revert hrange <;> decide
  · refine Bool.eq_false_iff.2 fun hupper => ?_
    have hcapital : 65 ≤ c.toNat ∧ c.toNat ≤ 90 := of_decide_eq_true hupper
    omega

/-! ## Reading a name -/

section
variable {before : Before} {rest : List Char}

theorem keyFrom_separator {c : Char} (hc : isSeparator c = true) : keyFrom before (c :: rest) =
    before.gap ++ keyFrom (if before = .nothing then .nothing else .underscore) rest := by
  rw [keyFrom, if_pos hc]

/-- A letter that needs no underscore in front. -/
theorem keyFrom_letter {c : Char} (hc : isSeparator c = false) (hplain : c.isUpper = false ∨ before ≠ .lower) :
    keyFrom before (c :: rest) = c.toUpper :: keyFrom (.next c) rest := by
  have hgap : (c.isUpper && decide (before = .lower)) = false := by
    rcases hplain with h | h <;> simp [h]
  rw [keyFrom, hc, if_neg Bool.false_ne_true, hgap, if_neg Bool.false_ne_true]

/-- A capital that needs one. -/
theorem keyFrom_capital {c : Char} (hc : isSeparator c = false) (hupper : c.isUpper = true) :
    keyFrom .lower (c :: rest) = '_' :: c :: keyFrom (.next c) rest := by
  rw [keyFrom, hc, if_neg Bool.false_ne_true, hupper]
  rfl

/-- Where no underscore is due, separators leave no trace. -/
theorem keyFrom_skip {separators : List Char} (hsep : ∀ c ∈ separators, isSeparator c = true)
    (hgap : before = .nothing ∨ before = .underscore) :
    keyFrom before (separators ++ rest) = keyFrom before rest := by
  induction separators with
  | nil => rfl
  | cons c separators ih =>
    obtain ⟨hc, hmore⟩ := List.forall_mem_cons.1 hsep
    rw [List.cons_append, keyFrom_separator hc]
    rcases hgap with rfl | rfl
    · exact ih hmore
    · exact ih hmore

/-- Behind a word, separators come to one underscore. -/
theorem keyFrom_separators {separators : List Char} (hsep : ∀ c ∈ separators, isSeparator c = true)
    (hne : separators ≠ []) (hword : before = .lower ∨ before = .other) :
    keyFrom before (separators ++ rest) = '_' :: keyFrom .underscore rest := by
  cases separators with
  | nil => exact absurd rfl hne
  | cons c separators =>
    obtain ⟨hc, hmore⟩ := List.forall_mem_cons.1 hsep
    rw [List.cons_append, keyFrom_separator hc]
    rcases hword with rfl | rfl
    · exact congrArg ('_' :: ·) (keyFrom_skip hmore (.inr rfl))
    · exact congrArg ('_' :: ·) (keyFrom_skip hmore (.inr rfl))

/-- The small letters and digits of a word. -/
theorem keyFrom_tail {tail : List Char} (htail : ∀ c ∈ tail, (c.isLower || c.isDigit) = true) :
    keyFrom before (tail ++ rest) =
      tail.map Char.toUpper ++ keyFrom (if tail = [] then before else .lower) rest := by
  induction tail generalizing before with
  | nil => rfl
  | cons c tail ih =>
    obtain ⟨hc, hmore⟩ := List.forall_mem_cons.1 htail
    have hplain : isSeparator c = false ∧ c.isUpper = false := by
      rcases Bool.or_eq_true_iff.1 hc with h | h
      · exact ⟨(isLower_facts h).1, (isLower_facts h).2.1⟩
      · exact isDigit_facts h
    rw [List.cons_append, keyFrom_letter hplain.1 (.inl hplain.2), ih hmore]
    simp [Before.next, hc]

namespace SpelledWord

/-- What stands before the letter after the word. -/
def after (w : SpelledWord) : Before :=
  if w.capital = true ∧ w.word.tail = [] then .other else .lower

theorem after_cases (w : SpelledWord) : w.after = .lower ∨ w.after = .other := by
  unfold after
  split
  · exact .inr rfl
  · exact .inl rfl

/-- A word where no underscore is due in front of it. -/
theorem keyFrom_letters (w : SpelledWord) (h : w.capital = false ∨ before ≠ .lower) :
    keyFrom before (w.letters ++ rest) = w.word.upper ++ keyFrom w.after rest := by
  obtain ⟨hsep, hsmall, hsepUpper, -, hidem, hnext⟩ := isLower_facts w.word.isLower_initial
  have hlower : Before.next w.word.initial = .lower := by simp [Before.next, w.word.isLower_initial]
  unfold letters after NameWord.upper
  cases hcapital : w.capital with
  | false =>
    simp only [Bool.false_eq_true, if_false, false_and, List.cons_append, List.map_cons]
    rw [keyFrom_letter hsep (.inl hsmall), keyFrom_tail w.word.isLower_tail, hlower, ite_self]
  | true =>
    have hbefore : before ≠ .lower := h.resolve_left (by simp [hcapital])
    simp only [if_true, true_and, List.cons_append, List.map_cons]
    rw [keyFrom_letter hsepUpper (.inr hbefore), keyFrom_tail w.word.isLower_tail, hnext, hidem]

/-- A capital after a small letter or a digit begins the next word. -/
theorem keyFrom_hump (w : SpelledWord) (h : w.capital = true) :
    keyFrom .lower (w.letters ++ rest) = '_' :: (w.word.upper ++ keyFrom w.after rest) := by
  obtain ⟨-, -, hsepUpper, hupper, -, hnext⟩ := isLower_facts w.word.isLower_initial
  unfold letters after NameWord.upper
  simp only [h, if_true, true_and, List.cons_append, List.map_cons]
  rw [keyFrom_capital hsepUpper hupper, hnext, keyFrom_tail w.word.isLower_tail]

/-- The next word of a name, behind `v`, stands behind one underscore. -/
theorem keyFrom_text {v w : SpelledWord} (h : v.Follows w) :
    keyFrom v.after (w.text ++ rest) = '_' :: (w.word.upper ++ keyFrom w.after rest) := by
  unfold text
  rw [List.append_assoc]
  by_cases hsep : w.separators = []
  · obtain ⟨hcapital, hv⟩ := h.resolve_left (not_not_intro hsep)
    have hafter : v.after = .lower := if_neg hv
    rw [hsep, List.nil_append, hafter, w.keyFrom_hump hcapital]
  · rw [keyFrom_separators w.isSeparator_separators hsep v.after_cases, w.keyFrom_letters (.inr (by simp))]

/-- All the words behind `v`. -/
theorem keyFrom_words {v : SpelledWord} {ws : List SpelledWord} (h : (v :: ws).IsChain Follows) :
    keyFrom v.after (ws.flatMap text) = ws.flatMap fun w => '_' :: w.word.upper := by
  induction ws generalizing v with
  | nil => rfl
  | cons w ws ih =>
    obtain ⟨hfollows, hchain⟩ := List.isChain_cons_cons.1 h
    rw [List.flatMap_cons, List.flatMap_cons, keyFrom_text hfollows, ih hchain]
    rfl

end SpelledWord

end

namespace Spelling

theorem toList_joined (w : SpelledWord) (ws : List SpelledWord) :
    (String.intercalate "_" ((w :: ws).map fun w => String.ofList w.word.upper)).toList =
      w.word.upper ++ ws.flatMap fun w => '_' :: w.word.upper := by
  induction ws generalizing w with
  | nil => simp
  | cons v ws ih =>
    have hmore := ih v
    rw [List.map_cons] at hmore
    rw [List.map_cons, List.map_cons, String.intercalate_cons_cons, String.toList_append, String.toList_append,
      hmore]
    simp

/-- A name contributes its words, however it is written. -/
theorem key_text (s : Spelling) : key s.text = s.joined := by
  obtain ⟨words, hchain⟩ := s
  cases words with
  | nil => rfl
  | cons w ws =>
    have hfirst : keyFrom .nothing (w.text ++ ws.flatMap SpelledWord.text) =
        w.word.upper ++ keyFrom w.after (ws.flatMap SpelledWord.text) := by
      rw [SpelledWord.text, List.append_assoc, keyFrom_skip w.isSeparator_separators (.inl rfl),
        w.keyFrom_letters (.inr (by simp))]
    apply String.toList_injective
    rw [key, text, joined, toList_joined, String.toList_ofList, String.toList_ofList, List.flatMap_cons, hfirst,
      SpelledWord.keyFrom_words hchain]

end Spelling

/-! ## Names of variables -/

/-- However a section or a field is written, the name of its variable has the words of it in capitals with one
underscore between neighbours. So two spellings of the same words name the same variable. -/
theorem variableName_spelled (s : Spelling) (other : String) :
    variableName s.text other = "WUMBO_" ++ s.joined ++ "_" ++ key other ∧
      variableName other s.text = "WUMBO_" ++ key other ++ "_" ++ s.joined ∧
      ∀ t : Spelling, t.words.map SpelledWord.word = s.words.map SpelledWord.word →
        variableName t.text other = variableName s.text other ∧
          variableName other t.text = variableName other s.text := by
  have hsame (t : Spelling) (h : t.words.map SpelledWord.word = s.words.map SpelledWord.word) :
      t.joined = s.joined := by
    have hupper := congrArg (List.map fun w : NameWord => String.ofList w.upper) h
    rw [List.map_map, List.map_map] at hupper
    exact congrArg (String.intercalate "_") hupper
  refine ⟨?_, ?_, fun t ht => ?_⟩
  · rw [variableName, s.key_text]
  · rw [variableName, s.key_text]
  · simp only [variableName, Spelling.key_text, hsame t ht, and_self]

/-- The words `out` and `dir` as `outDir`. -/
def Spelling.outDir : Spelling where
  words :=
    [⟨⟨'o', ['u', 't'], rfl, List.all_eq_true.1 rfl⟩, [], false, nofun⟩,
     ⟨⟨'d', ['i', 'r'], rfl, List.all_eq_true.1 rfl⟩, [], true, nofun⟩]
  chain := by simp [SpelledWord.Follows, SpelledWord.IsSingleCapital]

example : Spelling.outDir.text = "outDir" ∧ Spelling.outDir.joined = "OUT_DIR" := by
  decide

/-- Five ways to write one name. -/
example : ["out_dir", "outDir", "OutDir", "out-dir", "out..dir"].map (variableName "build") =
    List.replicate 5 "WUMBO_BUILD_OUT_DIR" := by
  decide

/-- Behind a single capital letter a further one begins no word. -/
example : key "aBc" = "A_BC" ∧ key "ABc" = "ABC" := by
  decide

end Namescope.Settings
