import Mathlib.Data.List.DropRight
import Namescope.Text.Line
/-!
# Which line a place is on

Lines are cut at newlines and lose a carriage return before one, while places count the newlines in front of them
and the characters after the last of these. Main statements: the line with that number goes on with the character
at the place, whatever carriage returns there are; and behind the whole text there is a line to show unless the
text is empty or ends with a newline.
-/
namespace Namescope.Text

/-- The characters after the last newline. -/
def lastLine (text : List Char) : List Char := text.rtakeWhile (· ≠ '\n')

theorem lastLine_of_not_mem {text : List Char} (h : '\n' ∉ text) : lastLine text = text := by
  refine List.rtakeWhile_eq_self_iff.2 fun c hc => decide_eq_true ?_
  rintro rfl
  exact h hc

theorem lastLine_cons_of_mem {text : List Char} (h : '\n' ∈ text) (c : Char) :
    lastLine (c :: text) = lastLine text := by
  have hstops : (text.reverse.takeWhile (· ≠ '\n')).length ≠ text.reverse.length := by
    intro hlength
    have hall := List.takeWhile_eq_self_iff.1 ((List.takeWhile_prefix _).eq_of_length hlength)
    simpa using hall '\n' (List.mem_reverse.2 h)
  rw [lastLine, List.rtakeWhile, List.reverse_cons, List.takeWhile_append, if_neg hstops]
  rfl

/-- A newline in front does not count: either another follows, or nothing does that is cut off. -/
theorem lastLine_newline (text : List Char) : lastLine ('\n' :: text) = lastLine text := by
  by_cases h : '\n' ∈ text
  · exact lastLine_cons_of_mem h _
  · have hall : ∀ c ∈ text.reverse, decide (c ≠ '\n') = true := by
      intro c hc
      refine decide_eq_true ?_
      rintro rfl
      exact h (List.mem_reverse.1 hc)
    rw [lastLine, List.rtakeWhile, List.reverse_cons, List.takeWhile_append_of_pos hall]
    simp [lastLine_of_not_mem h]

theorem lastLine_eq_nil_iff {text : List Char} : lastLine text = [] ↔ text = [] ∨ text.getLast? = some '\n' := by
  rw [lastLine, List.rtakeWhile_eq_nil_iff]
  cases text with
  | nil => simp
  | cons c text => simp [List.getLast?_eq_some_getLast]

/-- A character that ends no line stands in front of the first line after it. -/
theorem lines_cons {c : Char} (hc : c ≠ '\n') {rest : List Char}
    (hpair : ∀ more, c = '\r' → rest = '\n' :: more → False) :
    lines (c :: rest) = (c :: (lines rest).headD []) :: (lines rest).tail := by
  rw [lines.eq_4 c rest hc hpair]
  cases lines rest <;> rfl

theorem count_newline_cons {c : Char} (hc : c ≠ '\n') (text : List Char) :
    (c :: text).count '\n' = text.count '\n' :=
  List.count_cons_of_ne hc

/-- The line on which a text goes on with a character that ends no line: it begins with what stands after the last
newline, and that character. -/
theorem line_at (before : List Char) {c : Char} (hc : c ≠ '\n') (hcr : c ≠ '\r') (after : List Char) :
    ∃ line, (lines (before ++ c :: after))[before.count '\n']? = some line ∧ lastLine before ++ [c] <+: line := by
  fun_induction lines before with
  | case1 =>
    refine ⟨_, by rw [List.nil_append, lines_cons hc fun _ h _ => hcr h]; rfl, ?_⟩
    exact List.cons_prefix_cons.2 ⟨rfl, List.nil_prefix⟩
  | case2 rest ih =>
    obtain ⟨line, hline, hstarts⟩ := ih
    exact ⟨line, by simpa [lines] using hline, by rwa [lastLine_newline]⟩
  | case3 rest ih =>
    obtain ⟨line, hline, hstarts⟩ := ih
    refine ⟨line, by simpa [lines] using hline, ?_⟩
    rwa [lastLine_cons_of_mem List.mem_cons_self, lastLine_newline]
  | case4 d rest hd hpair _ ih | case5 d rest hd hpair _ _ _ ih =>
    obtain ⟨line, hline, hstarts⟩ := ih
    have hpair' : ∀ more, d = '\r' → rest ++ c :: after = '\n' :: more → False := by
      intro more hreturn hnewline
      cases rest with
      | nil => exact hc (List.cons.inj hnewline).1
      | cons e rest => exact hpair rest hreturn (congrArg (· :: rest) (List.cons.inj hnewline).1)
    rw [List.cons_append, lines_cons hd hpair', count_newline_cons hd]
    by_cases hmem : '\n' ∈ rest
    -- the line is one of those after the first, which alone changes
    · obtain ⟨n, hn⟩ := Nat.exists_eq_succ_of_ne_zero (List.count_pos_iff.2 hmem).ne'
      rw [hn] at hline ⊢
      refine ⟨line, ?_, by rwa [lastLine_cons_of_mem hmem]⟩
      rwa [List.getElem?_cons_succ, List.getElem?_tail]
    · rw [List.count_eq_zero.2 hmem] at hline ⊢
      rw [lastLine_of_not_mem hmem] at hstarts
      have hfirst : '\n' ∉ d :: rest := by simpa [Ne.symm hd] using hmem
      rw [lastLine_of_not_mem hfirst]
      have hhead : (lines (rest ++ c :: after)).headD [] = line := by
        rw [List.headD_eq_head?_getD, List.head?_eq_getElem?, hline]
        rfl
      exact ⟨d :: line, by rw [hhead]; rfl, List.cons_prefix_cons.2 ⟨rfl, hstarts⟩⟩

/-- The lines of a text are as many as its newlines, and one more for what stands after the last newline. -/
theorem lines_eq_concat (text : List Char) : ∃ ended, ended.length = text.count '\n' ∧
    lines text = ended ++ if lastLine text = [] then [] else [lastLine text] := by
  induction text using lines.induct with
  | case1 => exact ⟨[], rfl, rfl⟩
  | case2 rest ih =>
    obtain ⟨ended, hlength, hlines⟩ := ih
    refine ⟨[] :: ended, by simp [hlength], ?_⟩
    rw [lastLine_newline, lines, hlines, List.cons_append]
  | case3 rest ih =>
    obtain ⟨ended, hlength, hlines⟩ := ih
    refine ⟨[] :: ended, by simp [hlength], ?_⟩
    rw [lastLine_cons_of_mem List.mem_cons_self, lastLine_newline, lines, hlines, List.cons_append]
  | case4 d rest hd hpair _ ih | case5 d rest hd hpair _ _ _ ih =>
    obtain ⟨ended, hlength, hlines⟩ := ih
    rw [lines_cons hd hpair, hlines, count_newline_cons hd]
    by_cases hmem : '\n' ∈ rest
    · rw [lastLine_cons_of_mem hmem]
      cases ended with
      | nil => exact absurd hlength (List.count_pos_iff.2 hmem).ne
      | cons first ended => exact ⟨(d :: first) :: ended, hlength, rfl⟩
    · rw [List.count_eq_zero.2 hmem] at hlength ⊢
      obtain rfl := List.eq_nil_of_length_eq_zero hlength
      refine ⟨[], rfl, ?_⟩
      rw [lastLine_of_not_mem hmem, lastLine_of_not_mem (by simpa [Ne.symm hd] using hmem)]
      cases rest <;> rfl

/-- The line behind the last newline is the last one, if anything stands on it. -/
theorem line_behind {text : List Char} (h : lastLine text ≠ []) :
    (lines text)[text.count '\n']? = some (lastLine text) ∧ (lines text).getLast? = some (lastLine text) := by
  obtain ⟨ended, hlength, hlines⟩ := lines_eq_concat text
  rw [if_neg h] at hlines
  rw [hlines, ← hlength]
  exact ⟨List.getElem?_concat_length, List.getLast?_concat⟩

/-- If nothing stands behind the last newline, there is no such line. -/
theorem no_line_behind {text : List Char} (h : lastLine text = []) : (lines text)[text.count '\n']? = none := by
  obtain ⟨ended, hlength, hlines⟩ := lines_eq_concat text
  rw [if_pos h, List.append_nil] at hlines
  rw [hlines, ← hlength]
  exact List.getElem?_eq_none (Nat.le_refl _)

end Namescope.Text
