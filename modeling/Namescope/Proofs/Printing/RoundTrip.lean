import Namescope.Proofs.Printing.Rederived
import Namescope.Proofs.Reading.Program
/-!
# Printed programs are read back

What is printed is the same program again, spans apart, unless it accesses a field: then it is no program.
-/
namespace Namescope

/-- A source text that is read without an error derives its tree. -/
theorem derives_of_parse {source : String} (h : (parse source).report.hasErrors = false) :
    DerivesProgram (Token.kinds (Scan.ofSource source).tokens) ((parse source).program.relabel .unplaced) := by
  refine (reads_iff_derives _ _).1 ⟨List.eq_nil_iff_forall_not_mem.2 fun f hf => ?_, rfl⟩
  have hmem : f.toError SyntaxIssue.message ∈ (parse source).report :=
    List.mem_append_right _ (List.mem_map_of_mem hf)
  exact List.any_eq_false.1 h _ hmem rfl

/-- Words that keep apart and derive a program are read silently as that program. -/
theorem parse_of_derives {ws : List Word} {p : Program} (hwritten : Written ws) (hspaced : Spaced ws [])
    (h : DerivesProgram (tokensOf ws) p) : (parse (String.ofList (plainText ws))).report = [] ∧
      (parse (String.ofList (plainText ws))).program.relabel .unplaced = p := by
  obtain ⟨hkinds, hfindings⟩ := scan_spaced hwritten hspaced
  rw [← hkinds] at h
  obtain ⟨hquiet, hprogram⟩ := (reads_iff_derives _ p).2 h
  refine ⟨?_, hprogram⟩
  rw [parse, Report.extend, Scan.report, Reading.report, hfindings, hquiet]
  rfl

/-- A program that was read without an error, printed and read again: without field accesses nothing is reported
and the tree is the same but for spans, with a field access there is an error. -/
theorem print_round_trip (source : String) (h : (parse source).report.hasErrors = false) :
    ((parse source).program.hasField = false →
      (parse (parse source).program.print).report = [] ∧
      (parse (parse source).program.print).program.relabel .unplaced = (parse source).program.relabel .unplaced) ∧
    ((parse source).program.hasField = true →
      (parse (parse source).program.print).report.hasErrors = true) := by
  have hderives := derives_of_parse h
  have hwritten := hderives.written fun k hk => scan_writable hk
  rw [Program.words_unplaced] at hwritten
  have hspaced := Program.spaced hwritten
  constructor
  · intro hfree
    have hagain := hderives.again ((Program.hasField_relabel _ _).trans hfree)
    rw [Program.words_unplaced] at hagain
    exact parse_of_derives hwritten hspaced hagain
  · intro hfield
    refine Bool.of_not_eq_false fun hquiet => ?_
    have hderives := derives_of_parse hquiet
    rw [Program.print, Program.text, ← plainText, (scan_spaced hwritten hspaced).1] at hderives
    rw [Program.hasField_of_derives hderives] at hfield
    cases hfield

/-- Nested assignments and double negations come back, a field access does not. -/
theorem assignments_round_trip :
    (parse "int f() { a = b = - -2; }").report.hasErrors = false ∧
      (parse (parse "int f() { a = b = - -2; }").program.print).report = [] ∧
      (parse "int f() { a.x = 2; }").report.hasErrors = false ∧
      (parse (parse "int f() { a.x = 2; }").program.print).report.hasErrors = true := by
  have hplain : (parse "int f() { a = b = - -2; }").report.hasErrors = false := by decide +kernel
  have hfield : (parse "int f() { a.x = 2; }").report.hasErrors = false := by decide +kernel
  exact ⟨hplain, ((print_round_trip _ hplain).1 (by decide +kernel)).1,
    hfield, (print_round_trip _ hfield).2 (by decide +kernel)⟩

end Namescope
