import Namescope.Proofs.Naming.Stamps
import Namescope.Proofs.Tree.Words
/-!
# Earlier annotations

A program may come with symbols and noted types from an earlier analysis. None of them is read: they are
overwritten or stay as they are, and an analysis of its own result changes nothing any more.
-/
namespace Namescope

/-! ## Walks over the same names -/

theorem Stamp.map_same (stamp : Stamp) : stamp.map .same = stamp := by
  cases stamp with
  | field id type => exact congrArg (Stamp.field id) type.relabel_name_id
  | _ => rfl

theorem Stamp.map_map_same (stamps : List Stamp) : stamps.map (map .same) = stamps :=
  (List.map_inj_left.2 fun stamp _ => stamp.map_same).trans stamps.map_id

/-- Programs that are the same but for symbols and noted types are walked over in the same way. -/
theorem Program.alike_same {p q : Program} (h : q.bare = p.bare) :
    List.Forall₂ (Visit.Alike .same) p.visits q.visits := by
  refine Program.alike (ℓ := .same) (g := .bare) (h := .bare) (fun e => e) h ?_
  have hspans : p.occurrences.map (·.ident.span) = q.occurrences.map (·.ident.span) := by
    have e := congrArg (fun p => (Program.occurrences p).map (·.ident.span)) h
    simp only [Program.bare, Program.occurrences_relabel, List.map_map, Function.comp_def,
      Occurrence.relabel_ident] at e
    exact e.symm
  have hsame : List.Forall₂ Eq (p.occurrences.map (·.ident.span)) (q.occurrences.map (·.ident.span)) :=
    hspans ▸ List.forall₂_refl _
  rw [List.forall₂_map_left_iff, List.forall₂_map_right_iff] at hsame
  exact hsame

/-- Programs that are the same but for symbols and noted types are analyzed with the same findings, the same
table and the same stamps. -/
theorem analyze_same (p : Program) : ∃ a stamps, analyze p = .ok a ∧ a.program.bare = p.bare ∧
    Stamped stamps p.occurrences a.program.occurrences ∧
    ∀ q : Program, q.bare = p.bare → ∃ b, analyze q = .ok b ∧ b.program.bare = p.bare ∧
      b.findings = a.findings ∧ b.table = a.table ∧ Stamped stamps q.occurrences b.program.occurrences := by
  obtain ⟨a, stamps, ha, hbare, hstamped, -, hlike⟩ := analyze_mirrors p
  refine ⟨a, stamps, ha, hbare, hstamped, fun q hq => ?_⟩
  obtain ⟨b, hb, hbare', hfound, htable, hstamped'⟩ := hlike .same q (fun _ => rfl) (Program.alike_same hq)
  rw [Stamp.map_map_same] at hstamped'
  exact ⟨b, hb, hbare'.trans hq, Likeness.eq_of_findings id hfound, htable.eq, hstamped'⟩

/-! ## What becomes of earlier annotations -/

/-- What stands at an identifier after an analysis, `after`, is what an analysis of the bare program puts there,
`clean`, or is left from `before` where that puts nothing. -/
structure Occurrence.Rewritten (before clean after : Occurrence) : Prop where
  sym : after.ident.sym = clean.ident.sym ∨ clean.ident.sym = none ∧ after.ident.sym = before.ident.sym
  resolved : after.resolved = clean.resolved ∨ clean.resolved = none ∧ after.resolved = before.resolved

theorem Stamp.rewritten (stamp : Stamp) (o : Occurrence) :
    o.Rewritten (stamp.write (o.relabel .bare)) (stamp.write o) := by
  have hrole := o.relabel_role .bare
  obtain ⟨hsym, hresolved⟩ : (o.relabel .bare).ident.sym = none ∧ (o.relabel .bare).resolved = none := by
    obtain ⟨role, ident, resolved⟩ := o
    cases role <;> exact ⟨rfl, rfl⟩
  cases stamp with
  | keep => exact ⟨.inr ⟨hsym, rfl⟩, .inr ⟨hresolved, rfl⟩⟩
  | clear | mark => exact ⟨.inl rfl, .inr ⟨hresolved, rfl⟩⟩
  | field id type =>
    refine ⟨.inl rfl, ?_⟩
    by_cases hfield : o.role = .field
    · exact .inl (by simp only [write, hrole, hfield, if_true])
    · exact .inr ⟨by simp only [write, hrole, hfield, if_false, hresolved], by simp only [write, hfield, if_false]⟩

/-- An analysis of `p` changes its symbols and noted types at most, and these become what they become in the
analysis `clean` of the bare program or stay; all else comes out as it does there. -/
structure Analysis.Rewrites (a : Analysis) (p : Program) (clean : Analysis) : Prop where
  shape : a.program.bare = p.bare
  print : a.program.print = p.print
  findings : a.findings = clean.findings
  table : a.table = clean.table
  annotations : ∀ (k : Nat) (before : Occurrence), p.occurrences[k]? = some before → ∃ cleaned after,
    clean.program.occurrences[k]? = some cleaned ∧ a.program.occurrences[k]? = some after ∧
      before.Rewritten cleaned after

theorem Stamped.rewritten {stamps : List Stamp} {os cleaned os' : List Occurrence}
    (hclean : Stamped stamps (os.map (Occurrence.relabel .bare)) cleaned) (h : Stamped stamps os os') {k : Nat}
    {before : Occurrence} (hk : os[k]? = some before) :
    ∃ o o', cleaned[k]? = some o ∧ os'[k]? = some o' ∧ before.Rewritten o o' := by
  have hkBare : (os.map (Occurrence.relabel .bare))[k]? = some (before.relabel .bare) := by
    rw [List.getElem?_map, hk, Option.map_some]
  obtain ⟨stamp, hstamp, hafter⟩ := h.getElem? hk
  obtain ⟨stamp', hstamp', hcleaned⟩ := hclean.getElem? hkBare
  obtain rfl : stamp = stamp' := Option.some.inj (hstamp.symm.trans hstamp')
  exact ⟨_, _, hcleaned, hafter, stamp.rewritten before⟩

/-- Whatever symbols and noted types a program comes with, its analysis is that of the bare program, and an
analysis of the program that results finds the same and leaves it unchanged. -/
theorem analyze_rewrites (p : Program) : ∃ clean a again,
    analyze p.bare = .ok clean ∧ analyze p = .ok a ∧ analyze a.program = .ok again ∧ a.Rewrites p clean ∧
      again.program = a.program ∧ again.findings = a.findings ∧ again.table = a.table := by
  obtain ⟨a, stamps, ha, hbare, hstamped, hsame⟩ := analyze_same p
  obtain ⟨clean, hclean, -, hfindings, htable, hstampedClean⟩ := hsame p.bare p.bare_bare
  obtain ⟨again, hagain, hbareAgain, hfindings', htable', hstampedAgain⟩ := hsame a.program hbare
  refine ⟨clean, a, again, hclean, ha, hagain, ?_, ?_, hfindings', htable'⟩
  · rw [Program.bare, Program.occurrences_relabel] at hstampedClean
    refine ⟨hbare, ?_, hfindings.symm, htable.symm, fun k before hk => hstampedClean.rewritten hstamped hk⟩
    rw [← a.program.print_bare, hbare, p.print_bare]
  · refine Program.eq_of_occurrences (hbareAgain.trans hbare.symm) ?_
    rw [hstampedAgain.eq, hstamped.again]

end Namescope
