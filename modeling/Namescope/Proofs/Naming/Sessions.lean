import Namescope.Proofs.Naming.Moved
import Namescope.Proofs.Reading.Joined
/-!
# Sessions

One resolver may walk over several programs one after the other. What it makes of each of them adds up to what
is made of all of them as one program; so the texts of a session may as well be the lines of one text.
-/
namespace Namescope

/-! ## Shares -/

/-- What name resolution makes of one program of a session: its tree, the symbols and the findings that it adds. -/
structure Share where
  program : Program
  symbols : List Symbol
  findings : List (Finding NameIssue)

/-- A program that is moved with its text. -/
def Program.move (d : Displacement) (p : Program) : Program := p.relabel { span := Span.move d }

/-- Programs one after the other as one program. -/
def Program.join (ps : List Program) : Program := ⟨ps.flatMap Program.decls⟩

namespace Share

/-- A share that is moved with its text. -/
def move (d : Displacement) (share : Share) : Share where
  program := share.program.move d
  symbols := share.symbols.map (Symbol.mapSpan (Span.move d))
  findings := share.findings.map (Finding.mapSpan (Span.move d))

/-- Shares one after the other as one share. -/
def join (shares : List Share) : Share where
  program := .join (shares.map Share.program)
  symbols := shares.flatMap Share.symbols
  findings := shares.flatMap Share.findings

end Share

/-- An analysis as the only share of a session. -/
def Analysis.share (a : Analysis) : Share := ⟨a.program, a.table.symbols, a.findings⟩

namespace Resolve

/-- Walks over a program and tells what it adds. -/
def share (p : Program) : Resolve Share := do
  let before ← get
  let program ← program p
  let after ← get
  return {
    program
    symbols := after.scopes.table.symbols.drop before.scopes.table.size
    findings := after.findings.drop before.findings.length }

/-- Walks over programs in order, with one resolver. -/
def session : List Program → Resolve (List Share)
  | [] => pure []
  | first :: more => do
    let first ← share first
    let more ← session more
    return first :: more

end Resolve

/-! ## What a program gets -/

/-- From the scopes `S` on, a program gets this share, and the scopes `S'` are left behind. -/
structure Share.Of (share : Share) (S : ScopeStack) (p : Program) (S' : ScopeStack) : Prop where
  steps : VisitSteps S p.visits share.program.visits S' share.findings
  symbols : S'.table.symbols = S.table.symbols ++ share.symbols
  bare : share.program.bare = p.bare

namespace Share.Of
variable {S S₁ S₂ T : ScopeStack} {p : Program} {share : Share}

theorem nil (S : ScopeStack) : (Share.join []).Of S (.join []) S :=
  ⟨.nil, (List.append_nil _).symm, rfl⟩

theorem cons {ps : List Program} {shares : List Share} (h : share.Of S p S₁)
    (h' : (Share.join shares).Of S₁ (.join ps) S₂) : (Share.join (share :: shares)).Of S (.join (p :: ps)) S₂ where
  steps := by
    have hvisits (q : Program) (qs : List Program) :
        (Program.join (q :: qs)).visits = q.visits ++ (Program.join qs).visits := List.flatMap_append
    rw [hvisits, Share.join, List.map_cons, hvisits]
    exact h.steps.append h'.steps
  symbols := by
    rw [h'.symbols, h.symbols, List.append_assoc]
    rfl
  bare := by
    have hdecls := congrArg₂ (· ++ ·) (Program.mk.inj h.bare) (Program.mk.inj h'.bare)
    simp only [← List.map_append] at hdecls
    exact congrArg Program.mk hdecls

/-- A program that stands elsewhere gets its share there. -/
theorem move (h : share.Of S p S₁) (d : Displacement) (hS : S.Sound) (hT : T.Sound)
    (halike : S.Alike (.moved (Span.move d) S.table.size) T) : ∃ T₁,
      S₁.Alike (.moved (Span.move d) S.table.size) T₁ ∧ (share.move d).Of T (p.move d) T₁ := by
  obtain ⟨T₁, hT₁, hsteps⟩ := Program.steps_moved h.steps h.bare hS hT halike
  refine ⟨T₁, hT₁, hsteps, ?_, ?_⟩
  · have hold : (S.table.symbols ++ share.symbols).drop S.table.size = share.symbols := List.drop_left
    have hnew := hT₁.table.drop_moved
    rw [h.symbols, hold, ← halike.table.size_moved] at hnew
    rw [hsteps.kept.append, hnew]
    rfl
  · exact (Program.bare_relabel_span _).trans ((congrArg _ h.bare).trans (Program.bare_relabel_span _).symm)

/-- What a program gets from the start is its analysis. -/
theorem analysis (h : share.Of {} p S₁) : ∃ a, analyze p = .ok a ∧ a.share = share := by
  obtain ⟨a, S', ha, htable, hsteps, hbare⟩ := analyze_steps p
  obtain ⟨hvisits, rfl, hfindings⟩ := hsteps.unique h.steps
  refine ⟨a, ha, ?_⟩
  have hprogram : a.program = share.program := by
    refine Program.eq_of_occurrences (hbare.trans h.bare.symm) ?_
    rw [Program.occurrences, hvisits, Program.occurrences]
  rw [Analysis.share, hprogram, htable, h.symbols, hfindings]
  rfl

end Share.Of

/-! ## Sessions as one program -/

namespace Resolve

theorem run_share (p : Program) {r : Resolver} (hr : r.scopes.Sound) : ∃ one r',
    (share p).run r = .ok (one, r') ∧ one.Of r.scopes p r'.scopes ∧ r'.findings = r.findings ++ one.findings := by
  obtain ⟨p', S', _, fs, hy, hsteps, -, rfl, hb⟩ := follows_program p r.scopes hr
  obtain ⟨events, e⟩ := hy r.findings r.events
  have hfindings : (r.findings ++ fs).drop r.findings.length = fs := List.drop_left' rfl
  refine ⟨⟨p', S'.table.symbols.drop r.scopes.table.size, fs⟩, ⟨S', r.findings ++ fs, r.events ++ events⟩, ?_,
    ⟨hsteps, hsteps.kept.append, hb⟩, rfl⟩
  calc (share p).run r
      = (program p).run r >>= fun x => .ok (⟨x.1, x.2.scopes.table.symbols.drop r.scopes.table.size,
          x.2.findings.drop r.findings.length⟩, x.2) := rfl
    _ = .ok (⟨p', S'.table.symbols.drop r.scopes.table.size, (r.findings ++ fs).drop r.findings.length⟩,
          ⟨S', r.findings ++ fs, r.events ++ events⟩) := by rw [e]; rfl
    _ = _ := by rw [hfindings]

/-- A session over programs and a walk over all of them as one, in which each stands elsewhere, make the same of
them. -/
theorem run_session : ∀ (ps : List Program) (ds : List Displacement), ds.length = ps.length →
    ∀ {r : Resolver} {T : ScopeStack} {f : Span → Span} {n : Nat}, r.scopes.Sound → T.Sound →
      r.scopes.Alike (.moved f n) T → ∃ shares r' T', (session ps).run r = .ok (shares, r') ∧
        (Share.join shares).Of r.scopes (.join ps) r'.scopes ∧
        r'.findings = r.findings ++ (Share.join shares).findings ∧
        (Share.join (List.zipWith Share.move ds shares)).Of T (.join (List.zipWith Program.move ds ps)) T'
  | [], [], _, r, T, _, _, _, _, _ => ⟨[], r, T, rfl, .nil _, (List.append_nil _).symm, .nil T⟩
  | p :: ps, d :: ds, hlength, r, T, f, n, hr, hT, halike => by
    obtain ⟨one, r₁, hrun, hone, hfindings⟩ := run_share p hr
    -- what was declared before this program may be anywhere while it is walked over
    have halike' := halike.moved_on (Span.move d)
    obtain ⟨T₁, hT₁, honeMoved⟩ := hone.move d hr hT halike'
    obtain ⟨shares, r₂, T₂, hrun', hshares, hfindings', hmoved⟩ := run_session ps ds (Nat.succ.inj hlength)
      (hone.steps.sound hr) (honeMoved.steps.sound hT) hT₁
    refine ⟨one :: shares, r₂, T₂, ?_, hone.cons hshares, ?_, honeMoved.cons hmoved⟩
    · rw [session, StateT.run_bind, hrun]
      show (session ps >>= fun more => pure (one :: more)).run r₁ = _
      rw [StateT.run_bind, hrun']
      rfl
    · rw [hfindings', hfindings, List.append_assoc]
      rfl

end Resolve

/-! ## Texts as lines of one text -/

/-- A displacement by as much again. -/
def Displacement.add (d e : Displacement) : Displacement := ⟨d.bytes + e.bytes, d.lines + e.lines⟩

/-- Where texts that are joined by newlines stand, the first of them at `d`. -/
def displacements (d : Displacement) : List String → List Displacement
  | [] => []
  | first :: more => d :: displacements (d.add (.behind first)) more

theorem length_displacements (d : Displacement) (sources : List String) :
    (displacements d sources).length = sources.length := by
  induction sources generalizing d with
  | nil => rfl
  | cons first more ih => exact congrArg Nat.succ (ih _)

theorem Span.move_move (d e : Displacement) (span : Span) : (span.move e).move d = span.move (d.add e) := by
  simp only [move, Displacement.add, Nat.add_assoc, Nat.add_comm d.bytes, Nat.add_comm d.lines]

theorem Program.move_move (d e : Displacement) (p : Program) : (p.move e).move d = p.move (d.add e) := by
  have hspan : Span.move d ∘ Span.move e = Span.move (d.add e) := funext (Span.move_move d e)
  rw [move, move, relabel_relabel, move, ← hspan]
  rfl

theorem Program.move_zero (p : Program) : p.move {} = p := p.relabel_same

/-- The tree of a text is that of all its lines, each in its place. -/
theorem Parsed.program_joined : ∀ (sources : List String),
    (∀ s ∈ sources.dropLast, (parse s).report.hasErrors = false) → ∀ d : Displacement,
      (parse ("\n".intercalate sources)).program.move d =
        .join (List.zipWith Program.move (displacements d sources) (sources.map fun s => (parse s).program))
  | [], _, d => by
    have hnone : (parse "").program.decls.isEmpty = true := by decide +kernel
    exact congrArg Program.mk (congrArg (List.map _) (List.isEmpty_iff.1 hnone))
  | [s], _, d => by
    rw [String.intercalate_singleton]
    exact congrArg Program.mk (List.append_nil _).symm
  | s :: t :: more, h, d => by
    let rest := "\n".intercalate (t :: more)
    have hrest := Parsed.program_joined (t :: more) (fun u hu => h u (List.mem_cons_of_mem s hu)) (d.add (.behind s))
    have hsplit : (parse ("\n".intercalate (s :: t :: more))).program =
        ⟨(parse s).program.decls ++ ((parse rest).program.move (.behind s)).decls⟩ := by
      rw [String.intercalate_cons_cons]
      exact congrArg Program.mk (Parsed.decls_newline (h s List.mem_cons_self) rest)
    calc (parse ("\n".intercalate (s :: t :: more))).program.move d
        = ⟨((parse s).program.move d).decls ++ (((parse rest).program.move (.behind s)).move d).decls⟩ := by
          rw [hsplit]
          exact congrArg Program.mk List.map_append
      _ = ⟨((parse s).program.move d).decls ++ (Program.join (List.zipWith Program.move
            (displacements (d.add (.behind s)) (t :: more))
            ((t :: more).map fun s => (parse s).program))).decls⟩ := by rw [Program.move_move, hrest]
      _ = _ := rfl

/-- A session and an analysis make the same: what each program of the session adds, moved with its text, adds up to
the analysis, and together it is all that the resolver of the session has got. -/
structure Analysis.Sums (a : Analysis) (places : List Displacement) (shares : List Share) (r : Resolver) : Prop where
  symbols : r.scopes.table.symbols = (Share.join shares).symbols
  findings : r.findings = (Share.join shares).findings
  whole : a.share = .join (List.zipWith Share.move places shares)

/-- If all texts but the last one are free of errors, a session over their trees and the analysis of the one text
with all their lines make the same. -/
theorem session_sums (sources : List String)
    (h : ∀ s ∈ sources.dropLast, (parse s).report.hasErrors = false) :
    ∃ shares r a, (Resolve.session (sources.map fun s => (parse s).program)).run {} = .ok (shares, r) ∧
      analyze (parse ("\n".intercalate sources)).program = .ok a ∧
      a.Sums (displacements {} sources) shares r := by
  have hjoined := Parsed.program_joined sources h {}
  rw [Program.move_zero] at hjoined
  have hlength : (displacements {} sources).length = (sources.map fun s => (parse s).program).length := by
    rw [length_displacements, List.length_map]
  obtain ⟨shares, r, T, hrun, hshares, hfindings, hmoved⟩ := Resolve.run_session (r := {}) _ _ hlength
    ScopeStack.sound_empty ScopeStack.sound_empty (ScopeStack.alike_empty (ℓ := .moved id 0) fun _ => rfl)
  obtain ⟨a, ha, hshare⟩ := hmoved.analysis
  rw [← hjoined] at ha
  exact ⟨shares, r, a, hrun, ha, hshares.symbols, hfindings, hshare⟩

/-- The second text sees the variable of the first one: it may use the name but not declare it again. -/
theorem lines_sum :
    (∀ s ∈ ["int n;", "void f() { n = m; } int n;"].dropLast, (parse s).report.hasErrors = false) ∧
      ∃ shares r a,
        (Resolve.session (["int n;", "void f() { n = m; } int n;"].map fun s => (parse s).program)).run {} =
          .ok (shares, r) ∧
        analyze (parse ("\n".intercalate ["int n;", "void f() { n = m; } int n;"])).program = .ok a ∧
        a.Sums (displacements {} ["int n;", "void f() { n = m; } int n;"]) shares r ∧
        a.findings = [⟨.undeclared, ⟨22, 23, 2, 16⟩⟩, ⟨.multiplyDeclared, ⟨31, 32, 2, 25⟩⟩] := by
  have hquiet : ∀ s ∈ ["int n;", "void f() { n = m; } int n;"].dropLast,
      (parse s).report.hasErrors = false := by
    rw [List.dropLast_cons_cons, List.dropLast_singleton, List.forall_mem_singleton]
    decide +kernel
  obtain ⟨shares, r, a, hrun, ha, hsums⟩ := session_sums ["int n;", "void f() { n = m; } int n;"] hquiet
  have hanalysis : (analyze (parse ("\n".intercalate ["int n;", "void f() { n = m; } int n;"])).program).toOption.map
      Analysis.findings = some [⟨.undeclared, ⟨22, 23, 2, 16⟩⟩, ⟨.multiplyDeclared, ⟨31, 32, 2, 25⟩⟩] := by
    decide +kernel
  rw [ha] at hanalysis
  exact ⟨hquiet, shares, r, a, hrun, ha, hsums, Option.some.inj hanalysis⟩

end Namescope
