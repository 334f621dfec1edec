import Namescope.Proofs.Reading.Twins
import Namescope.Proofs.Reading.Statement
/-!
# Statements and blocks side by side

Twin cursors read the same statements and go on at the same place after a failure. A block that is read
silently needs no token behind its closing brace.
-/
namespace Namescope.Seam

variable {s : Seam} {c c' : Cursor}

/-- A reading that ends clear, or silently where nothing else is left in the first list. -/
def Settled {α : Type} (s : Seam) (r : Read α c) : Prop :=
  s.Clear r.cursor ∨ s.back = [] ∧ r.cursor.findings.length ≤ c.findings.length

/-- A mark that was not missed is clear in front. -/
theorem Settled.of_expect {α : Type} {r : Read α c} {d : Cursor} {m : Mark} (h : s.Settled r)
    (hcursor : r.cursor = (d.expect m).cursor) (hle : c.findings.length ≤ d.findings.length) : s.Clear d := by
  rw [Settled, hcursor] at h
  rcases h with h | ⟨hback, hquiet⟩
  · exact h.before
  · cases ht : d.accept m with
    | none =>
      have hnoted := d.length_findings_lt_noteAt d.here (.markExpected m)
      rw [Cursor.expect, ht] at hquiet
      exact absurd (Nat.lt_of_lt_of_le hnoted (hquiet.trans hle)) (Nat.lt_irrefl _)
    | some t =>
      refine .inl ?_
      rw [hback]
      exact Nat.lt_of_le_of_lt (Nat.zero_le _) t.shorter

/-- A reading is settled with the last one of its parts. -/
theorem Settled.last {α β : Type} {r : Read α c} {d : Cursor} {q : Read β d} (h : s.Settled r)
    (hcursor : r.cursor = q.cursor) (hle : c.findings.length ≤ d.findings.length) : s.Settled q := by
  rw [Settled, hcursor] at h
  exact h.imp_right fun ⟨hback, hquiet⟩ => ⟨hback, hquiet.trans hle⟩

/-- In front of the closing brace of a settled block. -/
theorem Settled.block_clear (h : s.Settled c.block) :
    s.Clear (c.expect .lbrace).cursor.locals.cursor.statements.cursor := by
  rw [Cursor.block] at h
  exact h.of_expect rfl ((c.moves_expect .lbrace).length_le.trans
    ((Cursor.locals_takes _).length_le.trans (Cursor.statements_takes _).length_le))

theorem Settled.block_known (h : s.Settled c.block) : s.Known c.block.cursor := by
  have hclear := h.block_clear
  rw [Cursor.block]
  exact hclear.known_expect .rbrace

namespace Twin

/-! ## Types and variables -/

theorem type?_eq_none (h : s.Twin c c') (hc : s.Clear c) (hnone : c.type? = none) : c'.type? = none := by
  unfold Cursor.type? at hnone ⊢
  cases ht : c.next? with
  | none => rw [h.next?_eq_none hc ht]
  | some t =>
    obtain ⟨t', ht', hagree⟩ := h.next?_eq_some hc ht
    rw [ht] at hnone
    rw [ht']
    dsimp only at hnone ⊢
    rw [hagree.kind]
    split at hnone
    case h_5 => rfl
    all_goals cases hnone

theorem type?_eq_some {type : Step TypeRef c} (h : s.Twin c c') (hc : s.Clear type.cursor)
    (hsome : c.type? = some type) :
    ∃ type', c'.type? = some type' ∧ s.Agree (TypeRef.relabel s.label) type.toRead type'.toRead := by
  have hcClear : s.Clear c := Clear.before (r := type.toRead) hc
  unfold Cursor.type? at hsome ⊢
  split at hsome
  · cases hsome
  next t ht =>
  obtain ⟨t', ht', hagree⟩ := h.next?_eq_some hcClear ht
  split at hsome
  · next hk =>
    cases hsome
    simp only [ht', hagree.kind, hk]
    exact ⟨_, rfl, congrArg (TypeRef.mk .int) hagree.span, hagree.cursor⟩
  · next hk =>
    cases hsome
    simp only [ht', hagree.kind, hk]
    exact ⟨_, rfl, congrArg (TypeRef.mk .bool) hagree.span, hagree.cursor⟩
  · next hk =>
    cases hsome
    simp only [ht', hagree.kind, hk]
    exact ⟨_, rfl, congrArg (TypeRef.mk .void) hagree.span, hagree.cursor⟩
  · next hk =>
    cases hsome
    have hname := hagree.cursor.ident (Clear.before (r := t.cursor.ident) hc)
    simp only [ht', hagree.kind, hk]
    refine ⟨_, rfl, ?_, hname.cursor⟩
    show TypeRef.mk (.struct _) (Span.merge _ _) = TypeRef.mk (.struct _) (s.move (Span.merge _ _))
    rw [hname.value, hagree.span, hname.cursor.lastSpan hc, ← s.move_merge]
  · cases hsome

theorem formal?_eq_none (h : s.Twin c c') (hc : s.Clear c) (hnone : c.formal? = none) : c'.formal? = none := by
  rw [Cursor.formal?, Option.map_eq_none_iff] at hnone ⊢
  exact h.type?_eq_none hc hnone

theorem formal?_eq_some {formal : Step Binding c} (h : s.Twin c c') (hc : s.Clear formal.cursor)
    (hsome : c.formal? = some formal) :
    ∃ formal', c'.formal? = some formal' ∧ s.Agree (Binding.relabel s.label) formal.toRead formal'.toRead := by
  obtain ⟨type, htype, rfl⟩ := Option.map_eq_some_iff.1 hsome
  have htypeClear : s.Clear type.cursor := Clear.before (r := type.cursor.ident) hc
  obtain ⟨type', htype', hagree⟩ := h.type?_eq_some htypeClear htype
  have hname := hagree.cursor.ident htypeClear
  refine ⟨_, congrArg (Option.map _) htype', ?_, hname.cursor⟩
  show Binding.mk _ _ (Span.merge _ _) = Binding.mk _ _ (s.move (Span.merge _ _))
  rw [hname.value, hagree.value, h.here (Clear.before (r := type.toRead) htypeClear), hname.cursor.lastSpan hc,
    ← s.move_merge]
  rfl

theorem binding?_eq_none (h : s.Twin c c') (hc : s.Clear c) (hnone : c.binding? = none) : c'.binding? = none := by
  rw [Cursor.binding?, Option.map_eq_none_iff] at hnone ⊢
  exact h.type?_eq_none hc hnone

theorem binding?_eq_some {binding : Step Binding c} (h : s.Twin c c') (hc : s.Clear binding.cursor)
    (hsome : c.binding? = some binding) :
    ∃ binding', c'.binding? = some binding' ∧
      s.Agree (Binding.relabel s.label) binding.toRead binding'.toRead := by
  obtain ⟨type, htype, rfl⟩ := Option.map_eq_some_iff.1 hsome
  have hnameClear : s.Clear type.cursor.ident.cursor :=
    Clear.before (r := type.cursor.ident.cursor.expect .semicolon) hc
  have htypeClear := Clear.before (r := type.cursor.ident) hnameClear
  obtain ⟨type', htype', hagree⟩ := h.type?_eq_some htypeClear htype
  have hname := hagree.cursor.ident htypeClear
  have hclose := hname.cursor.expect hnameClear .semicolon
  refine ⟨_, congrArg (Option.map _) htype', ?_, hclose.cursor⟩
  show Binding.mk _ _ (Span.merge _ _) = Binding.mk _ _ (s.move (Span.merge _ _))
  rw [hname.value, hagree.value, h.here (Clear.before (r := type.toRead) htypeClear),
    hclose.cursor.lastSpan hc, ← s.move_merge]
  rfl

theorem locals {c c' : Cursor} (h : s.Twin c c') (hc : s.Clear c.locals.cursor) :
    s.Agree (List.map (Binding.relabel s.label)) c.locals c'.locals := by
  rw [Cursor.locals] at hc
  rw [Cursor.locals, Cursor.locals]
  split at hc
  · next hfirst =>
    simp only [h.binding?_eq_none hc hfirst]
    exact ⟨rfl, h⟩
  · next first hfirst =>
    have hshorter := first.shorter
    have hfirstClear : s.Clear first.cursor := Clear.before (r := first.cursor.locals) hc
    obtain ⟨first', hfirst', hagree⟩ := h.binding?_eq_some hfirstClear hfirst
    have hmore := hagree.cursor.locals hc
    simp only [hfirst']
    refine ⟨?_, hmore.cursor⟩
    show _ :: _ = Binding.relabel _ _ :: List.map _ _
    rw [hagree.value, hmore.value]
termination_by c.rest.length

/-! ## Statements -/

theorem condition (h : s.Twin c c') (hc : s.Clear c.condition.cursor) :
    s.Agree (Expr.relabel s.label) c.condition c'.condition := by
  have hcond : s.Clear (c.expect .lparen).cursor.expr.cursor :=
    Clear.before (r := (c.expect .lparen).cursor.expr.cursor.expect .rparen) hc
  have hparen := h.expect (Clear.before (r := c.expect .lparen) hcond.before) .lparen
  have hexpr := hparen.cursor.expr hcond
  exact ⟨hexpr.value, (hexpr.cursor.expect hcond .rparen).cursor⟩

/-- Statements that are the same up to their spans, given the spans where they begin and end. -/
theorem finish {start start' : Span} (h : s.Twin c c') (hstart : start' = s.move start)
    (statement statement' : Span → Stmt)
    (hstatement : ∀ span, statement' (s.move span) = (statement span).relabel s.label)
    (hc : s.Clear (c.finish start statement).cursor) :
    s.Agree (Option.map (Stmt.relabel s.label)) (c.finish start statement) (c'.finish start' statement') := by
  have hclose := h.expect (Clear.before (r := c.expect .semicolon) hc) .semicolon
  refine ⟨?_, hclose.cursor⟩
  show some (statement' (Span.merge _ _)) = some (Stmt.relabel _ (statement (Span.merge _ _)))
  rw [hstart, hclose.cursor.lastSpan hc, ← s.move_merge, hstatement]

/-- A statement that ends behind a target and a sign. -/
theorem finish_signed {target : Read Expr c} {target' : Read Expr c'} {m : Mark} {sign : Step Span target.cursor}
    {start start' : Span} (h : s.Agree (Expr.relabel s.label) target target') (hclear : s.Clear target.cursor)
    (hsign : target.cursor.accept m = some sign) (hstart : start' = s.move start) (statement : Expr → Span → Stmt)
    (hstatement : ∀ e span, statement (e.relabel s.label) (s.move span) = (statement e span).relabel s.label)
    (hc : s.Clear (sign.cursor.finish start (statement target.value)).cursor) :
    ∃ sign', target'.cursor.accept m = some sign' ∧
      s.Agree (Option.map (Stmt.relabel s.label)) (sign.cursor.finish start (statement target.value))
        (sign'.cursor.finish start' (statement target'.value)) := by
  obtain ⟨sign', hsign', hagree⟩ := h.cursor.accept_eq_some hclear hsign
  refine ⟨sign', hsign', hagree.cursor.finish hstart _ _ (fun span => ?_) hc⟩
  rw [h.value, hstatement]

theorem skipInBlock {c c' : Cursor} (h : s.Twin c c') (hc : s.Clear c.skipInBlock.cursor) :
    s.Twin c.skipInBlock.cursor c'.skipInBlock.cursor := by
  rw [Cursor.skipInBlock] at hc
  rw [Cursor.skipInBlock, Cursor.skipInBlock]
  split at hc
  · next ht =>
    simp only [h.next?_eq_none hc ht]
    exact h
  next t ht =>
  have hshorter := t.shorter
  have hcClear : s.Clear c := by
    split at hc
    · exact hc
    split at hc
    · exact Clear.before (r := t.toRead) hc
    · exact Clear.before (r := t.toRead) (Clear.before (r := t.cursor.skipInBlock) hc)
  obtain ⟨t', ht', hagree⟩ := h.next?_eq_some hcClear ht
  simp only [ht', hagree.kind]
  split at hc
  · next hbrace =>
    simp only [if_pos hbrace]
    exact h
  next hbrace =>
  simp only [if_neg hbrace]
  split at hc
  · next hsemicolon =>
    simp only [if_pos hsemicolon]
    exact hagree.cursor
  · next hsemicolon =>
    simp only [if_neg hsemicolon]
    exact hagree.cursor.skipInBlock hc
termination_by c.rest.length

theorem resumeInBlock {t t' : Token} (h : s.Twin c c') (hkind : t'.kind = t.kind)
    (hc : s.Clear (c.resumeInBlock t).cursor) : s.Twin (c.resumeInBlock t).cursor (c'.resumeInBlock t').cursor := by
  unfold Cursor.resumeInBlock at hc ⊢
  rw [hkind]
  split at hc
  · next hsemicolon =>
    simp only [if_pos hsemicolon]
    exact h
  · next hsemicolon =>
    simp only [if_neg hsemicolon]
    exact h.skipInBlock hc

theorem abandon (h : s.Twin c c') (issue : SyntaxIssue) (hc : s.Clear (c.abandon issue).cursor) :
    s.Agree (Option.map (Stmt.relabel s.label)) (c.abandon issue) (c'.abandon issue) :=
  ⟨rfl, (h.note (Clear.before (r := c.abandon issue) hc) issue).skipInBlock hc⟩

theorem nameStatement (name : Ident) (h : s.Twin c c') (hc : s.Clear (c.nameStatement name).cursor) :
    s.Agree (Option.map (Stmt.relabel s.label)) (c.nameStatement name)
      (c'.nameStatement (name.relabel s.label)) := by
  unfold Cursor.nameStatement at hc ⊢
  split at hc
  · next paren hparen =>
    have hargsClear : s.Clear paren.cursor.args.cursor := Clear.inner hc
    have hparenClear := Clear.before (r := paren.toRead) hargsClear.before
    obtain ⟨paren', hparen', hagree⟩ := h.accept_eq_some hparenClear hparen
    have hargs := hagree.cursor.args hargsClear
    have hfinish := hargs.cursor.finish (Eq.refl (s.move name.span)) (.call name paren.cursor.args.value)
      (.call (name.relabel s.label) paren'.cursor.args.value) (fun span => by rw [hargs.value]; rfl) hc
    simp only [hparen']
    exact ⟨hfinish.value, hfinish.cursor⟩
  next hparen =>
  dsimp only at hc ⊢
  have htargetClear : s.Clear (c.location name).cursor := by
    split at hc
    · next sign hsign => exact Clear.before (r := sign.toRead) (Clear.before (r := sign.cursor.expr) (Clear.inner hc))
    split at hc
    · next sign hsign => exact Clear.before (r := sign.toRead) (Clear.inner hc)
    split at hc
    · next sign hsign => exact Clear.before (r := sign.toRead) (Clear.inner hc)
    · exact Clear.inner hc
  have htarget := h.location name htargetClear
  simp only [h.accept_eq_none htargetClear.before hparen]
  split at hc
  · next sign hsign =>
    obtain ⟨sign', hsign', hagree⟩ := htarget.cursor.accept_eq_some htargetClear hsign
    have hvalueClear : s.Clear sign.cursor.expr.cursor := Clear.inner hc
    have hvalue := hagree.cursor.expr hvalueClear
    have hfinish := hvalue.cursor.finish (Eq.refl (s.move name.span))
      (.assign (c.location name).value sign.cursor.expr.value)
      (.assign (c'.location (name.relabel s.label)).value sign'.cursor.expr.value)
      (fun span => by rw [htarget.value, hvalue.value]; rfl) hc
    simp only [hsign']
    exact ⟨hfinish.value, hfinish.cursor⟩
  next hassign =>
  simp only [htarget.cursor.accept_eq_none htargetClear hassign]
  split at hc
  · next sign hsign =>
    obtain ⟨sign', hsign', hfinish⟩ :=
      finish_signed htarget htargetClear hsign (Eq.refl (s.move name.span)) .increment (fun _ _ => rfl) hc
    simp only [hsign']
    exact ⟨hfinish.value, hfinish.cursor⟩
  next hplus =>
  simp only [htarget.cursor.accept_eq_none htargetClear hplus]
  split at hc
  · next sign hsign =>
    obtain ⟨sign', hsign', hfinish⟩ :=
      finish_signed htarget htargetClear hsign (Eq.refl (s.move name.span)) .decrement (fun _ _ => rfl) hc
    simp only [hsign']
    exact ⟨hfinish.value, hfinish.cursor⟩
  next hminus =>
  simp only [htarget.cursor.accept_eq_none htargetClear hminus]
  have habandon := htarget.cursor.abandon .assignmentExpected hc
  exact ⟨habandon.value, habandon.cursor⟩

theorem inputStatement {start start' : Span} (h : s.Twin c c') (hstart : start' = s.move start)
    (hc : s.Clear (c.inputStatement start).cursor) :
    s.Agree (Option.map (Stmt.relabel s.label)) (c.inputStatement start) (c'.inputStatement start') := by
  unfold Cursor.inputStatement at hc ⊢
  dsimp only at hc ⊢
  have harrowClear : s.Clear (c.expect .shiftRight).cursor := by
    split at hc
    · exact Clear.inner hc
    next t ht =>
    split at hc
    · next name _ =>
      exact Clear.before (r := t.toRead) (Clear.before (r := t.cursor.location ⟨name, t.value.span, none⟩)
        (Clear.inner hc))
    · exact Clear.inner hc
  have harrow := h.expect harrowClear.before .shiftRight
  split at hc
  · next ht =>
    simp only [harrow.cursor.next?_eq_none harrowClear ht]
    have habandon := harrow.cursor.abandon .inputTargetExpected hc
    exact ⟨habandon.value, habandon.cursor⟩
  next t ht =>
  obtain ⟨t', ht', hagree⟩ := harrow.cursor.next?_eq_some harrowClear ht
  split at hc
  · next name hk =>
    have htargetClear : s.Clear (t.cursor.location ⟨name, t.value.span, none⟩).cursor := Clear.inner hc
    have hname : Ident.relabel s.label ⟨name, t.value.span, none⟩ = ⟨name, t'.value.span, none⟩ := by
      rw [hagree.span]
      rfl
    have htarget := hagree.cursor.location ⟨name, t.value.span, none⟩ htargetClear
    rw [hname] at htarget
    have hfinish := htarget.cursor.finish hstart (.read (t.cursor.location ⟨name, t.value.span, none⟩).value)
      (.read (t'.cursor.location ⟨name, t'.value.span, none⟩).value) (fun span => by rw [htarget.value]; rfl) hc
    simp only [ht', hagree.kind, hk]
    exact ⟨hfinish.value, hfinish.cursor⟩
  · next hk =>
    simp only [ht', hagree.kind]
    have habandon := harrow.cursor.abandon .inputTargetExpected hc
    exact ⟨habandon.value, habandon.cursor⟩

theorem outputStatement {start start' : Span} (h : s.Twin c c') (hstart : start' = s.move start)
    (hc : s.Clear (c.outputStatement start).cursor) :
    s.Agree (Option.map (Stmt.relabel s.label)) (c.outputStatement start) (c'.outputStatement start') := by
  unfold Cursor.outputStatement at hc ⊢
  have hvalueClear : s.Clear (c.expect .shiftLeft).cursor.expr.cursor := Clear.inner hc
  have harrow := h.expect (Clear.before (r := c.expect .shiftLeft) hvalueClear.before) .shiftLeft
  have hvalue := harrow.cursor.expr hvalueClear
  have hfinish := hvalue.cursor.finish hstart (.write (c.expect .shiftLeft).cursor.expr.value)
    (.write (c'.expect .shiftLeft).cursor.expr.value) (fun span => by rw [hvalue.value]; rfl) hc
  exact ⟨hfinish.value, hfinish.cursor⟩

theorem returnStatement {start start' : Span} (h : s.Twin c c') (hstart : start' = s.move start)
    (hc : s.Clear (c.returnStatement start).cursor) :
    s.Agree (Option.map (Stmt.relabel s.label)) (c.returnStatement start) (c'.returnStatement start') := by
  have hcClear : s.Clear c := Clear.before (r := c.returnStatement start) hc
  unfold Cursor.returnStatement at hc ⊢
  rw [h.isAt hcClear]
  split at hc
  · next hat =>
    simp only [if_pos hat]
    exact h.finish hstart _ _ (fun span => rfl) hc
  · next hat =>
    have hvalueClear : s.Clear c.expr.cursor := Clear.inner hc
    have hvalue := h.expr hvalueClear
    have hfinish := hvalue.cursor.finish hstart (.ret (some c.expr.value)) (.ret (some c'.expr.value))
      (fun span => by rw [hvalue.value]; rfl) hc
    simp only [if_neg hat]
    exact ⟨hfinish.value, hfinish.cursor⟩

/-! ## Blocks -/

mutual

theorem block {c c' : Cursor} (h : s.Twin c c') (hc : s.Settled c.block) :
    s.Agree (Block.relabel s.label) c.block c'.block := by
  have hopeningLength := (c.expect .lbrace).length_le
  have hlocalsLength := (c.expect .lbrace).cursor.locals.length_le
  have hbodyClear := hc.block_clear
  rw [Cursor.block, Cursor.block]
  have hlocalsClear := hbodyClear.before
  have hopeningClear := hlocalsClear.before
  have hopening := h.expect hopeningClear.before .lbrace
  have hlocals := hopening.cursor.locals hlocalsClear
  have hbody := hlocals.cursor.statements hbodyClear
  have hclose := hbody.cursor.expect hbodyClear .rbrace
  refine ⟨?_, hclose.cursor⟩
  show Block.mk _ _ (Span.merge _ _) = Block.mk _ _ (s.move (Span.merge _ _))
  rw [hclose.cursor.lastSpan_known (hbodyClear.known_expect .rbrace), hlocals.value, hbody.value, hopening.value,
    ← s.move_merge]
termination_by 3 * c.rest.length + 1
decreasing_by omega

theorem statements {c c' : Cursor} (h : s.Twin c c') (hc : s.Clear c.statements.cursor) :
    s.Agree (Stmt.relabelAll s.label) c.statements c'.statements := by
  have hcClear : s.Clear c := hc.before
  rw [Cursor.statements] at hc
  rw [Cursor.statements, Cursor.statements]
  split at hc
  · next ht =>
    simp only [h.next?_eq_none hc ht]
    exact ⟨rfl, h⟩
  next t ht =>
  have hshorter := t.shorter
  have hlength := (t.cursor.statement t.value).length_le
  obtain ⟨t', ht', hagree⟩ := h.next?_eq_some hcClear ht
  simp only [ht', hagree.kind]
  split at hc
  · next hbrace =>
    simp only [if_pos hbrace]
    exact ⟨rfl, h⟩
  · next hbrace =>
    have hfirstClear : s.Clear (t.cursor.statement t.value).cursor :=
      Clear.before (r := (t.cursor.statement t.value).cursor.statements) hc
    have hfirst := hagree.cursor.statement t.value hfirstClear
    rw [← hagree.value] at hfirst
    have hmore := hfirst.cursor.statements hc
    simp only [if_neg hbrace]
    refine ⟨?_, hmore.cursor⟩
    show Option.toList _ ++ _ = Stmt.relabelAll _ (Option.toList _ ++ _)
    rw [hfirst.value, hmore.value]
    cases (t.cursor.statement t.value).value <;> rfl
termination_by 3 * c.rest.length
decreasing_by
  · omega
  · omega

theorem statement {c c' : Cursor} (t : Token) (h : s.Twin c c') (hc : s.Clear (c.statement t).cursor) :
    s.Agree (Option.map (Stmt.relabel s.label)) (c.statement t) (c'.statement (t.mapSpan s.move)) := by
  have hcondLength := c.condition.length_le
  have hyesLength := c.condition.cursor.block.length_le
  have hkind : (t.mapSpan s.move).kind = t.kind := rfl
  have hcond (hyes : s.Clear c.condition.cursor.block.cursor) := h.condition hyes.before
  have hyes (hyes : s.Clear c.condition.cursor.block.cursor) := (hcond hyes).cursor.block (.inl hyes)
  rw [Cursor.statement] at hc
  rw [Cursor.statement, Cursor.statement, hkind]
  split at hc
  · next name hk =>
    exact h.nameStatement ⟨name, t.span, none⟩ hc
  · exact h.inputStatement rfl hc
  · exact h.outputStatement rfl hc
  · exact h.returnStatement rfl hc
  · dsimp only at hc ⊢
    split at hc
    · next hword =>
      have hyes := hyes hc
      simp only [hyes.cursor.acceptKind_eq_none hc hword]
      refine ⟨?_, hyes.cursor⟩
      show some (Stmt.ifThen _ _ (Span.merge _ _)) = some (Stmt.ifThen _ _ (s.move (Span.merge _ _)))
      rw [(hcond hc).value, hyes.value, hyes.cursor.lastSpan hc, s.move_merge]
      rfl
    · next word hword =>
      have hshorter := word.shorter
      have hwordClear : s.Clear word.cursor := Clear.before (r := word.cursor.block) hc
      have hyesClear := Clear.before (r := word.toRead) hwordClear
      have hyes := hyes hyesClear
      obtain ⟨word', hword', hagree⟩ := hyes.cursor.acceptKind_eq_some hyesClear hword
      have hno := hagree.cursor.block (.inl hc)
      simp only [hword']
      refine ⟨?_, hno.cursor⟩
      show some (Stmt.ifElse _ _ _ (Span.merge _ _)) = some (Stmt.ifElse _ _ _ (s.move (Span.merge _ _)))
      rw [(hcond hyesClear).value, hyes.value, hno.value, hno.cursor.lastSpan hc, s.move_merge]
      rfl
  · have hbody := hyes hc
    refine ⟨?_, hbody.cursor⟩
    show some (Stmt.whileLoop _ _ (Span.merge _ _)) = some (Stmt.whileLoop _ _ (s.move (Span.merge _ _)))
    rw [(hcond hc).value, hbody.value, hbody.cursor.lastSpan hc, s.move_merge]
    rfl
  · have hbody := hyes hc
    refine ⟨?_, hbody.cursor⟩
    show some (Stmt.repeatLoop _ _ (Span.merge _ _)) = some (Stmt.repeatLoop _ _ (s.move (Span.merge _ _)))
    rw [(hcond hc).value, hbody.value, hbody.cursor.lastSpan hc, s.move_merge]
    rfl
  · have hcursor := (h.noteAt rfl _).resumeInBlock hkind hc
    exact ⟨rfl, hcursor⟩
termination_by 3 * c.rest.length + 2
decreasing_by
  · omega
  · omega

end

end Twin

end Namescope.Seam
