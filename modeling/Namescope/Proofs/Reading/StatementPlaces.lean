import Namescope.Proofs.Reading.ExpressionPlaces
/-!
# Statements are read at their places

Reading a type, a variable, a statement or a block is a path of the cursor. If nothing is noted on it, what is
read lies over the tokens taken.
-/
namespace Namescope

namespace Cursor

variable {c d : Cursor}

/-! ## Types and variables -/

theorem type?_covers {type : Step TypeRef c} (h : c.type? = some type) : type.Covers TypeRef.LiesOver := by
  unfold type? at h
  split at h
  · cases h
  next t ht =>
  split at h
  · next hkind =>
    cases h
    refine (leads_next_of_kind ht hkind).imp ?_
    rintro _ - - rfl
    exact .int _
  · next hkind =>
    cases h
    refine (leads_next_of_kind ht hkind).imp ?_
    rintro _ - - rfl
    exact .bool _
  · next hkind =>
    cases h
    refine (leads_next_of_kind ht hkind).imp ?_
    rintro _ - - rfl
    exact .void _
  · next hkind =>
    cases h
    refine ((leads_next_of_kind ht hkind).andThen (leads_ident _)).imp ?_
    rintro _ hgoes hall ⟨_, _, rfl, rfl, rfl⟩
    have hspan := hgoes.merge_lastSpan hall (by simp) (here_of_next ht)
    show TypeRef.LiesOver _ ⟨_, Span.merge _ _⟩
    exact hspan ▸ .struct _ _
  · cases h

theorem formal?_covers {formal : Step Binding c} (h : c.formal? = some formal) :
    formal.Covers Binding.FormalOver := by
  obtain ⟨type, htype, rfl⟩ := Option.map_eq_some_iff.1 h
  refine ((type?_covers htype).andThen (leads_ident _)).imp ?_
  rintro _ hgoes hall ⟨ts, _, rfl, htype, rfl⟩
  have hspan := hgoes.merge_lastSpan hall (by simp) rfl
  show Binding.FormalOver _ ⟨_, _, Span.merge _ _⟩
  exact hspan ▸ .mk _ rfl htype

theorem binding?_covers {binding : Step Binding c} (h : c.binding? = some binding) :
    binding.Covers Binding.VariableOver := by
  obtain ⟨type, htype, rfl⟩ := Option.map_eq_some_iff.1 h
  refine ((type?_covers htype).andThen ((leads_ident _).andThen (leads_expect _ .semicolon))).imp ?_
  rintro _ hgoes hall ⟨ts, _, rfl, htype, _, _, rfl, rfl, rfl⟩
  have hspan := hgoes.merge_lastSpan hall (by simp) rfl
  show Binding.VariableOver _ ⟨_, _, Span.merge _ _⟩
  exact hspan ▸ .mk _ _ rfl htype

theorem locals_covers (c : Cursor) : c.locals.Covers (AllOver Binding.VariableOver) := by
  fun_induction locals c with
  | case1 c h => exact .stay .nil
  | case2 c first h more ih =>
    refine ((binding?_covers h).andThen ih).imp ?_
    rintro _ - - ⟨ts, us, rfl, hfirst, hmore⟩
    exact .cons hfirst hmore

/-! ## Simple statements -/

theorem condition_covers (c : Cursor) : c.condition.Covers Expr.ConditionOver := by
  refine ((c.leads_expect .lparen).andThen ((expr_covers _).andThen (leads_expect _ .rparen))).imp ?_
  rintro _ - - ⟨_, _, rfl, rfl, ts, _, rfl, he, rfl⟩
  exact .mk _ _ he

theorem leads_skipInBlock (c : Cursor) : c.Leads c.skipInBlock.cursor fun _ => True := by
  fun_induction skipInBlock c with
  | case1 | case2 => exact .stay trivial
  | case3 c t ht => exact (leads_next ht).imp fun _ _ _ _ => trivial
  | case4 c t ht _ _ ih => exact ((leads_next ht).andThen ih).imp fun _ _ _ _ => trivial

theorem leads_resumeInBlock (c : Cursor) (t : Token) : c.Leads (c.resumeInBlock t).cursor fun _ => True := by
  unfold resumeInBlock
  split
  · exact .stay trivial
  · exact c.leads_skipInBlock

theorem leads_abandon (c : Cursor) (issue : SyntaxIssue) (P : List Token → Prop) :
    c.Leads (c.abandon issue).cursor P :=
  (c.leads_note issue _).notesThen (leads_skipInBlock _)

/-- The path to what was read from `d` on covers a statement that begins at `c`. -/
def CoversStmt (c : Cursor) {d : Cursor} (r : Read (Option Stmt) d) : Prop :=
  c.Leads r.cursor fun ts => ∃ s, r.value = some s ∧ s.LiesOver ts

/-- A simple statement goes from its first token to its semicolon. -/
theorem Leads.finish {P : List Token → Prop} (h : c.Leads d P) {start : Span} (hstart : c.here = start)
    {statement : Span → Stmt} (hP : ∀ ts, P ts → Stmt.SimpleOver ts statement) :
    c.CoversStmt (d.finish start statement) := by
  refine (h.andThen (d.leads_expect .semicolon)).imp ?_
  rintro _ hgoes hall ⟨ts, _, rfl, hts, rfl⟩
  have hspan := hgoes.merge_lastSpan hall (by simp) hstart
  exact ⟨_, rfl, .simple _ rfl (hP ts hts) (congrArg statement hspan)⟩

section
variable {t : Step Token c} (ht : c.next? = some t)
include ht

theorem nameStatement_covers {name : String} (hkind : t.value.kind = .ident name) :
    c.CoversStmt (t.cursor.nameStatement ⟨name, t.value.span, none⟩) := by
  have hstart := here_of_next ht
  unfold nameStatement
  split
  · next paren hparen =>
    refine ((leads_next_of_kind ht hkind).andThen ((leads_accept hparen).andThen (args_covers _))).finish hstart ?_
    rintro _ ⟨_, _, rfl, rfl, _, _, rfl, rfl, ts, closing, rfl, hargs⟩
    exact .call ⟨name, _, none⟩ _ _ hargs
  dsimp only
  have htarget := leads_location ht hkind
  split
  · next sign hsign =>
    refine (htarget.andThen ((leads_accept hsign).andThen (expr_covers _))).finish hstart ?_
    rintro _ ⟨ts, _, rfl, htarget, _, us, rfl, rfl, hvalue⟩
    exact .assign _ htarget hvalue
  split
  · next sign hsign =>
    refine (htarget.andThen (leads_accept hsign)).finish hstart ?_
    rintro _ ⟨ts, _, rfl, htarget, rfl⟩
    exact .increment _ htarget
  split
  · next sign hsign =>
    refine (htarget.andThen (leads_accept hsign)).finish hstart ?_
    rintro _ ⟨ts, _, rfl, htarget, rfl⟩
    exact .decrement _ htarget
  · exact htarget.thenNotes (leads_abandon ..)

theorem inputStatement_covers (hkind : t.value.kind = .keyword .cin) :
    c.CoversStmt (t.cursor.inputStatement t.value.span) := by
  have hfirst := (leads_next_of_kind ht hkind).andThen (t.cursor.leads_expect .shiftRight)
  unfold inputStatement
  dsimp only
  split
  · exact hfirst.thenNotes (leads_abandon ..)
  next u hu =>
  split
  · next name huKind =>
    refine (hfirst.andThen (leads_location hu huKind)).finish (here_of_next ht) ?_
    rintro _ ⟨_, ts, rfl, ⟨_, _, rfl, rfl, rfl⟩, htarget⟩
    exact .read _ _ htarget
  · exact hfirst.thenNotes (leads_abandon ..)

theorem outputStatement_covers (hkind : t.value.kind = .keyword .cout) :
    c.CoversStmt (t.cursor.outputStatement t.value.span) := by
  refine ((leads_next_of_kind ht hkind).andThen ((leads_expect _ .shiftLeft).andThen (expr_covers _))).finish
    (here_of_next ht) ?_
  rintro _ ⟨_, _, rfl, rfl, _, ts, rfl, rfl, hvalue⟩
  exact .write _ _ hvalue

theorem returnStatement_covers (hkind : t.value.kind = .keyword .returnWord) :
    c.CoversStmt (t.cursor.returnStatement t.value.span) := by
  unfold returnStatement
  split
  · refine (leads_next_of_kind ht hkind).finish (here_of_next ht) ?_
    rintro _ rfl
    exact .ret _
  · refine ((leads_next_of_kind ht hkind).andThen (expr_covers _)).finish (here_of_next ht) ?_
    rintro _ ⟨_, ts, rfl, rfl, hvalue⟩
    exact .retValue _ hvalue

end

/-- A word, a condition and a block: what a compound statement begins with. -/
theorem leads_guarded {t : Step Token c} (ht : c.next? = some t) {word : Keyword}
    (hkind : t.value.kind = .keyword word) (hblock : t.cursor.condition.cursor.block.Covers Block.LiesOver) :
    c.Leads t.cursor.condition.cursor.block.cursor fun ts => ∃ us vs,
      ts = ⟨.keyword word, t.value.span⟩ :: (us ++ vs) ∧ t.cursor.condition.value.ConditionOver us ∧
        t.cursor.condition.cursor.block.value.LiesOver vs := by
  refine ((leads_next_of_kind ht hkind).andThen ((condition_covers _).andThen hblock)).imp ?_
  rintro _ - - ⟨_, _, rfl, rfl, us, vs, rfl, hus, hvs⟩
  exact ⟨us, vs, rfl, hus, hvs⟩

/-! ## Blocks -/

mutual

theorem block_covers (c : Cursor) : c.block.Covers Block.LiesOver := by
  have hopening := (c.expect .lbrace).length_le
  have hlocals := (c.expect .lbrace).cursor.locals.length_le
  rw [block]
  refine ((c.leads_expect .lbrace).andThen (((locals_covers _).andThen (statements_covers _)).andThen
    (leads_expect _ .rbrace))).imp ?_
  rintro _ hgoes hall ⟨_, _, rfl, rfl, _, _, rfl, ⟨ts, us, rfl, hts, hus⟩, rfl⟩
  have hspan := hgoes.merge_lastSpan hall (by simp) hgoes.here_eq
  show Block.LiesOver _ (.mk _ _ (Span.merge _ _))
  exact hspan ▸ .mk _ _ rfl hts hus
termination_by 3 * c.rest.length + 1
decreasing_by omega

theorem statements_covers (c : Cursor) : c.statements.Covers Stmt.ListOver := by
  rw [statements]
  split
  · exact .stay .nil
  next t ht =>
  have hshorter := t.shorter
  split
  · exact .stay .nil
  have hlength := (t.cursor.statement t.value).length_le
  refine ((statement_covers ht).andThen (statements_covers _)).imp ?_
  rintro _ - - ⟨ts, us, rfl, ⟨s, hvalue, hs⟩, hmore⟩
  show Stmt.ListOver _ ((t.cursor.statement t.value).value.toList ++ _)
  rw [hvalue]
  exact .cons hs hmore
termination_by 3 * c.rest.length
decreasing_by
  · omega
  · omega

theorem statement_covers {c : Cursor} {t : Step Token c} (ht : c.next? = some t) :
    c.CoversStmt (t.cursor.statement t.value) := by
  have hcondLength := t.cursor.condition.length_le
  have hyes := block_covers t.cursor.condition.cursor
  have hyesLength := t.cursor.condition.cursor.block.length_le
  rw [statement]
  split
  · next name hkind => exact nameStatement_covers ht hkind
  · next hkind => exact inputStatement_covers ht hkind
  · next hkind => exact outputStatement_covers ht hkind
  · next hkind => exact returnStatement_covers ht hkind
  · next hkind =>
    have hguarded := leads_guarded ht hkind hyes
    dsimp only
    split
    · refine hguarded.imp ?_
      rintro _ hgoes hall ⟨us, vs, rfl, hus, hvs⟩
      have hspan := hgoes.merge_lastSpan hall (by simp) (here_of_next ht)
      exact ⟨_, rfl, hspan ▸ .ifThen _ rfl hus hvs⟩
    · next word hword =>
      have hshorter := word.shorter
      refine (hguarded.andThen ((leads_acceptKind hword).andThen (block_covers word.cursor))).imp ?_
      rintro _ hgoes hall ⟨_, _, rfl, ⟨us, vs, rfl, hus, hvs⟩, _, ws, rfl, rfl, hws⟩
      have hspan := hgoes.merge_lastSpan hall (by simp) (here_of_next ht)
      exact ⟨_, rfl, hspan ▸ .ifElse _ _ rfl hus hvs hws⟩
  · next hkind =>
    refine (leads_guarded ht hkind hyes).imp ?_
    rintro _ hgoes hall ⟨us, vs, rfl, hus, hvs⟩
    have hspan := hgoes.merge_lastSpan hall (by simp) (here_of_next ht)
    exact ⟨_, rfl, hspan ▸ .whileLoop _ rfl hus hvs⟩
  · next hkind =>
    refine (leads_guarded ht hkind hyes).imp ?_
    rintro _ hgoes hall ⟨us, vs, rfl, hus, hvs⟩
    have hspan := hgoes.merge_lastSpan hall (by simp) (here_of_next ht)
    exact ⟨_, rfl, hspan ▸ .repeatLoop _ rfl hus hvs⟩
  · exact (leads_next_noteAt ht _ _).notesThen (leads_resumeInBlock _ t.value)
termination_by 3 * t.cursor.rest.length + 2
decreasing_by
  · omega
  · omega

end

end Cursor

end Namescope
