import Namescope.Proofs.Reading.Expression
/-!
# Statements are read by the grammar

What is read silently as a block is derived by its tokens, and the other way round.
-/
namespace Namescope

namespace Cursor

/-! ## What is read as a type or a variable -/

theorem type?_takes {c : Cursor} {type : Step TypeRef c} (h : c.type? = some type) :
    type.Takes fun ks t => DerivesType ks (t.relabel .unplaced) := by
  unfold type? at h
  split at h
  · cases h
  next t ht =>
  have hnext := moves_next ht
  split at h
  · next hkind =>
    cases h
    refine hnext.imp ?_
    rintro _ rfl
    exact hkind ▸ .int
  · next hkind =>
    cases h
    refine hnext.imp ?_
    rintro _ rfl
    exact hkind ▸ .bool
  · next hkind =>
    cases h
    refine hnext.imp ?_
    rintro _ rfl
    exact hkind ▸ .void
  · next hkind =>
    cases h
    refine (hnext.andThen t.cursor.moves_ident).imp ?_
    rintro _ ⟨_, _, rfl, rfl, name, rfl, hname⟩
    rw [hkind]
    show DerivesType _ ⟨.struct (Ident.relabel .unplaced _), {}⟩
    exact hname ▸ .struct name
  · cases h

theorem formal?_takes {c : Cursor} {formal : Step Binding c} (h : c.formal? = some formal) :
    formal.Takes fun ks b => DerivesFormal ks (b.relabel .unplaced) := by
  obtain ⟨type, htype, rfl⟩ := Option.map_eq_some_iff.1 h
  refine ((type?_takes htype).andThen type.cursor.moves_ident).imp ?_
  rintro _ ⟨ks, _, rfl, hks, name, rfl, hname⟩
  show DerivesFormal _ ⟨_, Ident.relabel .unplaced _, {}⟩
  exact hname ▸ .mk name hks

theorem binding?_takes {c : Cursor} {binding : Step Binding c} (h : c.binding? = some binding) :
    binding.Takes fun ks b => DerivesVariable ks (b.relabel .unplaced) := by
  obtain ⟨type, htype, rfl⟩ := Option.map_eq_some_iff.1 h
  refine (((type?_takes htype).andThen type.cursor.moves_ident).andThen (moves_expect ..)).imp ?_
  rintro _ ⟨_, _, rfl, ⟨ks, _, rfl, hks, name, rfl, hname⟩, rfl⟩
  show DerivesVariable _ ⟨_, Ident.relabel .unplaced _, {}⟩
  exact .mk (hname ▸ .mk name hks)

theorem locals_takes (c : Cursor) :
    c.locals.Takes fun ks bs => DerivesAll DerivesVariable ks (bs.map (Binding.relabel .unplaced)) := by
  fun_induction locals c with
  | case1 c h => exact .stay .nil
  | case2 c first h more ih =>
    refine ((binding?_takes h).andThen ih).imp ?_
    rintro _ ⟨ks, ls, rfl, hfirst, hmore⟩
    exact .cons hfirst hmore

/-! ## What is read as a statement -/

theorem condition_takes (c : Cursor) :
    c.condition.Takes fun ks e => DerivesCondition ks (e.relabel .unplaced) := by
  refine ((c.moves_expect .lparen).andThen ((expr_takes _).andThen (moves_expect ..))).imp ?_
  rintro _ ⟨_, _, rfl, rfl, ks, _, rfl, he, rfl⟩
  exact .mk he

theorem findings_skipInBlock (c : Cursor) : c.skipInBlock.cursor.findings = c.findings := by
  fun_induction skipInBlock c with
  | case1 | case2 => rfl
  | case3 c t h => exact findings_next h
  | case4 c t h _ _ ih => exact ih.trans (findings_next h)

theorem findings_resumeInBlock (c : Cursor) (t : Token) : (c.resumeInBlock t).cursor.findings = c.findings := by
  unfold resumeInBlock
  split
  · rfl
  · exact c.findings_skipInBlock

/-- A failure is noted. -/
theorem abandon_notes (c : Cursor) (issue : SyntaxIssue) :
    c.findings.length < (c.abandon issue).cursor.findings.length := by
  show _ < (c.note issue).skipInBlock.cursor.findings.length
  rw [findings_skipInBlock]
  exact c.length_findings_lt_noteAt ..

/-- The kinds that a read takes are those of a statement behind its first one. -/
def ReadsStmt (head : TokenKind) {c : Cursor} (r : Read (Option Stmt) c) : Prop :=
  r.Takes fun ks s? => ∃ s, s? = some s ∧ DerivesStmt (head :: ks) (s.relabel .unplaced)

/-- A simple statement goes up to its semicolon. -/
theorem Moves.finish {c d : Cursor} {P : List TokenKind → Prop} (h : c.Moves d P) (start : Span)
    (statement : Span → Stmt) (head : TokenKind)
    (hs : ∀ ks stop, P ks → DerivesSimple (head :: ks) ((statement stop).relabel .unplaced)) :
    c.Moves (d.finish start statement).cursor fun ks =>
      ∃ s, (d.finish start statement).value = some s ∧ DerivesStmt (head :: ks) (s.relabel .unplaced) := by
  refine (h.andThen (d.moves_expect .semicolon)).imp ?_
  rintro _ ⟨ks, _, rfl, hks, rfl⟩
  exact ⟨_, rfl, .simple (hs ks _ hks)⟩

theorem nameStatement_reads (name : String) (span : Span) (c : Cursor) :
    ReadsStmt (.ident name) (c.nameStatement ⟨name, span, none⟩) := by
  unfold nameStatement
  split
  · next paren hparen =>
    refine ((moves_accept hparen).andThen (args_takes _)).finish span (.call ⟨name, span, none⟩ _) _ ?_
    rintro _ stop ⟨_, _, rfl, rfl, ks, rfl, hargs⟩
    exact .call name hargs
  · dsimp only
    have htarget := location_takes name span c
    split
    · next sign hsign =>
      refine (htarget.andThen ((moves_accept hsign).andThen (expr_takes _))).finish span (.assign _ _) _ ?_
      rintro _ stop ⟨ks, _, rfl, ⟨location, hvalue, hlocation⟩, _, ls, rfl, rfl, he⟩
      rw [Stmt.relabel, hvalue]
      exact .assign hlocation he
    split
    · next sign hsign =>
      refine (htarget.andThen (moves_accept hsign)).finish span (.increment _) _ ?_
      rintro _ stop ⟨ks, _, rfl, ⟨location, hvalue, hlocation⟩, rfl⟩
      rw [Stmt.relabel, hvalue]
      exact .increment hlocation
    split
    · next sign hsign =>
      refine (htarget.andThen (moves_accept hsign)).finish span (.decrement _) _ ?_
      rintro _ stop ⟨ks, _, rfl, ⟨location, hvalue, hlocation⟩, rfl⟩
      rw [Stmt.relabel, hvalue]
      exact .decrement hlocation
    · exact .inl (Nat.lt_of_le_of_lt htarget.length_le (abandon_notes ..))

theorem inputStatement_reads (start : Span) (c : Cursor) :
    ReadsStmt (.keyword .cin) (c.inputStatement start) := by
  unfold inputStatement
  dsimp only
  have harrow := c.moves_expect .shiftRight
  split
  · exact .inl (Nat.lt_of_le_of_lt harrow.length_le (abandon_notes ..))
  next t ht =>
  split
  · next name hkind =>
    refine (harrow.andThen ((moves_next ht).andThen (location_takes name t.value.span _))).finish start
      (.read _) _ ?_
    rintro _ stop ⟨_, _, rfl, rfl, _, ks, rfl, rfl, location, hvalue, hlocation⟩
    rw [Stmt.relabel, hvalue, hkind]
    exact .read hlocation
  · exact .inl (Nat.lt_of_le_of_lt harrow.length_le (abandon_notes ..))

theorem outputStatement_reads (start : Span) (c : Cursor) :
    ReadsStmt (.keyword .cout) (c.outputStatement start) := by
  refine ((c.moves_expect .shiftLeft).andThen (expr_takes _)).finish start (.write _) _ ?_
  rintro _ stop ⟨_, ks, rfl, rfl, he⟩
  exact .write he

theorem returnStatement_reads (start : Span) (c : Cursor) :
    ReadsStmt (.keyword .returnWord) (c.returnStatement start) := by
  unfold returnStatement
  split
  · refine (Moves.stay (P := (· = [])) rfl).finish start (.ret none) _ ?_
    rintro _ stop rfl
    exact .ret
  · refine Moves.finish (expr_takes _) start (fun stop => .ret (some _) stop) _ ?_
    intro ks stop he
    exact .retValue he

mutual

theorem block_takes (c : Cursor) : c.block.Takes fun ks b => DerivesBlock ks (b.relabel .unplaced) := by
  have hopening := (c.expect .lbrace).length_le
  have hlocals := (c.expect .lbrace).cursor.locals.length_le
  rw [block]
  refine ((c.moves_expect .lbrace).andThen ((locals_takes _).andThen
    ((statements_takes _).andThen (moves_expect ..)))).imp ?_
  rintro _ ⟨_, _, rfl, rfl, ks, _, rfl, hks, ls, _, rfl, hls, rfl⟩
  have := DerivesBlock.mk hks hls
  rw [List.append_assoc] at this
  exact this
termination_by 3 * c.rest.length + 1
decreasing_by omega

theorem statements_takes (c : Cursor) :
    c.statements.Takes fun ks body => DerivesStmts ks (Stmt.relabelAll .unplaced body) := by
  rw [statements]
  split
  · exact .stay .nil
  next t ht =>
  have hshorter := t.shorter
  split
  · exact .stay .nil
  have hlength := (t.cursor.statement t.value).length_le
  refine ((moves_next ht).andThen (Moves.andThen (statement_reads t.value t.cursor) (statements_takes _))).imp ?_
  rintro _ ⟨_, _, rfl, rfl, ks, ls, rfl, ⟨s, hvalue, hs⟩, hmore⟩
  show DerivesStmts _ (Stmt.relabelAll _ ((t.cursor.statement t.value).value.toList ++ _))
  rw [hvalue, ← List.append_assoc]
  exact .cons hs hmore
termination_by 3 * c.rest.length
decreasing_by
  · omega
  · omega

theorem statement_reads (t : Token) (c : Cursor) : ReadsStmt t.kind (c.statement t) := by
  have hcond := condition_takes c
  have hcondLength := c.condition.length_le
  have hyes := block_takes c.condition.cursor
  have hyesLength := c.condition.cursor.block.length_le
  rw [statement]
  split
  · next name hkind =>
    rw [hkind]
    exact nameStatement_reads ..
  · next hkind =>
    rw [hkind]
    exact inputStatement_reads ..
  · next hkind =>
    rw [hkind]
    exact outputStatement_reads ..
  · next hkind =>
    rw [hkind]
    exact returnStatement_reads ..
  · next hkind =>
    rw [hkind]
    dsimp only
    split
    · refine (hcond.andThen hyes).imp ?_
      rintro _ ⟨ks, ls, rfl, hks, hls⟩
      exact ⟨_, rfl, .ifThen hks hls⟩
    · next word hword =>
      have hshorter := word.shorter
      refine (hcond.andThen (hyes.andThen ((moves_acceptKind hword).andThen (block_takes word.cursor)))).imp ?_
      rintro _ ⟨ks, _, rfl, hks, ls, _, rfl, hls, _, ms, rfl, rfl, hms⟩
      have := DerivesStmt.ifElse hks hls hms
      rw [List.append_assoc] at this
      exact ⟨_, rfl, this⟩
  · next hkind =>
    rw [hkind]
    refine (hcond.andThen hyes).imp ?_
    rintro _ ⟨ks, ls, rfl, hks, hls⟩
    exact ⟨_, rfl, .whileLoop hks hls⟩
  · next hkind =>
    rw [hkind]
    refine (hcond.andThen hyes).imp ?_
    rintro _ ⟨ks, ls, rfl, hks, hls⟩
    exact ⟨_, rfl, .repeatLoop hks hls⟩
  · dsimp only
    refine .inl ?_
    show _ < ((c.noteAt ..).resumeInBlock t).cursor.findings.length
    rw [findings_resumeInBlock]
    exact c.length_findings_lt_noteAt ..
termination_by 3 * c.rest.length + 2
decreasing_by
  · omega
  · omega

end

/-! ## What is derived is read as a type or a variable -/

variable {c : Cursor} {more : List TokenKind}

/-- No type begins here. -/
def NoType (ks : List TokenKind) : Prop := ∀ k ∈ ks.head?, k.startsType = false

theorem type?_eq_none (h : NoType c.kinds) : c.type? = none := by
  unfold type?
  rcases c.next?_cases with ⟨hnone, -⟩ | ⟨t, ht, hkinds, -⟩
  · rw [hnone]
  · have hkind := h t.value.kind (by rw [hkinds]; rfl)
    rw [ht]
    dsimp only
    split
    case h_5 => rfl
    all_goals
      next hk =>
      rw [hk] at hkind
      cases hkind

theorem type?_exact {ks : List TokenKind} {type : TypeRef} (h : DerivesType ks type) (hkinds : c.kinds = ks ++ more) :
    ∃ t, c.type? = some t ∧ t.Exact more (·.relabel .unplaced = type) := by
  unfold type?
  cases h with
  | int | bool | void =>
    obtain ⟨t, ht, htExact⟩ := next?_exact hkinds
    have hkind := htExact.value
    simp only [ht, hkind]
    exact ⟨_, rfl, htExact.kinds, htExact.quiet, rfl⟩
  | struct name =>
    obtain ⟨t, ht, htExact⟩ := next?_exact hkinds
    have hname := ident_exact htExact.kinds
    have hkind := htExact.value
    simp only [ht, hkind]
    refine ⟨_, rfl, hname.kinds, hname.quiet.trans htExact.quiet, ?_⟩
    exact congrArg (fun name => TypeRef.mk (.struct name) {}) hname.value

theorem binding?_eq_none (h : NoType c.kinds) : c.binding? = none := by
  rw [binding?, type?_eq_none h]
  rfl

theorem formal?_exact {ks : List TokenKind} {formal : Binding} (h : DerivesFormal ks formal)
    (hkinds : c.kinds = ks ++ more) :
    ∃ f, c.formal? = some f ∧ f.Exact more (·.relabel .unplaced = formal) := by
  cases h with
  | mk name htype =>
    rw [List.append_assoc] at hkinds
    obtain ⟨t, ht, htExact⟩ := type?_exact htype hkinds
    have hname := ident_exact htExact.kinds
    rw [formal?, ht]
    refine ⟨_, rfl, hname.kinds, hname.quiet.trans htExact.quiet, ?_⟩
    show Binding.mk (t.value.relabel .unplaced) (t.cursor.ident.value.relabel .unplaced) {} = _
    rw [htExact.value, hname.value]

theorem binding?_exact {ks : List TokenKind} {binding : Binding} (h : DerivesVariable ks binding)
    (hkinds : c.kinds = ks ++ more) :
    ∃ b, c.binding? = some b ∧ b.Exact more (·.relabel .unplaced = binding) := by
  obtain ⟨⟨name, htype⟩⟩ := h
  rw [List.append_assoc, List.append_assoc] at hkinds
  obtain ⟨t, ht, htExact⟩ := type?_exact htype hkinds
  have hname := ident_exact htExact.kinds
  have hclose := expect_exact hname.kinds
  rw [binding?, ht]
  refine ⟨_, rfl, hclose.kinds, hclose.quiet.trans (hname.quiet.trans htExact.quiet), ?_⟩
  show Binding.mk (t.value.relabel .unplaced) (t.cursor.ident.value.relabel .unplaced) {} = _
  rw [htExact.value, hname.value]

theorem locals_exact {ks : List TokenKind} {locals : List Binding} (h : DerivesAll DerivesVariable ks locals)
    (hkinds : c.kinds = ks ++ more) (hmore : NoType more) :
    c.locals.Exact more (·.map (Binding.relabel .unplaced) = locals) := by
  induction h generalizing c with
  | nil =>
    rw [Cursor.locals, binding?_eq_none (hkinds ▸ hmore)]
    exact exact_stay hkinds rfl
  | cons hfirst _ ih =>
    rw [List.append_assoc] at hkinds
    obtain ⟨b, hb, hbExact⟩ := binding?_exact hfirst hkinds
    have hrest := ih hbExact.kinds
    rw [Cursor.locals, hb]
    refine ⟨hrest.kinds, hrest.quiet.trans hbExact.quiet, ?_⟩
    show b.value.relabel .unplaced :: List.map _ _ = _
    rw [hbExact.value, hrest.value]

/-! ## What is derived is read as a statement -/

theorem condition_exact {ks : List TokenKind} {e : Expr} (h : DerivesCondition ks e)
    (hkinds : c.kinds = ks ++ more) : c.condition.Exact more (·.relabel .unplaced = e) := by
  obtain ⟨he⟩ := h
  rw [List.append_assoc] at hkinds
  have hparen := expect_exact hkinds
  have hcond := expr_exact he hparen.kinds (follows_cons (by decide))
  have hclose := expect_exact hcond.kinds
  exact ⟨hclose.kinds, hclose.quiet.trans (hcond.quiet.trans hparen.quiet), hcond.value⟩

/-- A statement was read, and it is `s` but for its place. -/
def Stated (s : Stmt) (read : Option Stmt) : Prop := ∃ s', read = some s' ∧ s'.relabel .unplaced = s

theorem finish_exact {s : Stmt} (h : c.kinds = .mark .semicolon :: more) {start : Span} {statement : Span → Stmt}
    (hs : ∀ stop, (statement stop).relabel .unplaced = s) : (c.finish start statement).Exact more (Stated s) := by
  have hclose := expect_exact h
  exact ⟨hclose.kinds, hclose.quiet, _, rfl, hs _⟩

/-- A location that a statement begins with is not a call. -/
theorem location_of_statement {ks : List TokenKind} {location : Location} (h : DerivesLocation ks location) :
    ∃ name ls, ks = .ident name :: ls ∧ ∀ {c : Cursor} {m : Mark} {rest : List TokenKind} (span : Span),
      c.kinds = ls ++ .mark m :: rest → 0 < (TokenKind.mark m).looseness → c.accept .lparen = none ∧
        (c.location ⟨name, span, none⟩).Exact (.mark m :: rest) (·.relabel .unplaced = .place location {}) := by
  obtain ⟨name, ls, rfl, hread⟩ := location_exact h
  obtain ⟨_, _, hcons, hhead⟩ := h.exists_cons
  obtain ⟨-, rfl⟩ := List.cons.inj hcons
  refine ⟨name, ls, rfl, fun span hkinds hm => ⟨acceptKind_eq_none ?_, hread _ _ _ hkinds (follows_cons hm)⟩⟩
  rw [hkinds]
  exact hhead _ ((follows_cons hm).head?_ne (Nat.le_refl 0))

/-- The statement that is next is read as `s`. -/
def ReadsAs (c : Cursor) (more : List TokenKind) (s : Stmt) : Prop :=
  ∃ t, c.next? = some t ∧ t.value.kind ≠ .mark .rbrace ∧ t.cursor.findings = c.findings ∧
    (t.cursor.statement t.value).Exact more (Stated s)

theorem readsAs_of_head {k : TokenKind} {rest : List TokenKind} {s : Stmt} (hkinds : c.kinds = k :: rest)
    (hk : k ≠ .mark .rbrace)
    (h : ∀ {t : Token} {d : Cursor}, t.kind = k → d.kinds = rest → (d.statement t).Exact more (Stated s)) :
    ReadsAs c more s := by
  obtain ⟨t, ht, htExact⟩ := next?_exact hkinds
  exact ⟨t, ht, htExact.value ▸ hk, htExact.quiet, h htExact.value htExact.kinds⟩

theorem simple_exact {ks : List TokenKind} {s : Stmt} (h : DerivesSimple ks s)
    (hkinds : c.kinds = ks ++ .mark .semicolon :: more) : ReadsAs c more s := by
  cases h with
  | assign hlocation hvalue =>
    obtain ⟨name, ls, rfl, hread⟩ := location_of_statement hlocation
    rw [List.append_assoc] at hkinds
    refine readsAs_of_head hkinds (by simp) fun {t d} ht hd => ?_
    obtain ⟨hparen, htarget⟩ := hread t.span hd (by decide)
    obtain ⟨sign, hsign, hsignExact⟩ := accept_exact htarget.kinds
    have hvalue := expr_exact hvalue hsignExact.kinds (follows_cons (by decide))
    rw [statement]
    simp only [ht, nameStatement, hparen, hsign]
    refine (finish_exact hvalue.kinds fun stop => ?_).widen _
      (hvalue.quiet.trans (hsignExact.quiet.trans htarget.quiet))
    rw [Stmt.relabel, htarget.value, hvalue.value]
    rfl
  | increment hlocation =>
    obtain ⟨name, ls, rfl, hread⟩ := location_of_statement hlocation
    rw [List.append_assoc] at hkinds
    refine readsAs_of_head hkinds (by simp) fun {t d} ht hd => ?_
    obtain ⟨hparen, htarget⟩ := hread t.span hd (by decide)
    obtain ⟨sign, hsign, hsignExact⟩ := accept_exact htarget.kinds
    have hassign := accept_eq_none htarget.kinds (show Mark.plusPlus ≠ .assign by decide)
    rw [statement]
    simp only [ht, nameStatement, hparen, hassign, hsign]
    refine (finish_exact hsignExact.kinds fun stop => ?_).widen _ (hsignExact.quiet.trans htarget.quiet)
    rw [Stmt.relabel, htarget.value]
    rfl
  | decrement hlocation =>
    obtain ⟨name, ls, rfl, hread⟩ := location_of_statement hlocation
    rw [List.append_assoc] at hkinds
    refine readsAs_of_head hkinds (by simp) fun {t d} ht hd => ?_
    obtain ⟨hparen, htarget⟩ := hread t.span hd (by decide)
    obtain ⟨sign, hsign, hsignExact⟩ := accept_exact htarget.kinds
    have hassign := accept_eq_none htarget.kinds (show Mark.minusMinus ≠ .assign by decide)
    have hplus := accept_eq_none htarget.kinds (show Mark.minusMinus ≠ .plusPlus by decide)
    rw [statement]
    simp only [ht, nameStatement, hparen, hassign, hplus, hsign]
    refine (finish_exact hsignExact.kinds fun stop => ?_).widen _ (hsignExact.quiet.trans htarget.quiet)
    rw [Stmt.relabel, htarget.value]
    rfl
  | read hlocation =>
    obtain ⟨name, ls, rfl, hread⟩ := location_exact hlocation
    refine readsAs_of_head hkinds (by simp) fun {t d} ht hd => ?_
    have harrow := expect_exact hd
    obtain ⟨first, hfirst, hfirstExact⟩ := next?_exact harrow.kinds
    have htarget := hread first.cursor _ first.value.span hfirstExact.kinds (follows_cons (by decide))
    have hkind := hfirstExact.value
    rw [statement]
    simp only [ht, inputStatement, hfirst, hkind]
    refine (finish_exact htarget.kinds fun stop => ?_).widen _
      (htarget.quiet.trans (hfirstExact.quiet.trans harrow.quiet))
    rw [Stmt.relabel, htarget.value]
    rfl
  | write hvalue =>
    refine readsAs_of_head hkinds (by simp) fun {t d} ht hd => ?_
    have harrow := expect_exact hd
    have hvalue := expr_exact hvalue harrow.kinds (follows_cons (by decide))
    rw [statement]
    simp only [ht, outputStatement]
    refine (finish_exact hvalue.kinds fun stop => ?_).widen _ (hvalue.quiet.trans harrow.quiet)
    rw [Stmt.relabel, hvalue.value]
    rfl
  | call name hargs =>
    rw [List.append_assoc] at hkinds
    refine readsAs_of_head hkinds (by simp) fun {t d} ht hd => ?_
    obtain ⟨paren, hparen, hparenExact⟩ := accept_exact hd
    have hargs := args_exact hargs hparenExact.kinds
    rw [statement]
    simp only [ht, nameStatement, hparen]
    refine (finish_exact hargs.kinds fun stop => ?_).widen _ (hargs.quiet.trans hparenExact.quiet)
    rw [Stmt.relabel, hargs.value]
    rfl
  | ret =>
    refine readsAs_of_head hkinds (by simp) fun {t d} ht hd => ?_
    rw [statement]
    simp only [ht, returnStatement, if_pos ((d.isAt_iff .semicolon).2 (by rw [hd]; rfl))]
    exact finish_exact hd fun stop => rfl
  | retValue hvalue =>
    refine readsAs_of_head hkinds (by simp) fun {t d} ht hd => ?_
    have hhead : d.kinds.head? ≠ some (.mark .semicolon) := hd ▸ (hvalue.starts.append _).head?_ne rfl
    have hvalue := expr_exact hvalue hd (follows_cons (by decide))
    rw [statement]
    simp only [ht, returnStatement, if_neg fun hat => hhead ((d.isAt_iff .semicolon).1 hat)]
    refine (finish_exact hvalue.kinds fun stop => ?_).widen _ hvalue.quiet
    rw [Stmt.relabel, hvalue.value]
    rfl

/-- The tokens that a statement can begin with. -/
def startsStmt : TokenKind → Bool
  | .ident _ | .keyword .cin | .keyword .cout | .keyword .returnWord | .keyword .ifWord | .keyword .whileWord
  | .keyword .repeatWord => true
  | _ => false

theorem simple_starts {ks : List TokenKind} {s : Stmt} (h : DerivesSimple ks s) :
    ∃ k ls, ks = k :: ls ∧ startsStmt k = true := by
  cases h with
  | assign hlocation | increment hlocation | decrement hlocation =>
    obtain ⟨name, ls, rfl, -⟩ := hlocation.exists_cons
    exact ⟨_, _, rfl, rfl⟩
  | read | write | call | ret | retValue => exact ⟨_, _, rfl, rfl⟩

theorem stmt_starts {ks : List TokenKind} {s : Stmt} (h : DerivesStmt ks s) :
    ∃ k ls, ks = k :: ls ∧ startsStmt k = true := by
  cases h with
  | simple h =>
    obtain ⟨k, ls, rfl, hk⟩ := simple_starts h
    exact ⟨k, _, rfl, hk⟩
  | ifThen | ifElse | whileLoop | repeatLoop => exact ⟨_, _, rfl, rfl⟩

/-- In the body of a block a statement is next or the closing brace. -/
theorem stmts_head {ks : List TokenKind} {body : List Stmt} (h : DerivesStmts ks body) (more : List TokenKind) :
    ∀ k ∈ (ks ++ .mark .rbrace :: more).head?, startsStmt k = true ∨ k = .mark .rbrace := by
  cases h with
  | nil =>
    rintro _ ⟨⟩
    exact .inr rfl
  | cons hfirst =>
    obtain ⟨k, ls, rfl, hk⟩ := stmt_starts hfirst
    rintro _ ⟨⟩
    exact .inl hk

theorem stmts_noType {ks : List TokenKind} {body : List Stmt} (h : DerivesStmts ks body) (more : List TokenKind) :
    NoType (ks ++ .mark .rbrace :: more) := by
  intro k hk
  rcases stmts_head h more k hk with hstarts | rfl
  · cases k with
    | keyword word => cases word <;> first | rfl | cases hstarts
    | _ => rfl
  · rfl

/-- A condition and the block that depends on it. -/
theorem head_exact {ks ls : List TokenKind} {cond : Expr} {body : Block} (hcond : DerivesCondition ks cond)
    (hbody : ∀ {d : Cursor} {rest}, d.kinds = ls ++ rest → d.block.Exact rest (·.relabel .unplaced = body))
    (hkinds : c.kinds = ks ++ ls ++ more) :
    c.condition.value.relabel .unplaced = cond ∧ c.condition.cursor.findings = c.findings ∧
      c.condition.cursor.block.Exact more (·.relabel .unplaced = body) := by
  rw [List.append_assoc] at hkinds
  have hcond := condition_exact hcond hkinds
  exact ⟨hcond.value, hcond.quiet, hbody hcond.kinds⟩

mutual

theorem block_exact {ks b} : DerivesBlock ks b → ∀ {c : Cursor} {more : List TokenKind},
    c.kinds = ks ++ more → c.block.Exact more (·.relabel .unplaced = b)
  | .mk hlocals hbody, c, more, hkinds => by
    have hopening := expect_exact hkinds
    have hopeningKinds := hopening.kinds
    rw [List.append_eq, List.append_assoc, List.append_assoc] at hopeningKinds
    have hlocals := locals_exact hlocals hopeningKinds (stmts_noType hbody more)
    have hbody := stmts_exact hbody hlocals.kinds
    have hclose := expect_exact hbody.kinds
    rw [block]
    refine ⟨hclose.kinds, ?_, ?_⟩
    · exact hclose.quiet.trans (hbody.quiet.trans (hlocals.quiet.trans hopening.quiet))
    · show Block.mk (List.map _ _) (Stmt.relabelAll _ _) {} = _
      rw [hlocals.value, hbody.value]

theorem stmts_exact {ks body} : DerivesStmts ks body → ∀ {c : Cursor} {more : List TokenKind},
    c.kinds = ks ++ .mark .rbrace :: more →
      c.statements.Exact (.mark .rbrace :: more) (Stmt.relabelAll .unplaced · = body)
  | .nil, c, more, hkinds => by
    obtain ⟨t, ht, htExact⟩ := next?_exact hkinds
    rw [statements, ht]
    simp only [htExact.value, if_pos]
    exact exact_stay hkinds rfl
  | .cons hfirst hmore, c, more, hkinds => by
    rw [List.append_assoc] at hkinds
    obtain ⟨t, ht, hkind, hquiet, hfirst⟩ := stmt_exact hfirst hkinds fun helse => by
      rcases stmts_head hmore more _ helse with h | h <;> cases h
    obtain ⟨s, hs, hvalue⟩ := hfirst.value
    have hmore := stmts_exact hmore hfirst.kinds
    rw [statements, ht]
    simp only [if_neg hkind]
    refine ⟨hmore.kinds, hmore.quiet.trans (hfirst.quiet.trans hquiet), ?_⟩
    show Stmt.relabelAll _ ((t.cursor.statement t.value).value.toList ++ _) = _
    rw [hs, Option.toList_some, List.singleton_append, Stmt.relabelAll, hvalue, hmore.value]

theorem stmt_exact {ks s} : DerivesStmt ks s → ∀ {c : Cursor} {more : List TokenKind},
    c.kinds = ks ++ more → more.head? ≠ some (.keyword .elseWord) → ReadsAs c more s
  | .simple h, _, _, hkinds, _ => by
    rw [List.append_assoc] at hkinds
    exact simple_exact h hkinds
  | .ifThen hcond hyes, _, _, hkinds, hmore => by
    refine readsAs_of_head hkinds nofun fun {t d} ht hd => ?_
    obtain ⟨hvalue, hquiet, hblock⟩ := head_exact hcond (block_exact hyes) hd
    have helse := acceptKind_eq_none (hblock.kinds ▸ hmore)
    rw [statement]
    simp only [ht, helse]
    refine ⟨hblock.kinds, hblock.quiet.trans hquiet, _, rfl, ?_⟩
    rw [Stmt.relabel, hvalue, hblock.value]
    rfl
  | .ifElse hcond hyes hno, _, _, hkinds, _ => by
    refine readsAs_of_head hkinds nofun fun {t d} ht hd => ?_
    rw [List.append_eq, List.append_assoc] at hd
    obtain ⟨hvalue, hquiet, hblock⟩ := head_exact hcond (block_exact hyes) hd
    obtain ⟨word, hword, hwordExact⟩ := acceptKind_exact hblock.kinds
    have hno := block_exact hno hwordExact.kinds
    rw [statement]
    simp only [ht, hword]
    refine ⟨hno.kinds, hno.quiet.trans (hwordExact.quiet.trans (hblock.quiet.trans hquiet)), _, rfl, ?_⟩
    rw [Stmt.relabel, hvalue, hblock.value, hno.value]
    rfl
  | .whileLoop hcond hbody, _, _, hkinds, _ => by
    refine readsAs_of_head hkinds nofun fun {t d} ht hd => ?_
    obtain ⟨hvalue, hquiet, hblock⟩ := head_exact hcond (block_exact hbody) hd
    rw [statement]
    simp only [ht]
    refine ⟨hblock.kinds, hblock.quiet.trans hquiet, _, rfl, ?_⟩
    rw [Stmt.relabel, hvalue, hblock.value]
    rfl
  | .repeatLoop hcond hbody, _, _, hkinds, _ => by
    refine readsAs_of_head hkinds nofun fun {t d} ht hd => ?_
    obtain ⟨hvalue, hquiet, hblock⟩ := head_exact hcond (block_exact hbody) hd
    rw [statement]
    simp only [ht]
    refine ⟨hblock.kinds, hblock.quiet.trans hquiet, _, rfl, ?_⟩
    rw [Stmt.relabel, hvalue, hblock.value]
    rfl

end

end Cursor

end Namescope
