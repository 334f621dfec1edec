import Namescope.Proofs.Reading.Extents
/-!
# Expressions are read at their places

Reading an expression is a path of the cursor. If nothing is noted on it, the expression that is read lies over
the tokens taken.
-/
namespace Namescope

namespace Cursor

variable {c d : Cursor}

/-- Each field makes the path that led to the location before it longer. -/
theorem Leads.fields {location : Location} (h : c.Leads d (Location.LiesOver · location)) :
    c.Leads (d.fields location).cursor (Location.LiesOver · (d.fields location).value) := by
  fun_induction Cursor.fields location d with
  | case1 => exact h
  | case2 location d dot hdot name ih =>
    refine ih ((h.andThen ((leads_accept hdot).andThen (leads_ident _))).imp ?_)
    rintro _ - hall ⟨ts, _, rfl, hlocation, _, _, rfl, rfl, rfl⟩
    have hspan := hall.merge_extents [_] hlocation.ne_nil (List.cons_ne_nil _ [])
    rw [← hlocation.span_eq] at hspan
    exact .field _ _ _ rfl hlocation hspan

/-- A location that begins with a name. -/
theorem leads_location {t : Step Token c} (ht : c.next? = some t) {name : String}
    (hkind : t.value.kind = .ident name) : c.Leads (t.cursor.location ⟨name, t.value.span, none⟩).cursor
      (Expr.LiesOver · (t.cursor.location ⟨name, t.value.span, none⟩).value) := by
  have hname : c.Leads t.cursor (Location.LiesOver · (.name ⟨name, t.value.span, none⟩)) := by
    refine (leads_next_of_kind ht hkind).imp ?_
    rintro _ - - rfl
    exact .name ⟨name, _, none⟩
  refine hname.fields.imp fun ts hgoes hts hlocation => ?_
  have hspan := hgoes.merge_lastSpan hts hlocation.ne_nil (here_of_next ht)
  rw [location, Read.give, hspan]
  exact .place hlocation

mutual

theorem expr_covers (c : Cursor) : c.expr.Covers Expr.LiesOver := by
  have htarget := level_covers .or c
  rw [expr]
  dsimp only
  split
  · exact htarget
  · next sign hsign =>
    have hlength := (c.level .or).length_le
    have hshorter := sign.shorter
    refine (htarget.andThen ((leads_accept_noteIf hsign _ .targetExpected).andThen (expr_covers _))).imp ?_
    rintro _ - hall ⟨ts, _, rfl, htarget, _, us, rfl, ⟨rfl, -⟩, hvalue⟩
    show Expr.LiesOver _ (.assign _ _ (Span.merge _ _))
    rw [htarget.merge_spans hvalue _ hall]
    exact .assign _ rfl htarget hvalue
termination_by 15 * c.rest.length + 12
decreasing_by
  · simp [OperatorLevel.rank]
  · simp only [rest_noteIf]; omega

theorem level_covers (l : OperatorLevel) (c : Cursor) : (c.level l).Covers Expr.LiesOver := by
  have hlength := (c.operand l).length_le
  have hfirst := operand_covers l c
  rw [level]
  exact Leads.tail l false hfirst
termination_by 15 * c.rest.length + (2 * l.rank + 3)
decreasing_by
  · omega
  · omega

theorem operand_covers (l : OperatorLevel) (c : Cursor) : (c.operand l).Covers Expr.LiesOver := by
  rw [operand]
  split
  · next m hm =>
    have hrank := OperatorLevel.rank_of_tighter? hm
    exact level_covers m c
  · exact unary_covers c
termination_by 15 * c.rest.length + (2 * l.rank + 2)
decreasing_by
  · omega
  · omega

theorem Leads.tail (l : OperatorLevel) {left : Expr} (again : Bool) {c d : Cursor}
    (h : c.Leads d (Expr.LiesOver · left)) :
    c.Leads (d.tail l left again).cursor (Expr.LiesOver · (d.tail l left again).value) := by
  rw [tail]
  split
  · exact h
  · next op hop =>
    have hshorter := op.shorter
    have hrank : l.rank ≤ 4 := by cases l <;> decide
    have hrest := congrArg List.length
      (op.cursor.rest_noteIf (again && decide (l = .comparison)) d.here .chainedComparison)
    have hlength := ((op.cursor.noteIf (again && decide (l = .comparison)) d.here .chainedComparison).operand
      l).length_le
    extract_lets start right
    -- the path to the left operand goes on over the operator and the right one
    refine Leads.tail l true ((h.andThen ((leads_operator_noteIf hop _ .chainedComparison).andThen
      (operand_covers l start))).imp ?_)
    rintro _ - hall ⟨ts, _, rfl, hleft, _, us, rfl, ⟨rfl, -⟩, hright⟩
    rw [hleft.merge_spans hright _ hall]
    exact .binary _ _ rfl hleft hright
termination_by 15 * d.rest.length
decreasing_by
  · omega
  · omega

theorem unary_covers (c : Cursor) : c.unary.Covers Expr.LiesOver := by
  rw [unary]
  split
  · exact atom_covers c
  · next op hop =>
    have hshorter := op.shorter
    refine ((leads_prefixOp hop).andThen (unary_covers op.cursor)).imp ?_
    rintro _ - hall ⟨_, ts, rfl, rfl, hinner⟩
    have hspan := hall.merge_extents [] (List.cons_ne_nil _ _) hinner.ne_nil
    show Expr.LiesOver _ (.unary _ _ (Span.merge _ _))
    rw [hinner.span_eq]
    exact hspan ▸ .unary _ _ rfl hinner
termination_by 15 * c.rest.length + 1
decreasing_by
  · omega
  · omega

theorem atom_covers (c : Cursor) : c.atom.Covers Expr.LiesOver := by
  rw [atom]
  split
  · exact c.leads_note ..
  · next t ht =>
    have hshorter := t.shorter
    split
    · next value hkind =>
      refine (leads_next_of_kind ht hkind).imp ?_
      rintro _ - - rfl
      exact .literal (.int value) _
    · next raw hkind =>
      refine (leads_next_of_kind ht hkind).imp ?_
      rintro _ - - rfl
      exact .literal (.string raw) _
    · next value hkind =>
      refine (leads_next_of_kind ht hkind).imp ?_
      rintro _ - - rfl
      exact .literal (.bool value) _
    · next hkind =>
      refine ((leads_next_of_kind ht hkind).andThen ((expr_covers t.cursor).andThen (leads_expect _ .rparen))).imp ?_
      rintro _ - hall ⟨_, _, rfl, rfl, ts, _, rfl, hinner, rfl⟩
      have hspan := hall.merge_extents ts (List.cons_ne_nil _ _) (List.cons_ne_nil _ _)
      show Expr.LiesOver _ (Expr.withSpan (Span.merge _ _) _)
      exact hspan ▸ .parens _ _ rfl hinner
    · next name hkind =>
      split
      · exact leads_location ht hkind
      · next paren hparen =>
        have hparenShorter := paren.shorter
        refine ((leads_next_of_kind ht hkind).andThen ((leads_accept hparen).andThen (args_covers paren.cursor))).imp ?_
        rintro _ hgoes hall ⟨_, _, rfl, rfl, _, _, rfl, rfl, ts, closing, rfl, hargs⟩
        have hspan := hgoes.merge_lastSpan hall (by simp) (here_of_next ht)
        show Expr.LiesOver _ (.call _ _ (Span.merge _ _))
        exact hspan ▸ .call _ _ _ rfl hargs
    · exact c.leads_note ..
termination_by 15 * c.rest.length
decreasing_by
  · omega
  · omega

theorem args_covers (c : Cursor) : c.args.Covers fun ts es =>
    ∃ inner closing, ts = inner ++ [⟨.mark .rparen, closing⟩] ∧ Expr.ArgsOver inner es := by
  have hexprs := exprs_covers c
  rw [args]
  have hlist : (if c.isAt .rparen = true then c.stay [] else c.exprs).Covers Expr.ArgsOver := by
    split
    · exact .stay .none
    · exact hexprs.imp fun _ _ _ h => .some h
  refine (hlist.andThen (leads_expect _ .rparen)).imp ?_
  rintro _ - - ⟨ts, _, rfl, hargs, rfl⟩
  exact ⟨ts, _, rfl, hargs⟩
termination_by 15 * c.rest.length + 14
decreasing_by omega

theorem exprs_covers (c : Cursor) : c.exprs.Covers Expr.ListOver := by
  have hfirst := expr_covers c
  have hlength := c.expr.length_le
  rw [exprs]
  dsimp only
  split
  · exact hfirst.imp fun _ _ _ h => .last h
  · next comma hcomma =>
    have hshorter := comma.shorter
    refine (hfirst.andThen ((leads_accept hcomma).andThen (exprs_covers comma.cursor))).imp ?_
    rintro _ - - ⟨ts, _, rfl, hfirst, _, us, rfl, rfl, hmore⟩
    exact .cons _ hfirst hmore
termination_by 15 * c.rest.length + 13
decreasing_by
  · omega
  · omega

end

end Cursor

end Namescope
