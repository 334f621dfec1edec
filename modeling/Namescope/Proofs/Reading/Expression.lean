import Namescope.Proofs.Reading.Derivations
import Namescope.Proofs.Reading.Moves
/-!
# Expressions are read by the grammar

What is read silently as an expression is derived by its tokens, and what is derived by the next tokens is
read silently if the token behind it does not go on with it.
-/
namespace Namescope

/-! ## Trees that stand nowhere -/

theorem Expr.unplaced_withSpan (e : Expr) (span : Span) :
    (e.withSpan span).relabel .unplaced = e.relabel .unplaced := by
  cases e <;> rfl

theorem Expr.isLocation_relabel (f : Relabel) (e : Expr) : (e.relabel f).isLocation = e.isLocation := by
  cases e <;> rfl

theorem Expr.unplaced_of_isLocation {e : Expr} (h : e.isLocation = true) :
    ∃ location, e.relabel .unplaced = .place location {} := by
  cases e with
  | place location => exact ⟨_, rfl⟩
  | _ => cases h

/-! ## What is read is derived -/

namespace Cursor

theorem fields_takes (location : Location) (c : Cursor) :
    (c.fields location).Takes fun ks l => ∀ before, DerivesLocation before (location.relabel .unplaced) →
      DerivesLocation (before ++ ks) (l.relabel .unplaced) := by
  fun_induction fields location c with
  | case1 location c h =>
    exact .stay fun before hbefore => by rwa [List.append_nil]
  | case2 location c dot h name ih =>
    refine ((moves_accept h).andThen (dot.cursor.moves_ident.andThen ih)).imp ?_
    rintro _ ⟨_, _, rfl, rfl, _, ks, rfl, ⟨n, rfl, hn⟩, hks⟩ before hbefore
    have hfield := hks (before ++ [.mark .dot, .ident n]) (by
      rw [Location.relabel, hn]
      exact .field n hbefore)
    rwa [List.append_assoc] at hfield

theorem location_takes (name : String) (span : Span) (c : Cursor) :
    (c.location ⟨name, span, none⟩).Takes fun ks e => ∃ location,
      e.relabel .unplaced = .place location {} ∧ DerivesLocation (.ident name :: ks) location := by
  refine (fields_takes _ c).imp fun ks h => ?_
  exact ⟨_, rfl, h [.ident name] (.name name)⟩

mutual

theorem expr_takes (c : Cursor) : c.expr.Takes fun ks e => DerivesExpr ks (e.relabel .unplaced) := by
  have hlevel := level_takes .or c
  rw [expr]
  dsimp only
  split
  · exact hlevel.imp fun ks h => .level h
  · next sign hsign =>
    have hlength := (c.level .or).length_le
    have hshorter := sign.shorter
    have hvalue := expr_takes (sign.cursor.noteIf (!(c.level .or).value.isLocation) sign.value .targetExpected)
    refine (hlevel.andThen ((moves_accept hsign).andThen ((moves_noteIf ..).andThen hvalue))).imp ?_
    rintro _ ⟨front, _, rfl, htarget, _, _, rfl, rfl, _, ks, rfl, ⟨rfl, hlocation⟩, hvalue⟩
    obtain ⟨location, hplace⟩ := Expr.unplaced_of_isLocation (by simpa using hlocation)
    show DerivesExpr _ (.assign ((c.level .or).value.relabel .unplaced) _ {})
    rw [hplace] at htarget ⊢
    exact .assign (htarget.target rfl) hvalue
termination_by 15 * c.rest.length + 12
decreasing_by
  · simp [OperatorLevel.rank]
  · simp only [rest_noteIf]; omega

theorem level_takes (l : OperatorLevel) (c : Cursor) :
    (c.level l).Takes fun ks e => DerivesLevel l ks (e.relabel .unplaced) := by
  have hlength := (c.operand l).length_le
  have hfirst := operand_takes l c
  have htail := tail_takes l (c.operand l).value false (c.operand l).cursor
  rw [level]
  refine (hfirst.andThen htail).imp ?_
  rintro _ ⟨front, back, rfl, hfront, hback⟩
  exact hback front (.inl ⟨rfl, hfront⟩)
termination_by 15 * c.rest.length + (2 * l.rank + 3)
decreasing_by
  · omega
  · omega

theorem operand_takes (l : OperatorLevel) (c : Cursor) :
    (c.operand l).Takes fun ks e => DerivesOperand l ks (e.relabel .unplaced) := by
  rw [operand]
  split
  · next m hm =>
    have hrank := OperatorLevel.rank_of_tighter? hm
    exact (level_takes m c).imp fun ks h => .ofTighter hm h
  · next hm => exact (unary_takes c).imp fun ks h => .ofUnary hm h
termination_by 15 * c.rest.length + (2 * l.rank + 2)
decreasing_by
  · omega
  · omega

theorem tail_takes (l : OperatorLevel) (left : Expr) (again : Bool) (c : Cursor) :
    (c.tail l left again).Takes fun ks e => ∀ before, Joined l again before (left.relabel .unplaced) →
      DerivesLevel l (before ++ ks) (e.relabel .unplaced) := by
  rw [tail]
  split
  · refine .stay fun before h => ?_
    rw [List.append_nil]
    exact h.level
  · next op hop =>
    have hshorter := op.shorter
    have hrank : l.rank ≤ 4 := by cases l <;> decide
    have hrest := congrArg List.length
      (op.cursor.rest_noteIf (again && decide (l = .comparison)) c.here .chainedComparison)
    have hlength := ((op.cursor.noteIf (again && decide (l = .comparison)) c.here .chainedComparison).operand
      l).length_le
    extract_lets start right
    have htail := tail_takes l (.binary op.value left right.value (left.span.merge right.value.span)) true
      right.cursor
    refine ((moves_operator hop).andThen ((moves_noteIf ..).andThen
      ((operand_takes l start).andThen htail))).imp ?_
    rintro _ ⟨_, _, rfl, ⟨rfl, rfl⟩, _, _, rfl, ⟨rfl, hagain⟩, rs, ls, rfl, hright, htail⟩ before hbefore
    have := htail _ (.inr ⟨rfl, hbefore.binary op.value hagain hright⟩)
    rwa [List.append_assoc] at this
termination_by 15 * c.rest.length
decreasing_by
  · omega
  · omega

theorem unary_takes (c : Cursor) : c.unary.Takes fun ks e => DerivesUnary ks (e.relabel .unplaced) := by
  rw [unary]
  split
  · exact (atom_takes c).imp fun ks h => .atom h
  · next op hop =>
    have hshorter := op.shorter
    refine ((moves_prefixOp hop).andThen (unary_takes op.cursor)).imp ?_
    rintro _ ⟨_, ks, rfl, rfl, h⟩
    exact .op op.value h
termination_by 15 * c.rest.length + 1
decreasing_by
  · omega
  · omega

theorem atom_takes (c : Cursor) : c.atom.Takes fun ks e => DerivesAtom ks (e.relabel .unplaced) := by
  rw [atom]
  split
  · exact c.moves_noteAt ..
  · next t ht =>
    have hshorter := t.shorter
    have hnext := moves_next ht
    split
    · next value hkind =>
      refine hnext.imp ?_
      rintro _ rfl
      exact hkind ▸ .literal (.int value)
    · next raw hkind =>
      refine hnext.imp ?_
      rintro _ rfl
      exact hkind ▸ .literal (.string raw)
    · next value hkind =>
      refine hnext.imp ?_
      rintro _ rfl
      exact hkind ▸ .literal (.bool value)
    · next hkind =>
      refine (hnext.andThen ((expr_takes t.cursor).andThen (moves_expect ..))).imp ?_
      rintro _ ⟨_, _, rfl, rfl, ks, _, rfl, he, rfl⟩
      rw [hkind]
      exact (Expr.unplaced_withSpan ..).symm ▸ .parens he
    · next name hkind =>
      split
      · refine (hnext.andThen (location_takes name t.value.span t.cursor)).imp ?_
        rintro _ ⟨_, ks, rfl, rfl, location, hvalue, hlocation⟩
        rw [hkind]
        exact hvalue ▸ .place hlocation
      · next paren hparen =>
        have hparenShorter := paren.shorter
        refine (hnext.andThen ((moves_accept hparen).andThen (args_takes paren.cursor))).imp ?_
        rintro _ ⟨_, _, rfl, rfl, _, ks, rfl, rfl, args, rfl, hargs⟩
        rw [hkind]
        exact .call name hargs
    · exact c.moves_noteAt ..
termination_by 15 * c.rest.length
decreasing_by
  · omega
  · omega

theorem args_takes (c : Cursor) : c.args.Takes fun ks es =>
    ∃ inner, ks = inner ++ [.mark .rparen] ∧ DerivesArgs inner (Expr.relabelAll .unplaced es) := by
  have hexprs := exprs_takes c
  rw [args]
  have hlist : (if c.isAt .rparen = true then c.stay [] else c.exprs).Takes
      fun ks es => DerivesArgs ks (Expr.relabelAll .unplaced es) := by
    split
    · exact .stay .none
    · exact hexprs.imp fun ks h => .some h
  refine (hlist.andThen (moves_expect ..)).imp ?_
  rintro _ ⟨ks, _, rfl, hks, rfl⟩
  exact ⟨ks, rfl, hks⟩
termination_by 15 * c.rest.length + 14
decreasing_by omega

theorem exprs_takes (c : Cursor) : c.exprs.Takes fun ks es => DerivesExprs ks (Expr.relabelAll .unplaced es) := by
  have hfirst := expr_takes c
  have hlength := c.expr.length_le
  rw [exprs]
  dsimp only
  split
  · exact hfirst.imp fun ks h => .last h
  · next comma hcomma =>
    have hshorter := comma.shorter
    refine (hfirst.andThen ((moves_accept hcomma).andThen (exprs_takes comma.cursor))).imp ?_
    rintro _ ⟨ks, _, rfl, he, _, ls, rfl, rfl, hes⟩
    exact .cons he hes
termination_by 15 * c.rest.length + 13
decreasing_by
  · omega
  · omega

end

/-! ## What is derived is read -/

/-- Two readings give the same value and end at the same cursor. -/
def Same {α : Type} {c d : Cursor} (r : Read α c) (r' : Read α d) : Prop :=
  r.value = r'.value ∧ r.cursor = r'.cursor

theorem Same.trans {α : Type} {c d e : Cursor} {r : Read α c} {r' : Read α d} {r'' : Read α e}
    (h : Same r r') (h' : Same r' r'') : Same r r'' :=
  ⟨h.1.trans h'.1, h.2.trans h'.2⟩

theorem fields_dot {c : Cursor} {dot : Step Span c} (h : c.accept .dot = some dot) (l : Location) :
    Same (c.fields l) (dot.cursor.ident.cursor.fields (.field l dot.cursor.ident.value none)) := by
  rw [fields, h]
  exact ⟨rfl, rfl⟩

theorem fields_none {c : Cursor} (h : c.accept .dot = none) (l : Location) : c.fields l = c.stay l := by
  rw [fields, h]

/-- Reading the fields after a first name gets behind the tokens of a location. -/
theorem fields_reach {ks : List TokenKind} {location : Location} (h : DerivesLocation ks location) :
    ∃ name ls, ks = .ident name :: ls ∧ ∀ (c : Cursor) more (first : Ident), c.kinds = ls ++ more →
      first.relabel .unplaced = .unplaced name → ∃ (l : Location) (d : Cursor),
        Same (c.fields (.name first)) (d.fields l) ∧ d.kinds = more ∧ d.findings = c.findings ∧
          l.relabel .unplaced = location := by
  induction h with
  | name name => exact ⟨name, [], rfl, fun c more first hkinds hfirst =>
      ⟨_, c, ⟨rfl, rfl⟩, hkinds, rfl, by rw [Location.relabel, hfirst]⟩⟩
  | @field ks base last _ ih =>
    obtain ⟨name, ls, rfl, ih⟩ := ih
    refine ⟨name, ls ++ [.mark .dot, .ident last], rfl, fun c more first hkinds hfirst => ?_⟩
    rw [List.append_assoc] at hkinds
    obtain ⟨l, d, hsame, hd, hfindings, hl⟩ := ih c _ first hkinds hfirst
    obtain ⟨dot, hdot, hdotExact⟩ := accept_exact hd
    have hname := ident_exact hdotExact.kinds
    refine ⟨.field l dot.cursor.ident.value none, dot.cursor.ident.cursor, ?_, hname.kinds, ?_, ?_⟩
    · exact hsame.trans (fields_dot hdot l)
    · rw [hname.quiet, hdotExact.quiet, hfindings]
    · rw [Location.relabel, hl, hname.value]
      rfl

theorem location_exact {ks : List TokenKind} {location : Location} (h : DerivesLocation ks location) :
    ∃ name ls, ks = .ident name :: ls ∧ ∀ (c : Cursor) more span, c.kinds = ls ++ more → Follows 0 more →
      (c.location ⟨name, span, none⟩).Exact more (·.relabel .unplaced = .place location {}) := by
  obtain ⟨name, ls, rfl, hreach⟩ := fields_reach h
  refine ⟨name, ls, rfl, fun c more span hkinds hmore => ?_⟩
  obtain ⟨l, d, ⟨hvalue, hcursor⟩, hd, hfindings, hl⟩ := hreach c more ⟨name, span, none⟩ hkinds rfl
  have hdot : d.accept .dot = none := acceptKind_eq_none (hd ▸ hmore.head?_ne (Nat.le_refl 0))
  rw [fields_none hdot] at hvalue hcursor
  refine ⟨?_, ?_, ?_⟩
  · show (c.fields _).cursor.kinds = more
    rw [hcursor]
    exact hd
  · show (c.fields _).cursor.findings = c.findings
    rw [hcursor]
    exact hfindings
  · show Expr.place ((c.fields _).value.relabel .unplaced) {} = _
    rw [hvalue]
    exact congrArg (Expr.place · {}) hl

/-- Reading a level gets behind the tokens of what is derived there; operators of the level may follow. -/
def ReachesTail (l : OperatorLevel) (c : Cursor) (more : List TokenKind) (e : Expr) : Prop :=
  ∃ (left : Expr) (again : Bool) (d : Cursor), Same (c.level l) (d.tail l left again) ∧ d.kinds = more ∧
    d.findings = c.findings ∧ left.relabel .unplaced = e

theorem ReachesTail.exact {l : OperatorLevel} {c : Cursor} {more : List TokenKind} {e : Expr}
    (h : ReachesTail l c more e) (hmore : Follows (l.rank + 1) more) :
    (c.level l).Exact more (·.relabel .unplaced = e) := by
  obtain ⟨left, again, d, ⟨hvalue, hcursor⟩, hd, hfindings, hleft⟩ := h
  have hnone : d.operator? l = none := by
    refine operator?_eq_none fun op hlevel => ?_
    rw [hd]
    exact hmore.head?_ne (Nat.le_of_eq (by rw [op.looseness_mark, hlevel]))
  rw [tail, hnone] at hvalue hcursor
  exact ⟨hcursor ▸ hd, hcursor ▸ hfindings, hvalue ▸ hleft⟩

theorem tail_operator {l : OperatorLevel} {c : Cursor} {op : Step BinaryOp c} (h : c.operator? l = some op)
    (left : Expr) (again : Bool) :
    let start := op.cursor.noteIf (again && decide (l = .comparison)) c.here .chainedComparison
    let right := start.operand l
    Same (c.tail l left again)
      (right.cursor.tail l (.binary op.value left right.value (left.span.merge right.value.span)) true) := by
  rw [tail, h]
  exact ⟨rfl, rfl⟩

/-- One more operator and operand, unless it would be a second comparison. -/
theorem ReachesTail.binary {op : BinaryOp} {l : OperatorLevel} (hl : op.level = l) {c d : Cursor} {left : Expr}
    {again : Bool} (hsame : Same (c.level l) (d.tail l left again))
    (hagain : (again && decide (l = .comparison)) = false) {rest more : List TokenKind} {right : Expr}
    (hd : d.kinds = .mark op.mark :: rest) (hfindings : d.findings = c.findings)
    (hright : ∀ {e : Cursor}, e.kinds = rest → (e.operand l).Exact more (·.relabel .unplaced = right)) :
    ReachesTail l c more (.binary op (left.relabel .unplaced) right {}) := by
  subst hl
  obtain ⟨t, ht, htExact⟩ := operator?_exact op hd
  have hstart : t.cursor.noteIf (again && decide (op.level = .comparison)) d.here .chainedComparison =
      t.cursor := by
    rw [hagain]
    rfl
  have hoperand := hright ((congrArg kinds hstart).trans htExact.kinds)
  refine ⟨_, true, _, hsame.trans (tail_operator ht left again), hoperand.kinds, ?_, ?_⟩
  · exact hoperand.quiet.trans ((congrArg findings hstart).trans (htExact.quiet.trans hfindings))
  · rw [Expr.relabel, hoperand.value, htExact.value]
    rfl

theorem operand_eq_level {l m : OperatorLevel} (h : l.tighter? = some m) (c : Cursor) :
    c.operand l = c.level m := by
  rw [operand]
  split
  · next hm =>
    cases hm.symm.trans h
    rfl
  · next hm =>
    rw [hm] at h
    cases h

theorem operand_eq_unary (c : Cursor) : c.operand .product = c.unary := by
  rw [operand]
  rfl

theorem level_operand (l : OperatorLevel) (c : Cursor) :
    Same (c.level l) ((c.operand l).cursor.tail l (c.operand l).value false) := by
  rw [level]
  exact ⟨rfl, rfl⟩

theorem level_of_operand {l : OperatorLevel} {c : Cursor} {more : List TokenKind} {e : Expr}
    (h : (c.operand l).Exact more (·.relabel .unplaced = e)) : ReachesTail l c more e :=
  ⟨(c.operand l).value, false, (c.operand l).cursor, level_operand l c, h.kinds, h.quiet, h.value⟩

/-- What is read as a prefix operation is read so on every level. -/
theorem level_of_unary {c : Cursor} {more : List TokenKind} {e : Expr}
    (h : c.unary.Exact more (·.relabel .unplaced = e)) (l : OperatorLevel) (hmore : Follows (l.rank + 1) more) :
    (c.level l).Exact more (·.relabel .unplaced = e) := by
  have step : ∀ {m : OperatorLevel}, (c.operand m).Exact more (·.relabel .unplaced = e) → m.rank ≤ l.rank →
      (c.level m).Exact more (·.relabel .unplaced = e) :=
    fun h hm => (level_of_operand h).exact (hmore.mono (Nat.succ_le_succ hm))
  have up : ∀ {m k : OperatorLevel}, m.tighter? = some k → (c.level k).Exact more (·.relabel .unplaced = e) →
      m.rank ≤ l.rank → (c.level m).Exact more (·.relabel .unplaced = e) :=
    fun hk h hm => step (operand_eq_level hk c ▸ h) hm
  have hproduct := step (operand_eq_unary c ▸ h) (Nat.zero_le _)
  cases l with
  | product => exact hproduct
  | sum => exact up rfl hproduct (by decide)
  | comparison => exact up rfl (up rfl hproduct (by decide)) (by decide)
  | and => exact up rfl (up rfl (up rfl hproduct (by decide)) (by decide)) (by decide)
  | or => exact up rfl (up rfl (up rfl (up rfl hproduct (by decide)) (by decide)) (by decide)) (by decide)

theorem expr_of_level {c : Cursor} {more : List TokenKind} {e : Expr}
    (h : (c.level .or).Exact more (·.relabel .unplaced = e)) (hmore : Follows 6 more) :
    c.expr.Exact more (·.relabel .unplaced = e) := by
  have hassign : (c.level .or).cursor.accept .assign = none :=
    acceptKind_eq_none (h.kinds ▸ hmore.head?_ne (by decide))
  rw [expr]
  dsimp only
  rw [hassign]
  exact h

/-- A location and a value that is assigned to it. -/
theorem expr_of_assign {c : Cursor} {rest more : List TokenKind} {location : Location} {value : Expr}
    (htarget : (c.level .or).Exact (.mark .assign :: rest) (·.relabel .unplaced = .place location {}))
    (hvalue : ∀ {d : Cursor}, d.kinds = rest → d.expr.Exact more (·.relabel .unplaced = value)) :
    c.expr.Exact more (·.relabel .unplaced = .assign (.place location {}) value {}) := by
  obtain ⟨sign, hsign, hsignExact⟩ := accept_exact htarget.kinds
  have hlocation : (c.level .or).value.isLocation = true := by
    rw [← Expr.isLocation_relabel .unplaced, htarget.value]
    rfl
  have hstart : sign.cursor.noteIf (!(c.level .or).value.isLocation) sign.value .targetExpected =
      sign.cursor := by
    rw [hlocation]
    rfl
  have hvalue := hvalue ((congrArg kinds hstart).trans hsignExact.kinds)
  rw [expr]
  dsimp only
  rw [hsign]
  refine ⟨hvalue.kinds, ?_, ?_⟩
  · exact hvalue.quiet.trans ((congrArg findings hstart).trans (hsignExact.quiet.trans htarget.quiet))
  · show Expr.assign ((c.level .or).value.relabel .unplaced) (Expr.relabel .unplaced _) {} = _
    rw [htarget.value, hvalue.value]

theorem unary_of_atom {c : Cursor} {more : List TokenKind} {e : Expr}
    (h : c.atom.Exact more (·.relabel .unplaced = e))
    (hhead : ∀ op : UnaryOp, c.kinds.head? ≠ some (.mark op.mark)) :
    c.unary.Exact more (·.relabel .unplaced = e) := by
  rw [unary, prefixOp?_eq_none hhead]
  exact h

theorem unary_of_op (op : UnaryOp) {c : Cursor} {rest more : List TokenKind} {e : Expr}
    (hkinds : c.kinds = .mark op.mark :: rest)
    (h : ∀ {d : Cursor}, d.kinds = rest → d.unary.Exact more (·.relabel .unplaced = e)) :
    c.unary.Exact more (·.relabel .unplaced = .unary op e {}) := by
  obtain ⟨t, ht, htExact⟩ := prefixOp?_exact op hkinds
  have hinner := h htExact.kinds
  rw [unary, ht]
  refine ⟨hinner.kinds, hinner.quiet.trans htExact.quiet, ?_⟩
  show Expr.unary t.value (Expr.relabel .unplaced _) {} = _
  rw [hinner.value, htExact.value]

theorem atom_of_parens {c : Cursor} {rest more : List TokenKind} {e : Expr}
    (hkinds : c.kinds = .mark .lparen :: rest)
    (h : ∀ {d : Cursor}, d.kinds = rest → d.expr.Exact (.mark .rparen :: more) (·.relabel .unplaced = e)) :
    c.atom.Exact more (·.relabel .unplaced = e) := by
  obtain ⟨t, ht, htExact⟩ := next?_exact hkinds
  have hinner := h htExact.kinds
  have hclose := expect_exact hinner.kinds
  have hkind := htExact.value
  rw [atom, ht]
  simp only [hkind]
  refine ⟨hclose.kinds, hclose.quiet.trans (hinner.quiet.trans htExact.quiet), ?_⟩
  exact (Expr.unplaced_withSpan ..).trans hinner.value

theorem atom_of_literal (value : Literal) {c : Cursor} {more : List TokenKind}
    (hkinds : c.kinds = value.token :: more) :
    c.atom.Exact more (·.relabel .unplaced = .literal value {}) := by
  obtain ⟨t, ht, htExact⟩ := next?_exact hkinds
  have hkind := htExact.value
  rw [atom, ht]
  cases value <;> simp only [Literal.token] at hkind <;> simp only [hkind] <;>
    exact ⟨htExact.kinds, htExact.quiet, rfl⟩

theorem atom_of_location {ks : List TokenKind} {location : Location} (h : DerivesLocation ks location)
    {c : Cursor} {more : List TokenKind} (hkinds : c.kinds = ks ++ more) (hmore : Follows 0 more) :
    c.atom.Exact more (·.relabel .unplaced = .place location {}) := by
  obtain ⟨name, ls, rfl, hread⟩ := location_exact h
  obtain ⟨_, _, hcons, hhead⟩ := h.exists_cons
  obtain ⟨-, rfl⟩ := List.cons.inj hcons
  obtain ⟨t, ht, htExact⟩ := next?_exact hkinds
  have haccept : t.cursor.accept .lparen = none :=
    acceptKind_eq_none (htExact.kinds ▸ hhead more (hmore.head?_ne (Nat.le_refl 0)))
  have hlocation := hread t.cursor more t.value.span htExact.kinds hmore
  have hkind := htExact.value
  rw [atom, ht]
  simp only [hkind, haccept]
  exact ⟨hlocation.kinds, hlocation.quiet.trans htExact.quiet, hlocation.value⟩

theorem atom_of_call {c : Cursor} {name : String} {rest more : List TokenKind} {args : List Expr}
    (hkinds : c.kinds = .ident name :: .mark .lparen :: rest)
    (h : ∀ {d : Cursor}, d.kinds = rest → d.args.Exact more (Expr.relabelAll .unplaced · = args)) :
    c.atom.Exact more (·.relabel .unplaced = .call (.unplaced name) args {}) := by
  obtain ⟨t, ht, htExact⟩ := next?_exact hkinds
  obtain ⟨paren, hparen, hparenExact⟩ := accept_exact htExact.kinds
  have hargs := h hparenExact.kinds
  have hkind := htExact.value
  rw [atom, ht]
  simp only [hkind, hparen]
  refine ⟨hargs.kinds, hargs.quiet.trans (hparenExact.quiet.trans htExact.quiet), ?_⟩
  exact congrArg (Expr.call (.unplaced name) · {}) hargs.value

theorem args_of_list {c : Cursor} {more : List TokenKind} {es : List Expr}
    (h : (if c.isAt .rparen = true then c.stay [] else c.exprs).Exact (.mark .rparen :: more)
      (Expr.relabelAll .unplaced · = es)) :
    c.args.Exact more (Expr.relabelAll .unplaced · = es) := by
  have hclose := expect_exact h.kinds
  rw [args]
  exact ⟨hclose.kinds, hclose.quiet.trans h.quiet, h.value⟩

theorem exprs_of_last {c : Cursor} {more : List TokenKind} {e : Expr}
    (h : c.expr.Exact more (·.relabel .unplaced = e)) (hmore : more.head? ≠ some (.mark .comma)) :
    c.exprs.Exact more (Expr.relabelAll .unplaced · = [e]) := by
  have hcomma : c.expr.cursor.accept .comma = none := acceptKind_eq_none (h.kinds ▸ hmore)
  rw [exprs]
  dsimp only
  rw [hcomma]
  exact ⟨h.kinds, h.quiet, congrArg ([·]) h.value⟩

theorem exprs_of_cons {c : Cursor} {rest more : List TokenKind} {e : Expr} {es : List Expr}
    (h : c.expr.Exact (.mark .comma :: rest) (·.relabel .unplaced = e))
    (hmore : ∀ {d : Cursor}, d.kinds = rest → d.exprs.Exact more (Expr.relabelAll .unplaced · = es)) :
    c.exprs.Exact more (Expr.relabelAll .unplaced · = e :: es) := by
  obtain ⟨comma, hcomma, hcommaExact⟩ := accept_exact h.kinds
  have hes := hmore hcommaExact.kinds
  rw [exprs]
  dsimp only
  rw [hcomma]
  refine ⟨hes.kinds, hes.quiet.trans (hcommaExact.quiet.trans h.quiet), ?_⟩
  show Expr.relabel .unplaced _ :: Expr.relabelAll .unplaced _ = e :: es
  rw [h.value, hes.value]

/-- What a target derives is read on the loosest level. -/
theorem level_of_target {ks : List TokenKind} {location : Location} (h : DerivesTarget ks location) :
    ∀ {c : Cursor} {more : List TokenKind}, c.kinds = ks ++ more → Follows 5 more →
      (c.level .or).Exact more (·.relabel .unplaced = .place location {}) := by
  induction h with
  | location h =>
    intro c more hkinds hmore
    obtain ⟨name, ls, rfl, -⟩ := h.exists_cons
    refine level_of_unary (unary_of_atom (atom_of_location h hkinds (hmore.mono (by decide))) ?_) .or hmore
    rw [hkinds]
    exact nofun
  | parens _ ih =>
    intro c more hkinds hmore
    rw [List.append_assoc] at hkinds
    refine level_of_unary (unary_of_atom (atom_of_parens hkinds ?_) ?_) .or hmore
    · intro d hd
      exact expr_of_level (ih hd (follows_cons (by decide))) (follows_cons (by decide))
    · rw [hkinds]
      exact fun op => by cases op <;> exact nofun

mutual

theorem expr_exact {ks e} : DerivesExpr ks e → ∀ {c : Cursor} {more : List TokenKind},
    c.kinds = ks ++ more → Follows 6 more → c.expr.Exact more (·.relabel .unplaced = e)
  | .level h, _, _, hkinds, hmore =>
    expr_of_level ((level_reaches h hkinds (hmore.mono (by decide))).exact (hmore.mono (by decide))) hmore
  | .assign htarget hvalue, _, _, hkinds, hmore => by
    rw [List.append_assoc] at hkinds
    exact expr_of_assign (level_of_target htarget hkinds (follows_cons (by decide)))
      fun hd => expr_exact hvalue hd hmore

theorem level_reaches {l ks e} : DerivesLevel l ks e → ∀ {c : Cursor} {more : List TokenKind},
    c.kinds = ks ++ more → Follows l.rank more → ReachesTail l c more e
  | .operand h, _, _, hkinds, hmore => level_of_operand (operand_exact h hkinds hmore)
  | .joined op hlevel hleft hright, _, _, hkinds, hmore => by
    rw [List.append_assoc] at hkinds
    obtain ⟨left, again, d, hsame, hd, hfindings, rfl⟩ := level_reaches hleft hkinds
      (follows_cons (by rw [op.looseness_mark]; exact Nat.lt_succ_self _))
    exact .binary rfl hsame (by simp [hlevel]) hd hfindings fun he => operand_exact hright he hmore
  | .compared op hlevel hleft hright, _, _, hkinds, hmore => by
    rw [List.append_assoc] at hkinds
    have hfirst := operand_exact hleft hkinds (follows_cons (by rw [op.looseness_mark, hlevel]; decide))
    have hcompared := ReachesTail.binary hlevel (level_operand ..) rfl hfirst.kinds hfirst.quiet
      fun he => operand_exact hright he hmore
    rwa [hfirst.value] at hcompared

theorem operand_exact {l ks e} : DerivesOperand l ks e → ∀ {c : Cursor} {more : List TokenKind},
    c.kinds = ks ++ more → Follows l.rank more → (c.operand l).Exact more (·.relabel .unplaced = e)
  | .or h, _, _, hkinds, hmore => by
    rw [operand_eq_level rfl]
    exact (level_reaches h hkinds (hmore.mono (by decide))).exact hmore
  | .and h, _, _, hkinds, hmore => by
    rw [operand_eq_level rfl]
    exact (level_reaches h hkinds (hmore.mono (by decide))).exact hmore
  | .comparison h, _, _, hkinds, hmore => by
    rw [operand_eq_level rfl]
    exact (level_reaches h hkinds (hmore.mono (by decide))).exact hmore
  | .sum h, _, _, hkinds, hmore => by
    rw [operand_eq_level rfl]
    exact (level_reaches h hkinds (hmore.mono (by decide))).exact hmore
  | .product h, _, _, hkinds, hmore => by
    rw [operand_eq_unary]
    exact unary_exact h hkinds hmore

theorem unary_exact {ks e} : DerivesUnary ks e → ∀ {c : Cursor} {more : List TokenKind},
    c.kinds = ks ++ more → Follows 0 more → c.unary.Exact more (·.relabel .unplaced = e)
  | .atom h, _, _, hkinds, hmore => by
    refine unary_of_atom (atom_exact h hkinds hmore) ?_
    obtain ⟨k, ls, rfl, hk⟩ := h.exists_cons
    rw [hkinds]
    exact fun op hhead => hk op (Option.some.inj hhead)
  | .op op h, _, _, hkinds, hmore => unary_of_op op hkinds fun hd => unary_exact h hd hmore

theorem atom_exact {ks e} : DerivesAtom ks e → ∀ {c : Cursor} {more : List TokenKind},
    c.kinds = ks ++ more → Follows 0 more → c.atom.Exact more (·.relabel .unplaced = e)
  | .literal value, _, _, hkinds, _ => atom_of_literal value hkinds
  | .place h, _, _, hkinds, hmore => atom_of_location h hkinds hmore
  | .parens h, _, _, hkinds, _ => by
    rw [List.append_assoc] at hkinds
    exact atom_of_parens hkinds fun hd => expr_exact h hd (follows_cons (by decide))
  | .call name h, _, _, hkinds, _ => by
    rw [List.append_assoc] at hkinds
    exact atom_of_call hkinds fun hd => args_exact h hd

theorem args_exact {ks es} : DerivesArgs ks es → ∀ {c : Cursor} {more : List TokenKind},
    c.kinds = ks ++ .mark .rparen :: more → c.args.Exact more (Expr.relabelAll .unplaced · = es)
  | .none, c, _, hkinds => by
    refine args_of_list ?_
    rw [if_pos ((c.isAt_iff _).2 (by rw [hkinds]; rfl))]
    exact exact_stay hkinds rfl
  | .some h, c, _, hkinds => by
    have hhead : c.kinds.head? ≠ some (.mark .rparen) := hkinds ▸ (h.starts.append _).head?_ne rfl
    refine args_of_list ?_
    rw [if_neg fun hat => hhead ((c.isAt_iff _).1 hat)]
    exact exprs_exact h hkinds

theorem exprs_exact {ks es} : DerivesExprs ks es → ∀ {c : Cursor} {more : List TokenKind},
    c.kinds = ks ++ .mark .rparen :: more →
      c.exprs.Exact (.mark .rparen :: more) (Expr.relabelAll .unplaced · = es)
  | .last h, _, _, hkinds => exprs_of_last (expr_exact h hkinds (follows_cons (by decide))) nofun
  | .cons h hmore, _, _, hkinds => by
    rw [List.append_assoc] at hkinds
    exact exprs_of_cons (expr_exact h hkinds (follows_cons (by decide))) fun hd => exprs_exact hmore hd

end

end Cursor

end Namescope
