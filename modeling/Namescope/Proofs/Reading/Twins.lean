import Namescope.Proofs.Token.Lines
import Namescope.Proofs.Tree.Relabel
import Namescope.Proofs.Reading.Expression
/-!
# Cursors side by side

Two token lists begin alike, spans apart, and then go on each with its own tokens. As long as nothing
looks behind the common front, both are read in the same way: the trees are equal up to their spans, and
so are the findings.
-/
namespace Namescope

/-! ## Spans of relabelled expressions -/

theorem Expr.span_relabel (f : Relabel) (e : Expr) : (e.relabel f).span = f.span e.span := by
  cases e <;> rfl

theorem Expr.withSpan_relabel (f : Relabel) (e : Expr) (span : Span) :
    (e.withSpan span).relabel f = (e.relabel f).withSpan (f.span span) := by
  cases e <;> rfl

/-! ## The token behind a cursor -/

namespace Cursor

theorem last_next {c : Cursor} {t : Step Token c} (h : c.next? = some t) : t.cursor.last = some t.value.span := by
  unfold next? at h
  split at h
  · cases h
  · split at h
    · cases h
    · cases h
      rfl

theorem last_acceptKind {c : Cursor} {kind : TokenKind} {t : Step Span c} (h : c.acceptKind kind = some t) :
    t.cursor.last = some t.value := by
  unfold acceptKind at h
  split at h
  · next u hu =>
    split at h
    · cases h
      exact last_next hu
    · cases h
  · cases h

end Cursor

/-- Takes the next token if it is a mark that `read` gives a meaning. -/
def Cursor.marked? {α : Type} (c : Cursor) (read : Mark → Option α) : Option (Step α c) :=
  match c.next? with
  | none => none
  | some t =>
    match t.value.kind with
    | .mark m => (read m).map t.replace
    | _ => none

theorem Cursor.operator?_eq_marked? (c : Cursor) (l : OperatorLevel) : c.operator? l = c.marked? l.operator? := rfl

theorem Cursor.prefixOp?_eq_marked? (c : Cursor) : c.prefixOp? = c.marked? UnaryOp.ofMark? := rfl

theorem Cursor.tail_none {c : Cursor} {l : OperatorLevel} (h : c.operator? l = none) (left : Expr) (again : Bool) :
    c.tail l left again = c.stay left := by
  rw [tail, h]

/-- Two token lists go on with `back` and `back'` behind a common front, whose spans are moved in the second
list. -/
structure Seam where
  move : Span → Span
  move_merge : ∀ span other, move (span.merge other) = (move span).merge (move other)
  back : List Token
  back' : List Token

namespace Seam

/-- Moves the spans of a tree. -/
def label (s : Seam) : Relabel := { span := s.move }

theorem label_merge (s : Seam) (span other : Span) :
    s.label.span (span.merge other) = (s.label.span span).merge (s.label.span other) := s.move_merge span other

/-- Both lists go on with their end. -/
def Ends (s : Seam) : Prop := ∃ t more more', t.kind = .eof ∧ s.back = t :: more ∧ s.back' = t.mapSpan s.move :: more'

/-- What is next is in the common front, or it is the end of both lists. -/
def Clear (s : Seam) (c : Cursor) : Prop := s.back.length < c.rest.length ∨ s.Ends

/-- Two cursors at the same place of the common front. -/
structure Twin (s : Seam) (c c' : Cursor) : Prop where
  rest : ∃ front, c.rest = front ++ s.back ∧ c'.rest = front.map (Token.mapSpan s.move) ++ s.back'
  last : c'.last = c.last.map s.move
  findings : c'.findings = c.findings.map (Finding.mapSpan s.move)

/-- The second reading gives what `m` makes of the first one, and both get to the same place. -/
structure Agree {α : Type} {c c' : Cursor} (s : Seam) (m : α → α) (r : Read α c) (r' : Read α c') : Prop where
  value : r'.value = m r.value
  cursor : s.Twin r.cursor r'.cursor

/-- There is a last token, or else what is next is clear. -/
def Known (s : Seam) (c : Cursor) : Prop := s.Clear c ∨ ∃ span, c.last = some span

variable {s : Seam} {c d c' : Cursor}

/-- Agreement is about values and cursors alone. -/
theorem Agree.same {α : Type} {m : α → α} {d' : Cursor} {r : Read α c} {r' : Read α c'} {q : Read α d}
    {q' : Read α d'} (h : s.Agree m r r') (hsame : Cursor.Same q r) (hsame' : Cursor.Same q' r') : s.Agree m q q' where
  value := by rw [hsame.1, hsame'.1, h.value]
  cursor := by
    rw [hsame.2, hsame'.2]
    exact h.cursor

theorem Agree.kind {r : Read Token c} {r' : Read Token c'} (h : s.Agree (Token.mapSpan s.move) r r') :
    r'.value.kind = r.value.kind := by
  rw [h.value]
  rfl

theorem Agree.span {r : Read Token c} {r' : Read Token c'} (h : s.Agree (Token.mapSpan s.move) r r') :
    r'.value.span = s.move r.value.span := by
  rw [h.value]
  rfl

theorem Clear.mono (h : s.Clear d) (hsuffix : d.rest <:+ c.rest) : s.Clear c :=
  h.imp_left fun h => Nat.lt_of_lt_of_le h hsuffix.length_le

/-- What is clear behind a reading is clear in front of it. -/
theorem Clear.before {α : Type} {r : Read α c} (h : s.Clear r.cursor) : s.Clear c := h.mono r.suffix

theorem Clear.inner {α : Type} {r : Read α d} {hsuffix : d.rest <:+ c.rest}
    (h : s.Clear (r.widen hsuffix).cursor) : s.Clear d := Clear.before (r := r) h

theorem clear_noteIf (condition : Bool) (span : Span) (issue : SyntaxIssue) :
    s.Clear (c.noteIf condition span issue) ↔ s.Clear c := by
  rw [Clear, Cursor.rest_noteIf, ← Clear]

/-- A mark that was expected is the last token behind it, or what was next still is. -/
theorem Clear.known_expect (h : s.Clear c) (m : Mark) : s.Known (c.expect m).cursor := by
  unfold Cursor.expect
  cases ht : c.accept m with
  | none => exact .inl h
  | some t => exact .inr ⟨_, Cursor.last_acceptKind ht⟩

namespace Twin

/-- The next tokens of twins are of one kind, and unless they are the end there are twins behind them. -/
theorem next (h : s.Twin c c') (hc : s.Clear c) : ∃ t more more', c.rest = t :: more ∧
    c'.rest = t.mapSpan s.move :: more' ∧ (t.kind ≠ .eof →
      ∃ front, more = front ++ s.back ∧ more' = front.map (Token.mapSpan s.move) ++ s.back') := by
  obtain ⟨front, hrest, hrest'⟩ := h.rest
  cases front with
  | nil =>
    rcases hc with hlength | ⟨t, more, more', hkind, hback, hback'⟩
    · rw [hrest] at hlength
      exact absurd hlength (Nat.lt_irrefl _)
    · exact ⟨t, more, more', hrest.trans hback, hrest'.trans hback', fun hne => absurd hkind hne⟩
  | cons t front => exact ⟨t, _, _, hrest, hrest', fun _ => ⟨front, rfl, rfl⟩⟩

theorem here (h : s.Twin c c') (hc : s.Clear c) : c'.here = s.move c.here := by
  obtain ⟨t, more, more', hrest, hrest', -⟩ := h.next hc
  rw [Cursor.here, Cursor.here, hrest, hrest']
  rfl

theorem kind (h : s.Twin c c') (hc : s.Clear c) : c'.kind = c.kind := by
  obtain ⟨t, more, more', hrest, hrest', -⟩ := h.next hc
  rw [Cursor.kind, Cursor.kind, hrest, hrest']
  rfl

theorem isAt (h : s.Twin c c') (hc : s.Clear c) (m : Mark) : c'.isAt m = c.isAt m := by
  rw [Cursor.isAt, Cursor.isAt, h.kind hc]

theorem lastSpan_known (h : s.Twin c c') (hc : s.Known c) : c'.lastSpan = s.move c.lastSpan := by
  rw [Cursor.lastSpan, Cursor.lastSpan, h.last]
  rcases hc with hc | ⟨span, hspan⟩
  · rw [h.here hc]
    cases c.last <;> rfl
  · rw [hspan]
    rfl

theorem lastSpan (h : s.Twin c c') (hc : s.Clear c) : c'.lastSpan = s.move c.lastSpan :=
  h.lastSpan_known (.inl hc)

theorem noteAt {span span' : Span} (h : s.Twin c c') (hspan : span' = s.move span) (issue : SyntaxIssue) :
    s.Twin (c.noteAt span issue) (c'.noteAt span' issue) where
  rest := h.rest
  last := h.last
  findings := by
    subst hspan
    exact congrArg (Finding.mk issue (s.move span) :: ·) h.findings

theorem note (h : s.Twin c c') (hc : s.Clear c) (issue : SyntaxIssue) : s.Twin (c.note issue) (c'.note issue) :=
  h.noteAt (h.here hc) issue

theorem noteIf {condition condition' : Bool} {span span' : Span} (h : s.Twin c c')
    (hcondition : condition' = condition) (hspan : span' = s.move span) (issue : SyntaxIssue) :
    s.Twin (c.noteIf condition span issue) (c'.noteIf condition' span' issue) := by
  subst hcondition
  cases condition' with
  | true => exact h.noteAt hspan issue
  | false => exact h

/-! ## Single tokens -/

theorem next?_eq_none (h : s.Twin c c') (hc : s.Clear c) (hnone : c.next? = none) : c'.next? = none := by
  obtain ⟨t, more, more', hrest, hrest', -⟩ := h.next hc
  obtain ⟨rest, last, findings⟩ := c
  obtain ⟨rest', last', findings'⟩ := c'
  subst hrest hrest'
  by_cases hkind : t.kind = .eof
  · simp [Cursor.next?, Token.mapSpan, hkind]
  · simp [Cursor.next?, hkind] at hnone

theorem next?_eq_some {t : Step Token c} (h : s.Twin c c') (hc : s.Clear c) (hsome : c.next? = some t) :
    ∃ t', c'.next? = some t' ∧ s.Agree (Token.mapSpan s.move) t.toRead t'.toRead := by
  obtain ⟨u, more, more', hrest, hrest', hbehind⟩ := h.next hc
  have hlast := h.last
  have hfindings := h.findings
  obtain ⟨rest, last, findings⟩ := c
  obtain ⟨rest', last', findings'⟩ := c'
  subst hrest hrest'
  by_cases hkind : u.kind = .eof
  · simp [Cursor.next?, hkind] at hsome
  · simp only [Cursor.next?, if_neg hkind, Option.some.injEq] at hsome
    subst hsome
    have hkind' : (u.mapSpan s.move).kind ≠ .eof := hkind
    refine ⟨_, by simp only [Cursor.next?, if_neg hkind']; rfl, rfl, hbehind hkind, rfl, hfindings⟩

theorem acceptKind_eq_none {kind : TokenKind} (h : s.Twin c c') (hc : s.Clear c)
    (hnone : c.acceptKind kind = none) : c'.acceptKind kind = none := by
  unfold Cursor.acceptKind at hnone ⊢
  cases ht : c.next? with
  | none => rw [h.next?_eq_none hc ht]
  | some t =>
    obtain ⟨t', ht', hagree⟩ := h.next?_eq_some hc ht
    rw [ht] at hnone
    rw [ht']
    have hkind : t'.value.kind = t.value.kind := hagree.kind
    dsimp only at hnone ⊢
    rw [hkind]
    split at hnone
    · cases hnone
    · next hne => exact if_neg hne

theorem acceptKind_eq_some {kind : TokenKind} {t : Step Span c} (h : s.Twin c c')
    (hc : s.Clear c) (hsome : c.acceptKind kind = some t) :
    ∃ t', c'.acceptKind kind = some t' ∧ s.Agree s.move t.toRead t'.toRead := by
  unfold Cursor.acceptKind at hsome
  split at hsome
  · next u hu =>
    obtain ⟨u', hu', hagree⟩ := h.next?_eq_some hc hu
    have hkind : u'.value.kind = u.value.kind := hagree.kind
    split at hsome
    · next heq =>
      cases hsome
      refine ⟨u'.replace u'.value.span, ?_, ?_, hagree.cursor⟩
      · rw [Cursor.acceptKind, hu']
        exact if_pos (hkind.trans heq)
      · exact hagree.span
    · cases hsome
  · cases hsome

theorem accept_eq_none {m : Mark} (h : s.Twin c c') (hc : s.Clear c) (hnone : c.accept m = none) :
    c'.accept m = none := h.acceptKind_eq_none hc hnone

theorem accept_eq_some {m : Mark} {t : Step Span c} (h : s.Twin c c') (hc : s.Clear c)
    (hsome : c.accept m = some t) : ∃ t', c'.accept m = some t' ∧ s.Agree s.move t.toRead t'.toRead :=
  h.acceptKind_eq_some hc hsome

theorem expect (h : s.Twin c c') (hc : s.Clear c) (m : Mark) : s.Agree s.move (c.expect m) (c'.expect m) := by
  unfold Cursor.expect
  cases ht : c.accept m with
  | none =>
    rw [h.accept_eq_none hc ht]
    exact ⟨h.here hc, h.note hc _⟩
  | some t =>
    obtain ⟨t', ht', hagree⟩ := h.accept_eq_some hc ht
    rw [ht']
    exact hagree

theorem ident (h : s.Twin c c') (hc : s.Clear c) : s.Agree (Ident.relabel s.label) c.ident c'.ident := by
  unfold Cursor.ident
  cases ht : c.next? with
  | none =>
    rw [h.next?_eq_none hc ht]
    refine ⟨?_, h.note hc _⟩
    rw [h.here hc]
    rfl
  | some t =>
    obtain ⟨t', ht', hagree⟩ := h.next?_eq_some hc ht
    rw [ht']
    have hkind : t'.value.kind = t.value.kind := hagree.kind
    have hspan : t'.value.span = s.move t.value.span := hagree.span
    cases hk : t.value.kind with
    | ident name =>
      simp only [hkind, hk]
      refine ⟨?_, hagree.cursor⟩
      show Ident.mk name t'.value.span none = _
      rw [hspan]
      rfl
    | _ =>
      simp only [hkind, hk]
      refine ⟨?_, h.note hc _⟩
      rw [h.here hc]
      rfl

/-- Two readings that are left out in front of the same mark. -/
theorem unlessAt {α : Type} {m : α → α} {mark : Mark} {value value' : α} {r : Read α c} {r' : Read α c'}
    (h : s.Twin c c') (hc : s.Clear (if c.isAt mark then c.stay value else r).cursor) (hvalue : value' = m value)
    (hr : s.Clear r.cursor → s.Agree m r r') :
    s.Agree m (if c.isAt mark then c.stay value else r) (if c'.isAt mark then c'.stay value' else r') := by
  rw [h.isAt hc.before]
  cases hat : c.isAt mark with
  | true => exact ⟨hvalue, h⟩
  | false =>
    rw [hat] at hc
    exact hr hc

theorem marked?_eq_none {α : Type} {read : Mark → Option α} (h : s.Twin c c') (hc : s.Clear c)
    (hnone : c.marked? read = none) : c'.marked? read = none := by
  unfold Cursor.marked? at hnone ⊢
  cases ht : c.next? with
  | none => rw [h.next?_eq_none hc ht]
  | some t =>
    obtain ⟨t', ht', hagree⟩ := h.next?_eq_some hc ht
    rw [ht] at hnone
    rw [ht']
    dsimp only at hnone ⊢
    rw [hagree.kind]
    cases hk : t.value.kind with
    | mark m => simpa [hk] using hnone
    | _ => rfl

theorem marked?_eq_some {α : Type} {read : Mark → Option α} {t : Step α c} (h : s.Twin c c') (hc : s.Clear c)
    (hsome : c.marked? read = some t) : ∃ t', c'.marked? read = some t' ∧ s.Agree id t.toRead t'.toRead := by
  unfold Cursor.marked? at hsome
  split at hsome
  · cases hsome
  next u hu =>
  obtain ⟨u', hu', hagree⟩ := h.next?_eq_some hc hu
  split at hsome
  · next m hm =>
    obtain ⟨meaning, hmeaning, rfl⟩ := Option.map_eq_some_iff.1 hsome
    refine ⟨u'.replace meaning, ?_, rfl, hagree.cursor⟩
    simp only [Cursor.marked?, hu', hagree.kind, hm, hmeaning, Option.map_some]
  · cases hsome

theorem operator?_eq_none {l : OperatorLevel} (h : s.Twin c c') (hc : s.Clear c)
    (hnone : c.operator? l = none) : c'.operator? l = none := by
  rw [Cursor.operator?_eq_marked?] at hnone ⊢
  exact h.marked?_eq_none hc hnone

theorem operator?_eq_some {l : OperatorLevel} {t : Step BinaryOp c} (h : s.Twin c c') (hc : s.Clear c)
    (hsome : c.operator? l = some t) : ∃ t', c'.operator? l = some t' ∧ s.Agree id t.toRead t'.toRead := by
  rw [Cursor.operator?_eq_marked?] at hsome ⊢
  exact h.marked?_eq_some hc hsome

theorem prefixOp?_eq_none (h : s.Twin c c') (hc : s.Clear c) (hnone : c.prefixOp? = none) :
    c'.prefixOp? = none := by
  rw [Cursor.prefixOp?_eq_marked?] at hnone ⊢
  exact h.marked?_eq_none hc hnone

theorem prefixOp?_eq_some {t : Step UnaryOp c} (h : s.Twin c c') (hc : s.Clear c)
    (hsome : c.prefixOp? = some t) : ∃ t', c'.prefixOp? = some t' ∧ s.Agree id t.toRead t'.toRead := by
  rw [Cursor.prefixOp?_eq_marked?] at hsome ⊢
  exact h.marked?_eq_some hc hsome

/-! ## Expressions -/

theorem fields {c c' : Cursor} (location : Location) (h : s.Twin c c')
    (hc : s.Clear (c.fields location).cursor) :
    s.Agree (Location.relabel s.label) (c.fields location) (c'.fields (location.relabel s.label)) := by
  cases hdot : c.accept .dot with
  | none =>
    rw [Cursor.fields_none hdot] at hc ⊢
    rw [Cursor.fields_none (h.accept_eq_none hc hdot)]
    exact ⟨rfl, h⟩
  | some dot =>
    have hshorter := dot.shorter
    have hlength := dot.cursor.ident.length_le
    rw [Cursor.fields, hdot] at hc
    have hname : s.Clear dot.cursor.ident.cursor :=
      Clear.before (r := dot.cursor.ident.cursor.fields (.field location dot.cursor.ident.value none)) hc
    have hdotClear : s.Clear dot.cursor := hname.before
    obtain ⟨dot', hdot', hagree⟩ := h.accept_eq_some (Clear.before (r := dot.toRead) hdotClear) hdot
    have hident := hagree.cursor.ident hdotClear
    have hmore := fields (.field location dot.cursor.ident.value none) hident.cursor hc
    rw [Location.relabel, ← hident.value] at hmore
    rw [Cursor.fields, hdot, Cursor.fields, hdot']
    exact ⟨hmore.value, hmore.cursor⟩
termination_by c.rest.length

theorem location (name : Ident) (h : s.Twin c c') (hc : s.Clear (c.location name).cursor) :
    s.Agree (Expr.relabel s.label) (c.location name) (c'.location (name.relabel s.label)) := by
  have hfields := h.fields (.name name) hc
  refine ⟨?_, hfields.cursor⟩
  show Expr.place (c'.fields (.name (name.relabel s.label))).value
      ((s.move name.span).merge (c'.fields (.name (name.relabel s.label))).cursor.lastSpan) = _
  have hvalue := hfields.value
  have hlast := hfields.cursor.lastSpan hc
  rw [Location.relabel] at hvalue hlast
  rw [hvalue, hlast, ← s.move_merge]
  rfl

mutual

theorem expr {c c' : Cursor} (h : s.Twin c c') (hc : s.Clear c.expr.cursor) :
    s.Agree (Expr.relabel s.label) c.expr c'.expr := by
  rw [Cursor.expr] at hc
  dsimp only at hc
  rw [Cursor.expr, Cursor.expr]
  split at hc
  · next hsign =>
    have htarget := h.level .or hc
    simp only [htarget.cursor.accept_eq_none hc hsign]
    exact htarget
  · next sign hsign =>
    have hlength := (c.level .or).length_le
    have hshorter := sign.shorter
    have hsignClear := (clear_noteIf ..).1
      (Clear.before (r := (sign.cursor.noteIf _ sign.value .targetExpected).expr) hc)
    have htargetClear := Clear.before (r := sign.toRead) hsignClear
    have htarget := h.level .or htargetClear
    obtain ⟨sign', hsign', hagree⟩ := htarget.cursor.accept_eq_some htargetClear hsign
    have hcondition : (!(c'.level .or).value.isLocation) = !(c.level .or).value.isLocation := by
      rw [htarget.value, Expr.isLocation_relabel]
    have hvalue := (hagree.cursor.noteIf hcondition hagree.value .targetExpected).expr hc
    simp only [hsign']
    refine ⟨?_, hvalue.cursor⟩
    show Expr.assign _ _ (Span.merge _ _) = Expr.assign _ _ (s.move (Span.merge _ _))
    rw [hvalue.value, htarget.value, Expr.span_relabel, Expr.span_relabel, s.move_merge]
    rfl
termination_by 15 * c.rest.length + 12
decreasing_by
  · simp [OperatorLevel.rank]
  · simp [OperatorLevel.rank]
  · simp only [Cursor.rest_noteIf]; omega

theorem level {c c' : Cursor} (l : OperatorLevel) (h : s.Twin c c') (hc : s.Clear (c.level l).cursor) :
    s.Agree (Expr.relabel s.label) (c.level l) (c'.level l) := by
  rw [Cursor.level] at hc
  rw [Cursor.level, Cursor.level]
  have hlength := (c.operand l).length_le
  have hfirst : s.Clear (c.operand l).cursor :=
    Clear.before (r := (c.operand l).cursor.tail l (c.operand l).value false) hc
  have hoperand := h.operand l hfirst
  have htail := hoperand.cursor.tail l (c.operand l).value false hc
  rw [← hoperand.value] at htail
  exact ⟨htail.value, htail.cursor⟩
termination_by 15 * c.rest.length + (2 * l.rank + 3)
decreasing_by
  · omega
  · omega

theorem operand {c c' : Cursor} (l : OperatorLevel) (h : s.Twin c c') (hc : s.Clear (c.operand l).cursor) :
    s.Agree (Expr.relabel s.label) (c.operand l) (c'.operand l) := by
  rw [Cursor.operand] at hc ⊢
  rw [Cursor.operand]
  split at hc
  · next m hm =>
    have hrank := OperatorLevel.rank_of_tighter? hm
    exact h.level m hc
  · exact h.unary hc
termination_by 15 * c.rest.length + (2 * l.rank + 2)
decreasing_by
  · omega
  · omega

theorem tail {c c' : Cursor} (l : OperatorLevel) (left : Expr) (again : Bool) (h : s.Twin c c')
    (hc : s.Clear (c.tail l left again).cursor) :
    s.Agree (Expr.relabel s.label) (c.tail l left again) (c'.tail l (left.relabel s.label) again) := by
  cases hop : c.operator? l with
  | none =>
    rw [Cursor.tail_none hop] at hc ⊢
    rw [Cursor.tail_none (h.operator?_eq_none hc hop)]
    exact ⟨rfl, h⟩
  | some op =>
    have hsame := Cursor.tail_operator hop left again
    extract_lets start right at hsame
    have hshorter := op.shorter
    have hrank : l.rank ≤ 4 := by cases l <;> decide
    have hrest : start.rest.length = op.cursor.rest.length := congrArg List.length (Cursor.rest_noteIf ..)
    have hlength := right.length_le
    rw [hsame.2] at hc
    have hright := Clear.before hc
    have hcClear := Clear.before (r := op.toRead) ((clear_noteIf ..).1 (Clear.before (r := right) hright))
    obtain ⟨op', hop', hagree⟩ := h.operator?_eq_some hcClear hop
    have hoperand := (hagree.cursor.noteIf rfl (h.here hcClear) .chainedComparison).operand l hright
    have htail := hoperand.cursor.tail l _ true hc
    have hvalue : op'.value = op.value := hagree.value
    refine htail.same hsame ?_
    rw [Expr.relabel, s.label_merge, ← Expr.span_relabel, ← Expr.span_relabel, ← hoperand.value, ← hvalue]
    exact Cursor.tail_operator hop' ..
termination_by 15 * c.rest.length
decreasing_by
  · omega
  · omega

theorem unary {c c' : Cursor} (h : s.Twin c c') (hc : s.Clear c.unary.cursor) :
    s.Agree (Expr.relabel s.label) c.unary c'.unary := by
  rw [Cursor.unary] at hc
  rw [Cursor.unary, Cursor.unary]
  split at hc
  · next hop =>
    have hatom := h.atom hc
    simp only [h.prefixOp?_eq_none hc.before hop]
    exact hatom
  · next op hop =>
    have hshorter := op.shorter
    have hopClear : s.Clear op.cursor := Clear.before (r := op.cursor.unary) hc
    obtain ⟨op', hop', hagree⟩ := h.prefixOp?_eq_some (Clear.before (r := op.toRead) hopClear) hop
    have hinner := hagree.cursor.unary hc
    simp only [hop']
    refine ⟨?_, hinner.cursor⟩
    show Expr.unary _ _ (Span.merge _ _) = Expr.unary _ _ (s.move (Span.merge _ _))
    rw [hinner.value, hagree.value, h.here hopClear.before, Expr.span_relabel, s.move_merge]
    rfl
termination_by 15 * c.rest.length + 1
decreasing_by
  · omega
  · omega

theorem atom {c c' : Cursor} (h : s.Twin c c') (hc : s.Clear c.atom.cursor) :
    s.Agree (Expr.relabel s.label) c.atom c'.atom := by
  have hnone (hclear : s.Clear c) : s.Agree (Expr.relabel s.label)
      (⟨.literal (.int 0) c.here, c.note .expressionExpected, List.suffix_refl _⟩ : Read Expr c)
      (⟨.literal (.int 0) c'.here, c'.note .expressionExpected, List.suffix_refl _⟩ : Read Expr c') := by
    refine ⟨?_, h.note hclear _⟩
    rw [h.here hclear]
    rfl
  rw [Cursor.atom] at hc
  rw [Cursor.atom, Cursor.atom]
  split at hc
  · next ht =>
    simp only [h.next?_eq_none hc ht]
    exact hnone hc
  next t ht =>
  have hshorter := t.shorter
  have hagree (hclear : s.Clear t.cursor) := h.next?_eq_some (Clear.before (r := t.toRead) hclear) ht
  split at hc
  · next value hk =>
    obtain ⟨t', ht', hagree⟩ := hagree hc
    simp only [hk, ht', hagree.kind, hagree.span]
    exact ⟨rfl, hagree.cursor⟩
  · next raw hk =>
    obtain ⟨t', ht', hagree⟩ := hagree hc
    simp only [hk, ht', hagree.kind, hagree.span]
    exact ⟨rfl, hagree.cursor⟩
  · next value hk =>
    obtain ⟨t', ht', hagree⟩ := hagree hc
    simp only [hk, ht', hagree.kind, hagree.span]
    exact ⟨rfl, hagree.cursor⟩
  · next hk =>
    have hinner : s.Clear t.cursor.expr.cursor := Clear.before (r := t.cursor.expr.cursor.expect .rparen) hc
    obtain ⟨t', ht', hagree⟩ := hagree hinner.before
    have hexpr := hagree.cursor.expr hinner
    have hclose := hexpr.cursor.expect hinner .rparen
    simp only [hk, ht', hagree.kind]
    refine ⟨?_, hclose.cursor⟩
    show Expr.withSpan (Span.merge _ _) _ = Expr.relabel _ (Expr.withSpan (Span.merge _ _) _)
    rw [hclose.value, hexpr.value, hagree.span, ← s.move_merge, Expr.withSpan_relabel]
    rfl
  · next name hk =>
    split at hc
    · next hparen =>
      have htClear : s.Clear t.cursor := Clear.before (r := t.cursor.location ⟨name, t.value.span, none⟩) hc
      obtain ⟨t', ht', hagree⟩ := hagree htClear
      have hlocation := hagree.cursor.location ⟨name, t.value.span, none⟩ hc
      simp only [hk, ht', hagree.kind, hagree.cursor.accept_eq_none htClear hparen, hagree.span]
      exact ⟨hlocation.value, hlocation.cursor⟩
    · next paren hparen =>
      have hparenShorter := paren.shorter
      have hparenClear : s.Clear paren.cursor := Clear.before (r := paren.cursor.args) hc
      have htClear : s.Clear t.cursor := Clear.before (r := paren.toRead) hparenClear
      obtain ⟨t', ht', hagree⟩ := hagree htClear
      obtain ⟨paren', hparen', hparenAgree⟩ := hagree.cursor.accept_eq_some htClear hparen
      have hargs := hparenAgree.cursor.args hc
      simp only [hk, ht', hagree.kind, hparen', hagree.span]
      refine ⟨?_, hargs.cursor⟩
      show Expr.call _ _ (Span.merge _ _) = Expr.call _ _ (s.move (Span.merge _ _))
      rw [hargs.value, hargs.cursor.lastSpan hc, ← s.move_merge]
      rfl
  · next hint hstring hbool hlparen hident =>
    obtain ⟨t', ht', hagree⟩ := h.next?_eq_some hc ht
    simp only [ht', hagree.kind]
    exact hnone hc
termination_by 15 * c.rest.length
decreasing_by
  · omega
  · omega

theorem args {c c' : Cursor} (h : s.Twin c c') (hc : s.Clear c.args.cursor) :
    s.Agree (Expr.relabelAll s.label) c.args c'.args := by
  rw [Cursor.args] at hc
  rw [Cursor.args, Cursor.args]
  have hlistClear : s.Clear (if c.isAt .rparen then c.stay [] else c.exprs).cursor :=
    Clear.before (r := Cursor.expect _ .rparen) hc
  have hlist := h.unlessAt hlistClear (m := Expr.relabelAll s.label) rfl fun hexprs => h.exprs hexprs
  exact ⟨hlist.value, (hlist.cursor.expect hlistClear .rparen).cursor⟩
termination_by 15 * c.rest.length + 14
decreasing_by omega

theorem exprs {c c' : Cursor} (h : s.Twin c c') (hc : s.Clear c.exprs.cursor) :
    s.Agree (Expr.relabelAll s.label) c.exprs c'.exprs := by
  have hlength := c.expr.length_le
  rw [Cursor.exprs] at hc
  dsimp only at hc
  rw [Cursor.exprs, Cursor.exprs]
  split at hc
  · next hcomma =>
    have hfirst := h.expr hc
    simp only [hfirst.cursor.accept_eq_none hc hcomma]
    exact ⟨congrArg ([·]) hfirst.value, hfirst.cursor⟩
  · next comma hcomma =>
    have hshorter := comma.shorter
    have hcommaClear : s.Clear comma.cursor := Clear.before (r := comma.cursor.exprs) hc
    have hfirstClear := Clear.before (r := comma.toRead) hcommaClear
    have hfirst := h.expr hfirstClear
    obtain ⟨comma', hcomma', hagree⟩ := hfirst.cursor.accept_eq_some hfirstClear hcomma
    have hmore := hagree.cursor.exprs hc
    simp only [hcomma']
    refine ⟨?_, hmore.cursor⟩
    show _ :: _ = Expr.relabel _ _ :: Expr.relabelAll _ _
    rw [hfirst.value, hmore.value]
termination_by 15 * c.rest.length + 13
decreasing_by
  · omega
  · omega
  · omega

end

end Twin

end Seam

end Namescope
