import Namescope.Proofs.Reading.Paths
import Namescope.Proofs.Tree.WellFormed
/-!
# Expressions are well-formed, errors or not

However many errors are noted on the way, an expression that is read is well-formed, if an assignment to
something else than a location is excused by what is noted at it. No brace is taken for an expression.
-/
namespace Namescope

/-- Whether a token is a brace. -/
def TokenKind.isBrace : TokenKind → Bool
  | .mark .lbrace | .mark .rbrace => true
  | _ => false

theorem BinaryOp.isBrace_mark (op : BinaryOp) : (TokenKind.mark op.mark).isBrace = false := by
  cases op <;> rfl

theorem UnaryOp.isBrace_mark (op : UnaryOp) : (TokenKind.mark op.mark).isBrace = false := by
  cases op <;> rfl

namespace Cursor

/-! ## Paths on which something is made -/

/-- Whatever is noted so far about the target of an assignment is excused. -/
def Excuses (excused : Prop) (c : Cursor) : Prop := ∀ f ∈ c.findings, f.issue = .targetExpected → excused

/-- A path leads from `c` to `d`, and all tokens on it are as `K` says. If they can be written, and a target
that is noted is excused, then `P` holds. -/
def Makes (K : TokenKind → Prop) (excused : Prop) (c d : Cursor) (P : Prop) : Prop :=
  ∃ ts, c.Goes ts d ∧ (∀ t ∈ ts, K t.kind) ∧ ((∀ t ∈ ts, Writable t.kind) → d.Excuses excused → P)

namespace Makes
variable {K : TokenKind → Prop} {excused : Prop} {c d e : Cursor} {P Q : Prop}

theorem stay (h : P) : c.Makes K excused c P := ⟨[], .stop, List.forall_mem_nil _, fun _ _ => h⟩

theorem imp (h : c.Makes K excused d P) (hPQ : P → Q) : c.Makes K excused d Q := by
  obtain ⟨ts, hgoes, hts, hP⟩ := h
  exact ⟨ts, hgoes, hts, fun hwritable hexcused => hPQ (hP hwritable hexcused)⟩

/-- What is noted is not taken back, so the later cursor excuses no more than the earlier one. -/
theorem andThen (h : c.Makes K excused d P) (h' : d.Makes K excused e Q) : c.Makes K excused e (P ∧ Q) := by
  obtain ⟨ts, hgoes, hts, hP⟩ := h
  obtain ⟨us, hgoes', hus, hQ⟩ := h'
  refine ⟨ts ++ us, hgoes.trans hgoes', List.forall_mem_append.2 ⟨hts, hus⟩, fun hwritable hexcused => ?_⟩
  obtain ⟨hwritten, hwritten'⟩ := List.forall_mem_append.1 hwritable
  refine ⟨hP hwritten fun f hf => hexcused f ?_, hQ hwritten' hexcused⟩
  obtain ⟨notes, -, hnotes, -⟩ := hgoes'.findings
  rw [hnotes]
  exact List.mem_append_right _ hf

theorem mono {K' : TokenKind → Prop} (h : c.Makes K excused d P) (hK : ∀ k, K k → K' k) :
    c.Makes K' excused d P := by
  obtain ⟨ts, hgoes, hts, hP⟩ := h
  exact ⟨ts, hgoes, fun t ht => hK _ (hts t ht), hP⟩

end Makes

variable {K : TokenKind → Prop} {excused : Prop} {c : Cursor}

theorem makes_note (c : Cursor) (issue : SyntaxIssue) {P : Prop} (h : P) :
    c.Makes K excused (c.note issue) P := ⟨[], .note issue .stop, List.forall_mem_nil _, fun _ _ => h⟩

theorem makes_next {t : Step Token c} (h : c.next? = some t) (hK : K t.value.kind) :
    c.Makes K excused t.cursor (Writable t.value.kind) :=
  ⟨_, goes_next h, List.forall_mem_singleton.2 hK, fun hwritable _ => hwritable _ List.mem_cons_self⟩

theorem makes_next_noteAt {t : Step Token c} (h : c.next? = some t) (hK : K t.value.kind) (issue : SyntaxIssue) :
    c.Makes K excused (t.cursor.noteAt t.value.span issue) (issue = .targetExpected → excused) :=
  ⟨_, goes_next_noteAt h issue, List.forall_mem_singleton.2 hK,
    fun _ hexcused hissue => hexcused _ List.mem_cons_self hissue⟩

/-- If the target is noted it is excused. -/
theorem makes_next_noteIf {t : Step Token c} (h : c.next? = some t) (hK : K t.value.kind) (condition : Bool)
    (issue : SyntaxIssue) : c.Makes K excused (t.cursor.noteIf condition t.value.span issue)
      (issue = .targetExpected → condition = false ∨ excused) := by
  cases condition with
  | true => exact (makes_next_noteAt h hK issue).imp fun hexcused hissue => .inr (hexcused hissue)
  | false => exact (makes_next h hK).imp fun _ _ => .inl rfl

theorem makes_next_of_kind {t : Step Token c} (h : c.next? = some t) {kind : TokenKind} (hkind : t.value.kind = kind)
    (hK : K kind) : c.Makes K excused t.cursor (Writable kind) := by
  rw [← hkind] at hK ⊢
  exact makes_next h hK

theorem makes_acceptKind {kind : TokenKind} {t : Step Span c} (h : c.acceptKind kind = some t) (hK : K kind) :
    c.Makes K excused t.cursor True := by
  obtain ⟨u, hu, hvalue, hcursor⟩ := next_of_acceptKind h
  rw [hcursor]
  exact (makes_next hu (by rwa [hvalue])).imp fun _ => trivial

theorem makes_accept {mark : Mark} {t : Step Span c} (h : c.accept mark = some t) (hK : K (.mark mark)) :
    c.Makes K excused t.cursor True := makes_acceptKind h hK

theorem makes_accept_noteIf {mark : Mark} {t : Step Span c} (h : c.accept mark = some t) (hK : K (.mark mark))
    (condition : Bool) (issue : SyntaxIssue) : c.Makes K excused (t.cursor.noteIf condition t.value issue)
      (issue = .targetExpected → condition = false ∨ excused) := by
  obtain ⟨u, hu, hvalue, hcursor⟩ := next_of_acceptKind h
  have hspan : t.value = u.value.span := by rw [hvalue]
  rw [hcursor, hspan]
  exact makes_next_noteIf hu (by rwa [hvalue]) condition issue

theorem makes_expect (c : Cursor) {m : Mark} (hK : K (.mark m)) :
    c.Makes K excused (c.expect m).cursor True := by
  unfold expect
  split
  · next t h => exact makes_accept h hK
  · exact c.makes_note _ trivial

end Cursor

/-- Something is made on the path to what was read. -/
def Read.Makes {α : Type} {c : Cursor} (r : Read α c) (K : TokenKind → Prop) (excused : Prop) (P : α → Prop) :
    Prop :=
  c.Makes K excused r.cursor (P r.value)

theorem Ident.wellFormed_missing (span : Span) : (⟨"_", span, none⟩ : Ident).WellFormed where
  isName := by
    have hletters : "_".toList = ['_'] := rfl
    rw [hletters]
    refine ⟨⟨'_', rfl, by decide⟩, List.forall_mem_singleton.2 (by decide), ?_, ?_⟩
    · intro k
      cases k <;> decide
    · intro b
      cases b <;> decide
  unresolved := rfl

theorem Ident.wellFormed_of_writable {name : String} (h : Writable (.ident name)) (span : Span) :
    (⟨name, span, none⟩ : Ident).WellFormed := by
  cases h with
  | ident hname => exact ⟨hname, rfl⟩

/-- The token of a constant can be written only if the constant is well-formed. -/
theorem Literal.wellFormed_of_writable {value : Literal} (h : Writable value.token) : value.WellFormed := by
  cases value with
  | int =>
    cases h with
    | int hle => exact ⟨Int.natCast_nonneg _, Int.ofNat_le.2 hle⟩
  | string =>
    cases h with
    | string hknown => exact ⟨_, hknown, rfl⟩
  | bool => trivial

namespace Cursor

variable {excused : Prop} {c : Cursor}

/-- In place of a missing name stands one that could have been written. -/
theorem ident_makes {K : TokenKind → Prop} (hK : ∀ name, K (.ident name)) (c : Cursor) :
    c.ident.Makes K excused Ident.WellFormed := by
  unfold ident
  split
  · next t ht =>
    split
    · next name hkind =>
      exact (makes_next_of_kind ht hkind (hK name)).imp fun h => Ident.wellFormed_of_writable h _
    · exact c.makes_note _ (Ident.wellFormed_missing _)
  · exact c.makes_note _ (Ident.wellFormed_missing _)

/-! ## Expressions -/

/-- A token that is no brace. -/
def Flat (k : TokenKind) : Prop := k.isBrace = false

theorem Makes.fields {location : Location} {d : Cursor} (h : c.Makes Flat excused d location.WellFormed) :
    c.Makes Flat excused (d.fields location).cursor (d.fields location).value.WellFormed := by
  fun_induction Cursor.fields location d with
  | case1 => exact h
  | case2 location d dot hdot name ih =>
    refine ih ((h.andThen ((makes_accept (K := Flat) hdot rfl).andThen (ident_makes (fun _ => rfl) _))).imp ?_)
    rintro ⟨hbase, -, hname⟩
    exact ⟨hbase, hname, rfl⟩

/-- A location that begins with a name. -/
theorem makes_location {t : Step Token c} (ht : c.next? = some t) {name : String}
    (hkind : t.value.kind = .ident name) : c.Makes Flat excused
      (t.cursor.location ⟨name, t.value.span, none⟩).cursor
      ((t.cursor.location ⟨name, t.value.span, none⟩).value.WellFormed excused) := by
  have hname : c.Makes Flat excused t.cursor (Location.name ⟨name, t.value.span, none⟩).WellFormed :=
    (makes_next_of_kind (K := Flat) ht hkind rfl).imp fun h => Ident.wellFormed_of_writable h _
  exact hname.fields

theorem makes_operator_noteIf {l : OperatorLevel} {t : Step BinaryOp c} (h : c.operator? l = some t)
    (condition : Bool) (issue : SyntaxIssue) :
    c.Makes Flat excused (t.cursor.noteIf condition c.here issue) True := by
  obtain ⟨u, hu, hkind, hcursor⟩ := next_of_operator h
  have hflat : Flat u.value.kind := by
    rw [hkind]
    exact t.value.isBrace_mark
  rw [hcursor, here_of_next hu]
  exact (makes_next_noteIf hu hflat condition issue).imp fun _ => trivial

theorem makes_prefixOp {t : Step UnaryOp c} (h : c.prefixOp? = some t) :
    c.Makes Flat excused t.cursor True := by
  obtain ⟨u, hu, hkind, hcursor⟩ := next_of_prefixOp h
  rw [hcursor]
  exact (makes_next_of_kind hu hkind t.value.isBrace_mark).imp fun _ => trivial

/-- A constant that is the next token. -/
theorem makes_literal {t : Step Token c} (ht : c.next? = some t) (value : Literal)
    (hkind : t.value.kind = value.token) : c.Makes Flat excused t.cursor value.WellFormed := by
  have hflat : Flat value.token := by cases value <;> rfl
  exact (makes_next_of_kind ht hkind hflat).imp Literal.wellFormed_of_writable

mutual

theorem expr_makes (c : Cursor) : c.expr.Makes Flat excused (Expr.WellFormed excused) := by
  have htarget := level_makes .or c
  rw [expr]
  dsimp only
  split
  · exact htarget
  · next sign hsign =>
    have hlength := (c.level .or).length_le
    have hshorter := sign.shorter
    refine (htarget.andThen ((makes_accept_noteIf (K := Flat) hsign rfl _ .targetExpected).andThen
      (expr_makes _))).imp ?_
    rintro ⟨htarget, hlocation, hvalue⟩
    refine ⟨(hlocation rfl).imp_left fun h => ?_, htarget, hvalue⟩
    simpa using h
termination_by 15 * c.rest.length + 12
decreasing_by
  · simp [OperatorLevel.rank]
  · simp only [rest_noteIf]; omega

theorem level_makes (l : OperatorLevel) (c : Cursor) : (c.level l).Makes Flat excused (Expr.WellFormed excused) := by
  have hlength := (c.operand l).length_le
  have hfirst := operand_makes l c
  rw [level]
  exact Makes.tail l false hfirst
termination_by 15 * c.rest.length + (2 * l.rank + 3)
decreasing_by
  · omega
  · omega

theorem operand_makes (l : OperatorLevel) (c : Cursor) :
    (c.operand l).Makes Flat excused (Expr.WellFormed excused) := by
  rw [operand]
  split
  · next m hm =>
    have hrank := OperatorLevel.rank_of_tighter? hm
    exact level_makes m c
  · exact unary_makes c
termination_by 15 * c.rest.length + (2 * l.rank + 2)
decreasing_by
  · omega
  · omega

theorem Makes.tail (l : OperatorLevel) {left : Expr} (again : Bool) {c d : Cursor}
    (h : c.Makes Flat excused d (left.WellFormed excused)) :
    c.Makes Flat excused (d.tail l left again).cursor ((d.tail l left again).value.WellFormed excused) := by
  rw [tail]
  split
  · exact h
  · next op hop =>
    have hshorter := op.shorter
    have hrank : l.rank ≤ 4 := by cases l <;> decide
    have hrest := congrArg List.length
      (op.cursor.rest_noteIf (again && decide (l = .comparison)) d.here .chainedComparison)
    have hlength := ((op.cursor.noteIf (again && decide (l = .comparison)) d.here .chainedComparison).operand
      l).length_le
    extract_lets start right
    refine Makes.tail l true ((h.andThen ((makes_operator_noteIf hop _ .chainedComparison).andThen
      (operand_makes l start))).imp ?_)
    rintro ⟨hleft, -, hright⟩
    exact ⟨hleft, hright⟩
termination_by 15 * d.rest.length
decreasing_by
  · omega
  · omega

theorem unary_makes (c : Cursor) : c.unary.Makes Flat excused (Expr.WellFormed excused) := by
  rw [unary]
  split
  · exact atom_makes c
  · next op hop =>
    have hshorter := op.shorter
    exact ((makes_prefixOp hop).andThen (unary_makes op.cursor)).imp And.right
termination_by 15 * c.rest.length + 1
decreasing_by
  · omega
  · omega

theorem atom_makes (c : Cursor) : c.atom.Makes Flat excused (Expr.WellFormed excused) := by
  have hmissing : (Literal.int 0).WellFormed := ⟨Int.le_refl 0, by decide⟩
  rw [atom]
  split
  · exact c.makes_note _ hmissing
  · next t ht =>
    have hshorter := t.shorter
    split
    · next value hkind => exact makes_literal ht (.int value) hkind
    · next raw hkind => exact makes_literal ht (.string raw) hkind
    · next value hkind => exact makes_literal ht (.bool value) hkind
    · next hkind =>
      refine ((makes_next_of_kind (K := Flat) ht hkind rfl).andThen ((expr_makes t.cursor).andThen
        (makes_expect (K := Flat) _ (m := .rparen) rfl))).imp ?_
      rintro ⟨-, hinner, -⟩
      exact hinner.withSpan _
    · next name hkind =>
      split
      · exact makes_location ht hkind
      · next paren hparen =>
        have hparenShorter := paren.shorter
        refine ((makes_next_of_kind (K := Flat) ht hkind rfl).andThen ((makes_accept (K := Flat) hparen rfl).andThen
          (args_makes paren.cursor))).imp ?_
        rintro ⟨hname, -, hargs⟩
        exact ⟨Ident.wellFormed_of_writable hname _, hargs⟩
    · exact c.makes_note _ hmissing
termination_by 15 * c.rest.length
decreasing_by
  · omega
  · omega

theorem args_makes (c : Cursor) : c.args.Makes Flat excused (Expr.AllWellFormed excused) := by
  have hexprs := exprs_makes c
  rw [args]
  have hlist : (if c.isAt .rparen = true then c.stay [] else c.exprs).Makes Flat excused
      (Expr.AllWellFormed excused) := by
    split
    · exact .stay trivial
    · exact hexprs
  exact (hlist.andThen (makes_expect (K := Flat) _ (m := .rparen) rfl)).imp And.left
termination_by 15 * c.rest.length + 14
decreasing_by omega

theorem exprs_makes (c : Cursor) : c.exprs.Makes Flat excused (Expr.AllWellFormed excused) := by
  have hfirst := expr_makes c
  have hlength := c.expr.length_le
  rw [exprs]
  dsimp only
  split
  · exact hfirst.imp fun h => ⟨h, trivial⟩
  · next comma hcomma =>
    have hshorter := comma.shorter
    refine (hfirst.andThen ((makes_accept (K := Flat) hcomma rfl).andThen (exprs_makes comma.cursor))).imp ?_
    rintro ⟨hfirst, -, hmore⟩
    exact ⟨hfirst, hmore⟩
termination_by 15 * c.rest.length + 13
decreasing_by
  · omega
  · omega

end

end Cursor

end Namescope
