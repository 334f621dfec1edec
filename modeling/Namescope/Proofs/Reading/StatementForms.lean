import Namescope.Proofs.Reading.ExpressionForms
import Namescope.Proofs.Reading.StatementPlaces
/-!
# Statements are well-formed, errors or not

What is read as a type, a variable, a statement or a block is well-formed, however many errors are noted on the
way. A variable or a condition takes no brace, and a simple statement takes none that closes a block, not even
if the reader skips the rest of it.
-/
namespace Namescope

namespace Cursor

variable {excused : Prop} {c d : Cursor}

/-! ## Types and variables -/

theorem type?_makes {type : Step TypeRef c} (h : c.type? = some type) :
    type.Makes Flat excused TypeRef.WellFormed := by
  unfold type? at h
  split at h
  · cases h
  next t ht =>
  split at h
  · next hkind =>
    cases h
    exact (makes_next_of_kind (K := Flat) ht hkind rfl).imp fun _ _ hstruct => by cases hstruct
  · next hkind =>
    cases h
    exact (makes_next_of_kind (K := Flat) ht hkind rfl).imp fun _ _ hstruct => by cases hstruct
  · next hkind =>
    cases h
    exact (makes_next_of_kind (K := Flat) ht hkind rfl).imp fun _ _ hstruct => by cases hstruct
  · next hkind =>
    cases h
    refine ((makes_next_of_kind (K := Flat) ht hkind rfl).andThen (ident_makes (fun _ => rfl) _)).imp ?_
    rintro ⟨-, hname⟩ _ ⟨⟩
    exact hname
  · cases h

theorem formal?_makes {formal : Step Binding c} (h : c.formal? = some formal) :
    formal.Makes Flat excused Binding.WellFormed := by
  obtain ⟨type, htype, rfl⟩ := Option.map_eq_some_iff.1 h
  refine ((type?_makes htype).andThen (ident_makes (fun _ => rfl) _)).imp ?_
  rintro ⟨htype, hname⟩
  exact ⟨htype, hname⟩

theorem binding?_makes {binding : Step Binding c} (h : c.binding? = some binding) :
    binding.Makes Flat excused Binding.WellFormed := by
  obtain ⟨type, htype, rfl⟩ := Option.map_eq_some_iff.1 h
  refine ((type?_makes htype).andThen ((ident_makes (fun _ => rfl) _).andThen
    (makes_expect (K := Flat) (m := .semicolon) _ rfl))).imp ?_
  rintro ⟨htype, hname, -⟩
  exact ⟨htype, hname⟩

theorem locals_makes (c : Cursor) : c.locals.Makes Flat excused fun bs => ∀ b ∈ bs, b.WellFormed := by
  fun_induction locals c with
  | case1 => exact .stay (List.forall_mem_nil _)
  | case2 c first h more ih =>
    refine ((binding?_makes h).andThen ih).imp ?_
    rintro ⟨hfirst, hmore⟩
    exact List.forall_mem_cons.2 ⟨hfirst, hmore⟩

/-! ## Simple statements -/

theorem condition_makes (c : Cursor) : c.condition.Makes Flat excused (Expr.WellFormed excused) := by
  refine ((makes_expect (K := Flat) (m := .lparen) c rfl).andThen ((expr_makes _).andThen
    (makes_expect (K := Flat) (m := .rparen) _ rfl))).imp ?_
  rintro ⟨-, he, -⟩
  exact he

/-- A token that closes no block. -/
def Inward (k : TokenKind) : Prop := k ≠ .mark .rbrace

theorem Flat.inward {k : TokenKind} (h : Flat k) : Inward k := by
  rintro rfl
  cases h

/-- Skipping stops in front of a brace that closes a block. -/
theorem makes_skipInBlock (c : Cursor) : c.Makes Inward excused c.skipInBlock.cursor True := by
  fun_induction skipInBlock c with
  | case1 | case2 => exact .stay trivial
  | case3 c t ht hbrace => exact (makes_next ht hbrace).imp fun _ => trivial
  | case4 c t ht hbrace _ ih => exact ((makes_next ht hbrace).andThen ih).imp And.right

theorem makes_resumeInBlock (c : Cursor) (t : Token) : c.Makes Inward excused (c.resumeInBlock t).cursor True := by
  unfold resumeInBlock
  split
  · exact .stay trivial
  · exact c.makes_skipInBlock

/-- What was read from `d` on is a well-formed statement that begins at `c`, or none; it closes no block. -/
def MakesSimple (excused : Prop) (c : Cursor) {d : Cursor} (r : Read (Option Stmt) d) : Prop :=
  c.Makes Inward excused r.cursor (∀ s, r.value = some s → s.WellFormed excused)

theorem Makes.finish {P : Prop} (h : c.Makes Flat excused d P) (start : Span) {statement : Span → Stmt}
    (hP : P → ∀ span, (statement span).WellFormed excused) :
    c.MakesSimple excused (d.finish start statement) := by
  refine ((h.andThen (makes_expect (K := Flat) (m := .semicolon) d rfl)).mono fun _ => Flat.inward).imp ?_
  rintro ⟨h, -⟩ _ ⟨⟩
  exact hP h _

/-- After a failure there is no statement. -/
theorem Makes.abandon {P : Prop} (h : c.Makes Flat excused d P) (issue : SyntaxIssue) :
    c.MakesSimple excused (d.abandon issue) := by
  refine ((h.mono fun _ => Flat.inward).andThen ((d.makes_note issue trivial).andThen
    (makes_skipInBlock _))).imp ?_
  rintro - _ ⟨⟩

section
variable {t : Step Token c} (ht : c.next? = some t)
include ht

theorem nameStatement_makes {name : String} (hkind : t.value.kind = .ident name) :
    c.MakesSimple excused (t.cursor.nameStatement ⟨name, t.value.span, none⟩) := by
  unfold nameStatement
  split
  · next paren hparen =>
    refine ((makes_next_of_kind (K := Flat) ht hkind rfl).andThen ((makes_accept (K := Flat) hparen rfl).andThen
      (args_makes _))).finish _ ?_
    rintro ⟨hname, -, hargs⟩ _
    exact ⟨Ident.wellFormed_of_writable hname _, hargs⟩
  dsimp only
  have htarget : c.Makes Flat excused _ _ := makes_location ht hkind
  split
  · next sign hsign =>
    refine (htarget.andThen ((makes_accept (K := Flat) hsign rfl).andThen (expr_makes _))).finish _ ?_
    rintro ⟨htarget, -, hvalue⟩ _
    exact ⟨⟨rfl, htarget⟩, hvalue⟩
  split
  · next sign hsign =>
    refine (htarget.andThen (makes_accept (K := Flat) hsign rfl)).finish _ ?_
    rintro ⟨htarget, -⟩ _
    exact ⟨rfl, htarget⟩
  split
  · next sign hsign =>
    refine (htarget.andThen (makes_accept (K := Flat) hsign rfl)).finish _ ?_
    rintro ⟨htarget, -⟩ _
    exact ⟨rfl, htarget⟩
  · exact htarget.abandon _

theorem inputStatement_makes (hkind : t.value.kind = .keyword .cin) :
    c.MakesSimple excused (t.cursor.inputStatement t.value.span) := by
  have hfirst : c.Makes Flat excused _ _ := (makes_next_of_kind (K := Flat) ht hkind rfl).andThen
    (t.cursor.makes_expect (m := .shiftRight) rfl)
  unfold inputStatement
  dsimp only
  split
  · exact hfirst.abandon _
  next u hu =>
  split
  · next name huKind =>
    refine (hfirst.andThen (makes_location hu huKind)).finish _ ?_
    rintro ⟨-, htarget⟩ _
    exact ⟨rfl, htarget⟩
  · exact hfirst.abandon _

theorem outputStatement_makes (hkind : t.value.kind = .keyword .cout) :
    c.MakesSimple excused (t.cursor.outputStatement t.value.span) := by
  refine ((makes_next_of_kind (K := Flat) ht hkind rfl).andThen
    ((makes_expect (K := Flat) (m := .shiftLeft) _ rfl).andThen (expr_makes _))).finish _ ?_
  rintro ⟨-, -, hvalue⟩ _
  exact hvalue

theorem returnStatement_makes (hkind : t.value.kind = .keyword .returnWord) :
    c.MakesSimple excused (t.cursor.returnStatement t.value.span) := by
  unfold returnStatement
  split
  · exact (makes_next_of_kind (K := Flat) ht hkind rfl).finish _ fun _ _ => trivial
  · refine ((makes_next_of_kind (K := Flat) ht hkind rfl).andThen (expr_makes _)).finish _ ?_
    rintro ⟨-, hvalue⟩ _
    exact hvalue

/-- A token that begins no statement. -/
theorem makes_unknown (hbrace : t.value.kind ≠ .mark .rbrace) (issue : SyntaxIssue) :
    c.MakesSimple excused
      (((t.cursor.noteAt t.value.span issue).resumeInBlock t.value).afterNote.give (none : Option Stmt)) := by
  refine ((makes_next_noteAt ht hbrace issue).andThen (makes_resumeInBlock _ t.value)).imp ?_
  rintro - _ ⟨⟩

end

/-! ## Blocks -/

/-- Any token. -/
def Anything (_ : TokenKind) : Prop := True

theorem Makes.anything {K : TokenKind → Prop} {P : Prop} (h : c.Makes K excused d P) : c.Makes Anything excused d P :=
  h.mono fun _ _ => trivial

/-- A word, a condition and a block: what a compound statement begins with. -/
theorem makes_guarded {t : Step Token c} (ht : c.next? = some t)
    (hblock : t.cursor.condition.cursor.block.Makes Anything excused (Block.WellFormed excused)) :
    c.Makes Anything excused t.cursor.condition.cursor.block.cursor
      (t.cursor.condition.value.WellFormed excused ∧
        t.cursor.condition.cursor.block.value.WellFormed excused) :=
  ((makes_next (K := Anything) ht trivial).andThen ((condition_makes _).anything.andThen hblock)).imp And.right

mutual

theorem block_makes (c : Cursor) : c.block.Makes Anything excused (Block.WellFormed excused) := by
  have hopening := (c.expect .lbrace).length_le
  have hlocals := (c.expect .lbrace).cursor.locals.length_le
  rw [block]
  refine ((makes_expect (K := Anything) (m := .lbrace) c trivial).andThen
    ((locals_makes _).anything.andThen ((statements_makes _).andThen
      (makes_expect (K := Anything) (m := .rbrace) _ trivial)))).imp ?_
  rintro ⟨-, hlocals, hbody, -⟩
  exact ⟨hlocals, hbody⟩
termination_by 3 * c.rest.length + 1
decreasing_by omega

theorem statements_makes (c : Cursor) : c.statements.Makes Anything excused (Stmt.AllWellFormed excused) := by
  rw [statements]
  split
  · exact .stay trivial
  next t ht =>
  have hshorter := t.shorter
  split
  · exact .stay trivial
  next hbrace =>
  have hlength := (t.cursor.statement t.value).length_le
  refine ((statement_makes ht hbrace).andThen (statements_makes _)).imp ?_
  rintro ⟨hfirst, hmore⟩
  refine Stmt.allWellFormed_append.2 ⟨?_, hmore⟩
  cases hvalue : (t.cursor.statement t.value).value with
  | none => trivial
  | some s => exact ⟨hfirst s hvalue, trivial⟩
termination_by 3 * c.rest.length
decreasing_by
  · omega
  · omega

theorem statement_makes {c : Cursor} {t : Step Token c} (ht : c.next? = some t)
    (hbrace : t.value.kind ≠ .mark .rbrace) : c.Makes Anything excused (t.cursor.statement t.value).cursor
      (∀ s, (t.cursor.statement t.value).value = some s → s.WellFormed excused) := by
  have hcondLength := t.cursor.condition.length_le
  have hyes := block_makes t.cursor.condition.cursor
  have hyesLength := t.cursor.condition.cursor.block.length_le
  have hguarded := makes_guarded ht hyes
  rw [statement]
  split
  · next name hkind => exact (nameStatement_makes ht hkind).anything
  · next hkind => exact (inputStatement_makes ht hkind).anything
  · next hkind => exact (outputStatement_makes ht hkind).anything
  · next hkind => exact (returnStatement_makes ht hkind).anything
  · dsimp only
    split
    · refine hguarded.imp ?_
      rintro h _ ⟨⟩
      exact h
    · next word hword =>
      have hshorter := word.shorter
      refine (hguarded.andThen ((makes_acceptKind (K := Anything) hword trivial).andThen
        (block_makes word.cursor))).imp ?_
      rintro ⟨⟨hcond, hyes⟩, -, hno⟩ _ ⟨⟩
      exact ⟨hcond, hyes, hno⟩
  · refine hguarded.imp ?_
    rintro h _ ⟨⟩
    exact h
  · refine hguarded.imp ?_
    rintro h _ ⟨⟩
    exact h
  · exact (makes_unknown ht hbrace _).anything
termination_by 3 * t.cursor.rest.length + 2
decreasing_by
  · omega
  · omega

end

end Cursor

end Namescope
