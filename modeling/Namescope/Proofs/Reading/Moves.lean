import Namescope.Proofs.Reading.Grammar
/-!
# How a cursor moves

What each step of reading does to the kinds of the tokens that are left and to the findings. A step either
notes something or takes some tokens silently; steps one after the other take their tokens one after the
other.
-/
namespace Namescope

/-- The kinds of the tokens before the first end token. -/
def Token.kinds (tokens : List Token) : List TokenKind := (tokens.map Token.kind).takeWhile (· ≠ .eof)

theorem Token.exists_of_kinds {tokens : List Token} {k : TokenKind} {ks : List TokenKind}
    (h : kinds tokens = k :: ks) : ∃ t more, tokens = t :: more ∧ t.kind = k ∧ kinds more = ks := by
  cases tokens with
  | nil => cases h
  | cons t more =>
    by_cases hkind : t.kind = .eof
    · simp [kinds, hkind] at h
    · rw [kinds, List.map_cons, List.takeWhile_cons, if_pos (by simpa using hkind)] at h
      obtain ⟨rfl, rfl⟩ := List.cons.inj h
      exact ⟨t, more, rfl, rfl, rfl⟩

namespace Cursor

/-- The kinds of the tokens that are left before the end. -/
def kinds (c : Cursor) : List TokenKind := Token.kinds c.rest

@[simp] theorem kinds_noteAt (c : Cursor) (span : Span) (issue : SyntaxIssue) :
    (c.noteAt span issue).kinds = c.kinds := rfl

/-! ## Single tokens -/

/-- There is a next token unless none is left. -/
theorem next?_cases (c : Cursor) : (c.next? = none ∧ c.kinds = []) ∨
    ∃ t, c.next? = some t ∧ c.kinds = t.value.kind :: t.cursor.kinds ∧ t.cursor.findings = c.findings := by
  obtain ⟨rest, last, findings⟩ := c
  cases rest with
  | nil => exact .inl ⟨by simp [next?], rfl⟩
  | cons t rest =>
    by_cases hkind : t.kind = .eof
    · exact .inl ⟨by simp [next?, hkind], by simp [kinds, Token.kinds, hkind]⟩
    · refine .inr ⟨_, by simp only [next?, if_neg hkind]; rfl, ?_, rfl⟩
      simp [kinds, Token.kinds, hkind]

/-- A token of a kind is taken if it is next. -/
theorem acceptKind_cases (c : Cursor) (kind : TokenKind) :
    (c.acceptKind kind = none ∧ c.kinds.head? ≠ some kind) ∨
      ∃ t, c.acceptKind kind = some t ∧ c.kinds = kind :: t.cursor.kinds ∧
        t.cursor.findings = c.findings := by
  unfold acceptKind
  rcases c.next?_cases with ⟨hnone, hkinds⟩ | ⟨t, ht, hkinds, hfindings⟩
  · simp [hnone, hkinds]
  · rw [ht, hkinds]
    by_cases h : t.value.kind = kind
    · exact .inr ⟨_, if_pos h, by rw [h]; rfl, hfindings⟩
    · exact .inl ⟨if_neg h, by simpa using h⟩

/-- A cursor is at a mark if that is next. -/
theorem isAt_iff (c : Cursor) (m : Mark) : c.isAt m = true ↔ c.kinds.head? = some (.mark m) := by
  obtain ⟨rest, last, findings⟩ := c
  rw [isAt, decide_eq_true_iff]
  cases rest with
  | nil => simp [kind, kinds, Token.kinds]
  | cons t rest =>
    by_cases h : t.kind = .eof <;> simp [kind, kinds, Token.kinds, h]

/-- A name is taken if it is next, and missed otherwise. -/
theorem ident_cases (c : Cursor) :
    (∃ name, c.kinds = .ident name :: c.ident.cursor.kinds ∧ c.ident.cursor.findings = c.findings ∧
        c.ident.value.relabel .unplaced = .unplaced name) ∨
      (∀ name, c.kinds.head? ≠ some (.ident name)) ∧ c.findings.length < c.ident.cursor.findings.length := by
  unfold ident
  rcases c.next?_cases with ⟨hnone, hkinds⟩ | ⟨t, ht, hkinds, hfindings⟩
  · rw [hnone, hkinds]
    exact .inr ⟨nofun, Nat.lt_succ_self _⟩
  rw [ht, hkinds]
  cases hkind : t.value.kind with
  | ident name =>
    simp only [hkind]
    exact .inl ⟨name, rfl, hfindings, rfl⟩
  | _ =>
    simp only [hkind]
    exact .inr ⟨by simp, Nat.lt_succ_self _⟩

end Cursor

theorem OperatorLevel.operator?_eq_some {l : OperatorLevel} {m : Mark} {op : BinaryOp}
    (h : l.operator? m = some op) : op.level = l ∧ op.mark = m := by
  cases l <;> cases m <;> cases h <;> exact ⟨rfl, rfl⟩

theorem OperatorLevel.operator?_mark (op : BinaryOp) : op.level.operator? op.mark = some op := by
  cases op <;> rfl

theorem UnaryOp.ofMark?_eq_some {m : Mark} {op : UnaryOp} (h : ofMark? m = some op) : op.mark = m := by
  cases m <;> cases h <;> rfl

theorem UnaryOp.ofMark?_mark (op : UnaryOp) : ofMark? op.mark = some op := by
  cases op <;> rfl

namespace Cursor

/-- An operator of a level is taken if it is next. -/
theorem operator?_cases (c : Cursor) (l : OperatorLevel) :
    (c.operator? l = none ∧ ∀ op : BinaryOp, op.level = l → c.kinds.head? ≠ some (.mark op.mark)) ∨
      ∃ t, c.operator? l = some t ∧ t.value.level = l ∧ c.kinds = .mark t.value.mark :: t.cursor.kinds ∧
        t.cursor.findings = c.findings := by
  unfold operator?
  rcases c.next?_cases with ⟨hnone, hkinds⟩ | ⟨t, ht, hkinds, hfindings⟩
  · simp [hnone, hkinds]
  rw [ht, hkinds]
  cases hkind : t.value.kind with
  | mark m =>
    cases hop : l.operator? m with
    | none =>
      refine .inl ⟨by simp [hkind, hop], fun op hlevel hhead => ?_⟩
      obtain rfl : m = op.mark := by simpa using hhead
      rw [← hlevel, OperatorLevel.operator?_mark] at hop
      cases hop
    | some op =>
      obtain ⟨hlevel, hmark⟩ := OperatorLevel.operator?_eq_some hop
      exact .inr ⟨t.replace op, by simp [hkind, hop], hlevel, by rw [← hmark]; rfl, hfindings⟩
  | _ => simp [hkind]

/-- A prefix operator is taken if it is next. -/
theorem prefixOp?_cases (c : Cursor) :
    (c.prefixOp? = none ∧ ∀ op : UnaryOp, c.kinds.head? ≠ some (.mark op.mark)) ∨
      ∃ t, c.prefixOp? = some t ∧ c.kinds = .mark t.value.mark :: t.cursor.kinds ∧
        t.cursor.findings = c.findings := by
  unfold prefixOp?
  rcases c.next?_cases with ⟨hnone, hkinds⟩ | ⟨t, ht, hkinds, hfindings⟩
  · simp [hnone, hkinds]
  rw [ht, hkinds]
  cases hkind : t.value.kind with
  | mark m =>
    cases hop : UnaryOp.ofMark? m with
    | none =>
      refine .inl ⟨by simp [hkind, hop], fun op hhead => ?_⟩
      obtain rfl : m = op.mark := by simpa using hhead
      rw [UnaryOp.ofMark?_mark] at hop
      cases hop
    | some op =>
      have hmark := UnaryOp.ofMark?_eq_some hop
      exact .inr ⟨t.replace op, by simp [hkind, hop], by rw [← hmark]; rfl, hfindings⟩
  | _ => simp [hkind]

/-! ## Steps that note or take -/

/-- From `c` to `d` something was noted, or nothing was and the kinds of the tokens taken are as `P` says. -/
def Moves (c d : Cursor) (P : List TokenKind → Prop) : Prop :=
  c.findings.length < d.findings.length ∨ (d.findings = c.findings ∧ ∃ ks, c.kinds = ks ++ d.kinds ∧ P ks)

namespace Moves

variable {c d e : Cursor} {P Q : List TokenKind → Prop}

theorem length_le (h : c.Moves d P) : c.findings.length ≤ d.findings.length := by
  rcases h with h | ⟨h, -⟩
  · exact Nat.le_of_lt h
  · exact Nat.le_of_eq (congrArg List.length h.symm)

theorem imp (h : c.Moves d P) (hPQ : ∀ ks, P ks → Q ks) : c.Moves d Q :=
  Or.imp id (fun ⟨hfindings, ks, hkinds, hks⟩ => ⟨hfindings, ks, hkinds, hPQ ks hks⟩) h

/-- Nothing is taken. -/
theorem stay (h : P []) : c.Moves c P := .inr ⟨rfl, [], rfl, h⟩

/-- Two steps take what the first takes and then what the second takes. -/
theorem andThen (h : c.Moves d P) (h' : d.Moves e Q) :
    c.Moves e fun ks => ∃ front back, ks = front ++ back ∧ P front ∧ Q back := by
  have hle := h.length_le
  have hle' := h'.length_le
  rcases h with h | ⟨hfindings, ks, hkinds, hks⟩
  · exact .inl (by omega)
  rcases h' with h' | ⟨hfindings', ls, hkinds', hls⟩
  · exact .inl (by omega)
  · exact .inr ⟨hfindings'.trans hfindings, ks ++ ls, by rw [hkinds, hkinds', List.append_assoc],
      ks, ls, rfl, hks, hls⟩

/-- After something was noted it does not matter what is taken. -/
theorem ofNoted (h : c.findings.length < d.findings.length) (h' : d.Moves e Q) : c.Moves e P :=
  .inl (Nat.lt_of_lt_of_le h h'.length_le)

end Moves

/-- Noting something is a step. -/
theorem length_findings_lt_noteAt (c : Cursor) (span : Span) (issue : SyntaxIssue) :
    c.findings.length < (c.noteAt span issue).findings.length := Nat.lt_succ_self _

theorem moves_noteAt (c : Cursor) (span : Span) (issue : SyntaxIssue) (P : List TokenKind → Prop) :
    c.Moves (c.noteAt span issue) P := .inl (c.length_findings_lt_noteAt span issue)

/-- If nothing was noted the condition does not hold. -/
theorem moves_noteIf (c : Cursor) (condition : Bool) (span : Span) (issue : SyntaxIssue) :
    c.Moves (c.noteIf condition span issue) fun ks => ks = [] ∧ condition = false := by
  cases condition with
  | true => exact c.moves_noteAt ..
  | false => exact .stay ⟨rfl, rfl⟩

theorem findings_next {c : Cursor} {t : Step Token c} (h : c.next? = some t) :
    t.cursor.findings = c.findings := by
  rcases c.next?_cases with ⟨hnone, -⟩ | ⟨t', ht', -, hfindings⟩
  · rw [hnone] at h
    cases h
  · cases ht'.symm.trans h
    exact hfindings

theorem moves_next {c : Cursor} {t : Step Token c} (h : c.next? = some t) :
    c.Moves t.cursor (· = [t.value.kind]) := by
  rcases c.next?_cases with ⟨hnone, -⟩ | ⟨t', ht', hkinds, hfindings⟩
  · rw [hnone] at h
    cases h
  · cases ht'.symm.trans h
    exact .inr ⟨hfindings, _, hkinds, rfl⟩

theorem moves_acceptKind {c : Cursor} {kind : TokenKind} {t : Step Span c} (h : c.acceptKind kind = some t) :
    c.Moves t.cursor (· = [kind]) := by
  rcases c.acceptKind_cases kind with ⟨hnone, -⟩ | ⟨t', ht', hkinds, hfindings⟩
  · rw [hnone] at h
    cases h
  · cases ht'.symm.trans h
    exact .inr ⟨hfindings, _, hkinds, rfl⟩

theorem moves_accept {c : Cursor} {mark : Mark} {t : Step Span c} (h : c.accept mark = some t) :
    c.Moves t.cursor (· = [.mark mark]) := moves_acceptKind h

theorem moves_operator {c : Cursor} {l : OperatorLevel} {t : Step BinaryOp c} (h : c.operator? l = some t) :
    c.Moves t.cursor fun ks => ks = [.mark t.value.mark] ∧ t.value.level = l := by
  rcases c.operator?_cases l with ⟨hnone, -⟩ | ⟨t', ht', hlevel, hkinds, hfindings⟩
  · rw [hnone] at h
    cases h
  · cases ht'.symm.trans h
    exact .inr ⟨hfindings, _, hkinds, rfl, hlevel⟩

theorem moves_prefixOp {c : Cursor} {t : Step UnaryOp c} (h : c.prefixOp? = some t) :
    c.Moves t.cursor (· = [.mark t.value.mark]) := by
  rcases c.prefixOp?_cases with ⟨hnone, -⟩ | ⟨t', ht', hkinds, hfindings⟩
  · rw [hnone] at h
    cases h
  · cases ht'.symm.trans h
    exact .inr ⟨hfindings, _, hkinds, rfl⟩

theorem moves_expect (c : Cursor) (mark : Mark) : c.Moves (c.expect mark).cursor (· = [.mark mark]) := by
  unfold expect
  split
  · next t h => exact moves_accept h
  · exact c.moves_noteAt ..

theorem moves_ident (c : Cursor) : c.Moves c.ident.cursor
    fun ks => ∃ name, ks = [.ident name] ∧ c.ident.value.relabel .unplaced = .unplaced name := by
  rcases c.ident_cases with ⟨name, hkinds, hfindings, hvalue⟩ | ⟨-, hnoted⟩
  · exact .inr ⟨hfindings, _, hkinds, name, rfl, hvalue⟩
  · exact .inl hnoted

end Cursor

/-- What was read takes kinds of tokens that are as `P` says for the value. -/
def Read.Takes {α : Type} {c : Cursor} (r : Read α c) (P : List TokenKind → α → Prop) : Prop :=
  c.Moves r.cursor (P · r.value)

/-! ## Steps that are forced -/

/-- What was read notes nothing, leaves the kinds `more` and is as `P` says. -/
structure Read.Exact {α : Type} {c : Cursor} (r : Read α c) (more : List TokenKind) (P : α → Prop) : Prop where
  kinds : r.cursor.kinds = more
  quiet : r.cursor.findings = c.findings
  value : P r.value

/-- A later reading is as exact if nothing was noted before. -/
theorem Read.Exact.widen {α : Type} {c d : Cursor} {r : Read α d} {more : List TokenKind} {P : α → Prop}
    (h : r.Exact more P) (hsuffix : d.rest <:+ c.rest) (hquiet : d.findings = c.findings) :
    (r.widen hsuffix).Exact more P := ⟨h.kinds, h.quiet.trans hquiet, h.value⟩

namespace Cursor

variable {c : Cursor} {more : List TokenKind}

theorem exact_stay {α : Type} {value : α} {P : α → Prop} (hkinds : c.kinds = more) (h : P value) :
    (c.stay value).Exact more P := ⟨hkinds, rfl, h⟩

theorem next?_exact {k : TokenKind} (h : c.kinds = k :: more) :
    ∃ t, c.next? = some t ∧ t.Exact more (·.kind = k) := by
  rcases c.next?_cases with ⟨-, hnil⟩ | ⟨t, ht, hkinds, hfindings⟩
  · rw [hnil] at h
    cases h
  · obtain ⟨hkind, hmore⟩ := List.cons.inj (hkinds.symm.trans h)
    exact ⟨t, ht, hmore, hfindings, hkind⟩

theorem next?_eq_none (h : c.kinds = []) : c.next? = none := by
  rcases c.next?_cases with ⟨hnone, -⟩ | ⟨t, -, hkinds, -⟩
  · exact hnone
  · rw [h] at hkinds
    cases hkinds

theorem acceptKind_exact {k : TokenKind} (h : c.kinds = k :: more) :
    ∃ t, c.acceptKind k = some t ∧ t.Exact more fun _ => True := by
  rcases c.acceptKind_cases k with ⟨-, hhead⟩ | ⟨t, ht, hkinds, hfindings⟩
  · rw [h] at hhead
    exact absurd rfl hhead
  · exact ⟨t, ht, (List.cons.inj (hkinds.symm.trans h)).2, hfindings, trivial⟩

theorem acceptKind_eq_none {k : TokenKind} (h : c.kinds.head? ≠ some k) : c.acceptKind k = none := by
  rcases c.acceptKind_cases k with ⟨hnone, -⟩ | ⟨t, -, hkinds, -⟩
  · exact hnone
  · rw [hkinds] at h
    exact absurd rfl h

theorem accept_exact {m : Mark} (h : c.kinds = .mark m :: more) :
    ∃ t, c.accept m = some t ∧ t.Exact more fun _ => True := acceptKind_exact h

theorem accept_eq_none {m : Mark} (h : c.kinds = .mark m :: more) {other : Mark} (hne : m ≠ other) :
    c.accept other = none :=
  acceptKind_eq_none (by rw [h]; simpa using hne)

theorem expect_exact {m : Mark} (h : c.kinds = .mark m :: more) : (c.expect m).Exact more fun _ => True := by
  obtain ⟨t, ht, hexact⟩ := accept_exact h
  rw [expect, ht]
  exact hexact

theorem ident_exact {name : String} (h : c.kinds = .ident name :: more) :
    c.ident.Exact more (·.relabel .unplaced = .unplaced name) := by
  rcases c.ident_cases with ⟨name', hkinds, hfindings, hvalue⟩ | ⟨hhead, -⟩
  · obtain ⟨hname, hmore⟩ := List.cons.inj (hkinds.symm.trans h)
    cases hname
    exact ⟨hmore, hfindings, hvalue⟩
  · rw [h] at hhead
    exact absurd rfl (hhead name)

theorem operator?_exact (op : BinaryOp) (h : c.kinds = .mark op.mark :: more) :
    ∃ t, c.operator? op.level = some t ∧ t.Exact more (· = op) := by
  rcases c.operator?_cases op.level with ⟨-, hhead⟩ | ⟨t, ht, hlevel, hkinds, hfindings⟩
  · rw [h] at hhead
    exact absurd rfl (hhead op rfl)
  · obtain ⟨hmark, hmore⟩ := List.cons.inj (hkinds.symm.trans h)
    have hop := OperatorLevel.operator?_mark t.value
    rw [TokenKind.mark.inj hmark, hlevel, OperatorLevel.operator?_mark] at hop
    exact ⟨t, ht, hmore, hfindings, (Option.some.inj hop).symm⟩

theorem prefixOp?_exact (op : UnaryOp) (h : c.kinds = .mark op.mark :: more) :
    ∃ t, c.prefixOp? = some t ∧ t.Exact more (· = op) := by
  rcases c.prefixOp?_cases with ⟨-, hhead⟩ | ⟨t, ht, hkinds, hfindings⟩
  · rw [h] at hhead
    exact absurd rfl (hhead op)
  · obtain ⟨hmark, hmore⟩ := List.cons.inj (hkinds.symm.trans h)
    have hop := UnaryOp.ofMark?_mark t.value
    rw [TokenKind.mark.inj hmark, UnaryOp.ofMark?_mark] at hop
    exact ⟨t, ht, hmore, hfindings, (Option.some.inj hop).symm⟩

theorem operator?_eq_none {l : OperatorLevel}
    (h : ∀ op : BinaryOp, op.level = l → c.kinds.head? ≠ some (.mark op.mark)) : c.operator? l = none := by
  rcases c.operator?_cases l with ⟨hnone, -⟩ | ⟨t, -, hlevel, hkinds, -⟩
  · exact hnone
  · exact absurd (by rw [hkinds]; rfl) (h t.value hlevel)

theorem prefixOp?_eq_none (h : ∀ op : UnaryOp, c.kinds.head? ≠ some (.mark op.mark)) : c.prefixOp? = none := by
  rcases c.prefixOp?_cases with ⟨hnone, -⟩ | ⟨t, -, hkinds, -⟩
  · exact hnone
  · exact absurd (by rw [hkinds]; rfl) (h t.value)

end Cursor

end Namescope
