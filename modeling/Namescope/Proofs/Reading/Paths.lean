import Namescope.Proofs.Reading.Moves
/-!
# Paths of a cursor

All that reading does with a cursor is to take the next token, unless that is an end token, and to note
something at it. So every reading is a path of such steps, and what holds along all paths holds of every
reading: where it can get to, which token is behind it, and at which tokens it notes something.
-/
namespace Namescope

/-! ## Tokens in order -/

/-- Tokens stand one behind the other, and none stops before it starts. -/
structure Token.Ordered (ts : List Token) : Prop where
  apart : ts.Pairwise fun t u => t.span.stop ≤ u.span.start
  upright : ∀ t ∈ ts, t.span.start ≤ t.span.stop

theorem Token.ordered_append {ts us : List Token} : Ordered (ts ++ us) ↔
    Ordered ts ∧ Ordered us ∧ ∀ t ∈ ts, ∀ u ∈ us, t.span.stop ≤ u.span.start := by
  constructor
  · rintro ⟨hapart, hupright⟩
    obtain ⟨hts, hus, hcross⟩ := List.pairwise_append.1 hapart
    obtain ⟨hts', hus'⟩ := List.forall_mem_append.1 hupright
    exact ⟨⟨hts, hts'⟩, ⟨hus, hus'⟩, hcross⟩
  · rintro ⟨hts, hus, hcross⟩
    exact ⟨List.pairwise_append.2 ⟨hts.apart, hus.apart, hcross⟩,
      List.forall_mem_append.2 ⟨hts.upright, hus.upright⟩⟩

/-- The token that a name is. -/
def Ident.asToken (ident : Ident) : Token := ⟨.ident ident.name, ident.span⟩

namespace Cursor

/-! ## Paths -/

/-- A path from one cursor to another, and the tokens taken on it. -/
inductive Goes : Cursor → List Token → Cursor → Prop
  | stop {c} : Goes c [] c
  | take {t rest last findings ts d} : t.kind ≠ .eof → Goes ⟨rest, some t.span, findings⟩ ts d →
      Goes ⟨t :: rest, last, findings⟩ (t :: ts) d
  | note {c ts d} (issue : SyntaxIssue) : Goes (c.note issue) ts d → Goes c ts d

namespace Goes
variable {c d e : Cursor} {ts us : List Token}

theorem trans (h : c.Goes ts d) (h' : d.Goes us e) : c.Goes (ts ++ us) e := by
  induction h with
  | stop => exact h'
  | take hkind _ ih => exact .take hkind (ih h')
  | note issue _ ih => exact .note issue (ih h')

theorem rest (h : c.Goes ts d) : c.rest = ts ++ d.rest := by
  induction h with
  | stop => rfl
  | take _ _ ih => exact congrArg (_ :: ·) ih
  | note _ _ ih => exact ih

/-- A path that takes a token takes the next one first. -/
theorem here_eq {t : Token} (h : c.Goes (t :: ts) d) : c.here = t.span := by
  rw [here, h.rest]
  rfl

/-- No end token is passed. -/
theorem live (h : c.Goes ts d) : ∀ t ∈ ts, t.kind ≠ .eof := by
  induction h with
  | stop => nofun
  | take hkind _ ih => exact List.forall_mem_cons.2 ⟨hkind, ih⟩
  | note _ _ ih => exact ih

/-- The token behind a cursor is the last one that was taken. -/
theorem last (h : c.Goes ts d) : d.last = (ts.getLast?.map Token.span).or c.last := by
  induction h with
  | stop => rfl
  | @take t _ _ _ ts _ _ _ ih =>
    rw [ih, List.getLast?_cons]
    cases ts.getLast? <;> rfl
  | note _ _ ih => exact ih

/-- Findings are noted at the tokens in order, up to the one that is next at the end of the path. -/
theorem findings (h : c.Goes ts d) : ∃ (notes : List (Finding SyntaxIssue)) (places : List Nat),
    d.findings = notes.reverse ++ c.findings ∧
    places.Pairwise (· ≤ ·) ∧ (∀ p ∈ places, p ≤ ts.length) ∧
    notes.map Finding.span = places.map fun p => (c.rest[p]?.map Token.span).getD {} := by
  induction h with
  | stop => exact ⟨[], [], rfl, .nil, nofun, rfl⟩
  | @take t rest last found ts d _ _ ih =>
    obtain ⟨notes, places, hnotes, hsorted, hle, hspans⟩ := ih
    refine ⟨notes, places.map (· + 1), hnotes, ?_, ?_, ?_⟩
    · exact List.pairwise_map.2 (hsorted.imp Nat.succ_le_succ)
    · intro p hp
      obtain ⟨q, hq, rfl⟩ := List.mem_map.1 hp
      exact Nat.succ_le_succ (hle q hq)
    · rw [hspans, List.map_map]
      rfl
  | @note c ts d issue _ ih =>
    obtain ⟨notes, places, hnotes, hsorted, hle, hspans⟩ := ih
    refine ⟨⟨issue, c.here⟩ :: notes, 0 :: places, ?_, ?_, ?_, ?_⟩
    · rw [hnotes, List.reverse_cons, List.append_assoc]
      rfl
    · exact List.pairwise_cons.2 ⟨fun p _ => Nat.zero_le p, hsorted⟩
    · exact List.forall_mem_cons.2 ⟨Nat.zero_le _, hle⟩
    · rw [List.map_cons, List.map_cons, hspans]
      obtain ⟨rest, _, _⟩ := c
      cases rest <;> rfl

theorem length_le (h : c.Goes ts d) : c.findings.length ≤ d.findings.length := by
  obtain ⟨notes, -, hnotes, -⟩ := h.findings
  rw [hnotes, List.length_append]
  exact Nat.le_add_left _ _

end Goes

/-! ## Paths that note something or not -/

/-- A path leads from `c` to `d`. If nothing is noted on it and its tokens are in order, they are as `P`
says. -/
def Leads (c d : Cursor) (P : List Token → Prop) : Prop :=
  ∃ ts, c.Goes ts d ∧ (d.findings = c.findings → Token.Ordered ts → P ts)

namespace Leads
variable {c d e : Cursor} {P Q : List Token → Prop}

theorem stay (h : P []) : c.Leads c P := ⟨[], .stop, fun _ _ => h⟩

theorem imp (h : c.Leads d P) (hPQ : ∀ ts, c.Goes ts d → Token.Ordered ts → P ts → Q ts) : c.Leads d Q := by
  obtain ⟨ts, hgoes, hP⟩ := h
  exact ⟨ts, hgoes, fun hquiet hts => hPQ ts hgoes hts (hP hquiet hts)⟩

/-- One path and then another. -/
theorem andThen (h : c.Leads d P) (h' : d.Leads e Q) :
    c.Leads e fun ts => ∃ front back, ts = front ++ back ∧ P front ∧ Q back := by
  obtain ⟨ts, hgoes, hP⟩ := h
  obtain ⟨us, hgoes', hQ⟩ := h'
  refine ⟨ts ++ us, hgoes.trans hgoes', fun hquiet hall => ⟨ts, us, rfl, ?_⟩⟩
  obtain ⟨hts, hus, -⟩ := Token.ordered_append.1 hall
  -- the findings in the middle lie between two equal ones
  have hmiddle : d.findings = c.findings := by
    obtain ⟨notes, -, hnotes, -⟩ := hgoes.findings
    have hlength := hgoes'.length_le
    rw [hquiet, hnotes, List.length_append] at hlength
    have hnone : notes.reverse = [] := List.length_eq_zero_iff.1 (by omega)
    rw [hnotes, hnone, List.nil_append]
  exact ⟨hP hmiddle hts, hQ (hquiet.trans hmiddle.symm) hus⟩

/-- If something is noted in the end it does not matter which tokens are taken. -/
theorem thenNotes (h : c.Leads d P) (h' : d.Leads e fun _ => False) : c.Leads e Q :=
  (h.andThen h').imp fun _ _ _ ⟨_, _, _, _, hnothing⟩ => hnothing.elim

/-- If something is noted first it does not matter which tokens are taken. -/
theorem notesThen (h : c.Leads d fun _ => False) (h' : d.Leads e P) : c.Leads e Q :=
  (h.andThen h').imp fun _ _ _ ⟨_, _, _, hnothing, _⟩ => hnothing.elim

end Leads

theorem leads_note (c : Cursor) (issue : SyntaxIssue) (P : List Token → Prop) : c.Leads (c.note issue) P := by
  refine ⟨[], .note issue .stop, fun hquiet => ?_⟩
  exact absurd (congrArg List.length hquiet) (Nat.succ_ne_self _)

/-! ## Single tokens -/

section
variable {c : Cursor}

theorem exists_of_next {t : Step Token c} (h : c.next? = some t) : ∃ u rest last findings,
    c = ⟨u :: rest, last, findings⟩ ∧ t.value = u ∧ u.kind ≠ .eof ∧ t.cursor = ⟨rest, some u.span, findings⟩ := by
  obtain ⟨rest, last, findings⟩ := c
  cases rest with
  | nil => simp [next?] at h
  | cons u rest =>
    by_cases hkind : u.kind = .eof
    · simp [next?, hkind] at h
    · simp only [next?, if_neg hkind] at h
      cases h
      exact ⟨u, rest, last, findings, rfl, rfl, hkind, rfl⟩

/-- A token that is taken is the next one. -/
theorem here_of_next {t : Step Token c} (h : c.next? = some t) : c.here = t.value.span := by
  obtain ⟨u, rest, last, findings, rfl, hvalue, -, -⟩ := exists_of_next h
  rw [hvalue]
  rfl

theorem goes_next {t : Step Token c} (h : c.next? = some t) : c.Goes [t.value] t.cursor := by
  obtain ⟨u, rest, last, findings, rfl, hvalue, hkind, hcursor⟩ := exists_of_next h
  rw [hvalue, hcursor]
  exact .take hkind .stop

/-- What is noted at a token that was just taken could have been noted before it was taken. -/
theorem goes_next_noteAt {t : Step Token c} (h : c.next? = some t) (issue : SyntaxIssue) :
    c.Goes [t.value] (t.cursor.noteAt t.value.span issue) := by
  obtain ⟨u, rest, last, findings, rfl, hvalue, hkind, hcursor⟩ := exists_of_next h
  rw [hvalue, hcursor]
  exact .note issue (.take hkind .stop)

theorem leads_next {t : Step Token c} (h : c.next? = some t) : c.Leads t.cursor (· = [t.value]) :=
  ⟨_, goes_next h, fun _ _ => rfl⟩

theorem leads_next_of_kind {t : Step Token c} (h : c.next? = some t) {kind : TokenKind} (hkind : t.value.kind = kind) :
    c.Leads t.cursor (· = [⟨kind, t.value.span⟩]) := by
  rw [← hkind]
  exact leads_next h

theorem leads_next_noteAt {t : Step Token c} (h : c.next? = some t) (issue : SyntaxIssue)
    (P : List Token → Prop) : c.Leads (t.cursor.noteAt t.value.span issue) P := by
  refine ⟨_, goes_next_noteAt h issue, fun hquiet => ?_⟩
  rw [← findings_next h] at hquiet
  exact absurd (congrArg List.length hquiet) (Nat.succ_ne_self _)

/-- If nothing is noted the condition does not hold. -/
theorem leads_next_noteIf {t : Step Token c} (h : c.next? = some t) (condition : Bool) (issue : SyntaxIssue) :
    c.Leads (t.cursor.noteIf condition t.value.span issue) fun ts => ts = [t.value] ∧ condition = false := by
  cases condition with
  | true => exact leads_next_noteAt h issue _
  | false => exact (leads_next h).imp fun _ _ _ hts => ⟨hts, rfl⟩

/-! ## Tokens of a kind -/

theorem next_of_acceptKind {kind : TokenKind} {t : Step Span c} (h : c.acceptKind kind = some t) :
    ∃ u, c.next? = some u ∧ u.value = ⟨kind, t.value⟩ ∧ t.cursor = u.cursor := by
  unfold acceptKind at h
  split at h
  · next u hu =>
    split at h
    · next hkind =>
      cases h
      exact ⟨u, hu, by rw [← hkind]; rfl, rfl⟩
    · cases h
  · cases h

theorem next_of_operator {l : OperatorLevel} {t : Step BinaryOp c} (h : c.operator? l = some t) :
    ∃ u, c.next? = some u ∧ u.value.kind = .mark t.value.mark ∧ t.cursor = u.cursor := by
  unfold operator? at h
  split at h
  · cases h
  · next u hu =>
    split at h
    · next m hkind =>
      obtain ⟨op, hop, rfl⟩ := Option.map_eq_some_iff.1 h
      have hmark := (OperatorLevel.operator?_eq_some hop).2
      exact ⟨u, hu, hkind.trans (congrArg TokenKind.mark hmark.symm), rfl⟩
    · cases h

theorem next_of_prefixOp {t : Step UnaryOp c} (h : c.prefixOp? = some t) :
    ∃ u, c.next? = some u ∧ u.value.kind = .mark t.value.mark ∧ t.cursor = u.cursor := by
  unfold prefixOp? at h
  split at h
  · cases h
  · next u hu =>
    split at h
    · next m hkind =>
      obtain ⟨op, hop, rfl⟩ := Option.map_eq_some_iff.1 h
      have hmark := UnaryOp.ofMark?_eq_some hop
      exact ⟨u, hu, hkind.trans (congrArg TokenKind.mark hmark.symm), rfl⟩
    · cases h

theorem leads_acceptKind {kind : TokenKind} {t : Step Span c} (h : c.acceptKind kind = some t) :
    c.Leads t.cursor (· = [⟨kind, t.value⟩]) := by
  obtain ⟨u, hu, hvalue, hcursor⟩ := next_of_acceptKind h
  rw [hcursor, ← hvalue]
  exact leads_next hu

theorem leads_accept {mark : Mark} {t : Step Span c} (h : c.accept mark = some t) :
    c.Leads t.cursor (· = [⟨.mark mark, t.value⟩]) := leads_acceptKind h

theorem leads_accept_noteIf {mark : Mark} {t : Step Span c} (h : c.accept mark = some t) (condition : Bool)
    (issue : SyntaxIssue) : c.Leads (t.cursor.noteIf condition t.value issue) fun ts =>
      ts = [⟨.mark mark, t.value⟩] ∧ condition = false := by
  obtain ⟨u, hu, hvalue, hcursor⟩ := next_of_acceptKind h
  have hspan : t.value = u.value.span := by rw [hvalue]
  rw [hcursor, ← hvalue, hspan]
  exact leads_next_noteIf hu condition issue

theorem leads_operator_noteIf {l : OperatorLevel} {t : Step BinaryOp c} (h : c.operator? l = some t)
    (condition : Bool) (issue : SyntaxIssue) : c.Leads (t.cursor.noteIf condition c.here issue) fun ts =>
      ts = [⟨.mark t.value.mark, c.here⟩] ∧ condition = false := by
  obtain ⟨⟨⟨⟨kind, span⟩, _, _⟩, _⟩, hu, rfl, hcursor⟩ := next_of_operator h
  rw [hcursor, here_of_next hu]
  exact leads_next_noteIf hu condition issue

theorem leads_prefixOp {t : Step UnaryOp c} (h : c.prefixOp? = some t) :
    c.Leads t.cursor (· = [⟨.mark t.value.mark, c.here⟩]) := by
  obtain ⟨⟨⟨⟨kind, span⟩, _, _⟩, _⟩, hu, rfl, hcursor⟩ := next_of_prefixOp h
  rw [hcursor, here_of_next hu]
  exact leads_next hu

theorem leads_expect (c : Cursor) (mark : Mark) :
    c.Leads (c.expect mark).cursor (· = [⟨.mark mark, (c.expect mark).value⟩]) := by
  unfold expect
  split
  · next t h => exact leads_accept h
  · exact c.leads_note ..

theorem leads_ident (c : Cursor) : c.Leads c.ident.cursor (· = [c.ident.value.asToken]) := by
  unfold ident
  split
  · next t ht =>
    split
    · next name hkind => exact leads_next_of_kind ht hkind
    · exact c.leads_note ..
  · exact c.leads_note ..

end

end Cursor

/-- The path to what was read takes tokens that are as `P` says for the value. -/
def Read.Covers {α : Type} {c : Cursor} (r : Read α c) (P : List Token → α → Prop) : Prop :=
  c.Leads r.cursor (P · r.value)

end Namescope
