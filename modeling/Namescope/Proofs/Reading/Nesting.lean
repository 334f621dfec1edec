import Mathlib.Data.List.Infix
import Namescope.Proofs.Reading.Bounds
import Namescope.Proofs.Reading.ProgramForms
/-!
# Where bodies end

The reader counts blocks, not braces: a body ends at its last closing brace, one for each block in it, or at the
end of the tokens. While it skips tokens after a failure it passes by opening braces, but not by closing ones. So
in balanced tokens a body ends at the brace that matches its first one if and only if no opening brace in it was
skipped, unless a block lacks its opening brace.
-/
namespace Namescope

/-! ## Braces -/

namespace Token

/-- How many of the tokens are opening braces. -/
def opens (ts : List Token) : Nat := ts.countP (·.kind = .mark .lbrace)

/-- How many of the tokens are closing braces. -/
def closes (ts : List Token) : Nat := ts.countP (·.kind = .mark .rbrace)

@[simp] theorem opens_nil : opens [] = 0 := rfl

@[simp] theorem closes_nil : closes [] = 0 := rfl

@[simp] theorem opens_append (ts us : List Token) : opens (ts ++ us) = opens ts + opens us := List.countP_append

@[simp] theorem closes_append (ts us : List Token) : closes (ts ++ us) = closes ts + closes us := List.countP_append

theorem counts_of_lbrace {t : Token} (h : t.kind = .mark .lbrace) : opens [t] = 1 ∧ closes [t] = 0 := by
  simp [opens, closes, h]

theorem counts_of_rbrace {t : Token} (h : t.kind = .mark .rbrace) : opens [t] = 0 ∧ closes [t] = 1 := by
  simp [opens, closes, h]

/-- Up to no place more braces close than open. -/
def Level (ts : List Token) : Prop := ∀ front ∈ ts.inits, closes front ≤ opens front

instance (ts : List Token) : Decidable (Level ts) := inferInstanceAs (Decidable (∀ front ∈ ts.inits, _))

/-- Each opening brace has its closing one. -/
def Balanced (ts : List Token) : Prop := Level ts ∧ closes ts = opens ts

instance (ts : List Token) : Decidable (Balanced ts) := inferInstanceAs (Decidable (_ ∧ _))

/-- The tokens from an opening brace up to the closing one that matches it. -/
def Group (ts : List Token) : Prop := ∃ opening inner closing, ts = [opening] ++ (inner ++ [closing]) ∧
  opening.kind = .mark .lbrace ∧ closing.kind = .mark .rbrace ∧ Balanced inner

theorem level_nil : Level [] := by decide

/-- A front of two lists is one of the first list, or all of that and one of the second. -/
theorem front_cases {front ts us : List Token} (h : front ∈ (ts ++ us).inits) :
    front ∈ ts.inits ∨ ∃ more ∈ us.inits, front = ts ++ more := by
  rw [List.inits_append, List.mem_append] at h
  rcases h with hfront | hlater
  · exact .inl hfront
  · obtain ⟨more, hmore, rfl⟩ := List.mem_map.1 hlater
    exact .inr ⟨more, List.mem_of_mem_tail hmore, rfl⟩

theorem closes_le_of_front {front ts : List Token} (h : front ∈ ts.inits) : closes front ≤ closes ts :=
  ((List.mem_inits _ _).1 h).sublist.countP_le

theorem Level.closes_le {ts : List Token} (h : Level ts) : closes ts ≤ opens ts :=
  h ts ((List.mem_inits _ _).2 (List.prefix_refl _))

theorem Level.append {ts us : List Token} (hts : Level ts) (hus : Level us) : Level (ts ++ us) := by
  have hle := hts.closes_le
  intro front hfront
  rcases front_cases hfront with hfront | ⟨more, hmore, rfl⟩
  · exact hts front hfront
  · have := hus more hmore
    simp only [opens_append, closes_append]
    omega

/-- While the first brace is open one more may close. -/
theorem Level.enclose {opening : Token} {inner back : List Token} (hopening : opening.kind = .mark .lbrace)
    (hinner : Level inner) (hback : closes back ≤ 1) : Level ([opening] ++ (inner ++ back)) := by
  obtain ⟨hopens, hcloses⟩ := counts_of_lbrace hopening
  intro front hfront
  rcases front_cases hfront with hfront | ⟨more, hmore, rfl⟩
  · have := closes_le_of_front hfront
    omega
  simp only [opens_append, closes_append]
  rcases front_cases hmore with hmore | ⟨last, hlast, rfl⟩
  · have := hinner more hmore
    omega
  · have := closes_le_of_front hlast
    have := hinner.closes_le
    simp only [opens_append, closes_append]
    omega

/-- What is behind a front of balanced tokens opens no more braces than it closes. -/
theorem Balanced.opens_le {front back : List Token} (h : Balanced (front ++ back)) : opens back ≤ closes back := by
  have hfront := h.1 front ((List.mem_inits _ _).2 (List.prefix_append ..))
  have htotal := h.2
  simp only [opens_append, closes_append] at htotal
  omega

theorem Group.closes_eq {ts : List Token} (h : Group ts) : closes ts = opens ts := by
  obtain ⟨opening, inner, closing, rfl, hopening, hclosing, -, htotal⟩ := h
  obtain ⟨h₁, h₂⟩ := counts_of_lbrace hopening
  obtain ⟨h₃, h₄⟩ := counts_of_rbrace hclosing
  simp only [opens_append, closes_append]
  omega

end Token

/-! ## Blocks in blocks -/

mutual

/-- How many blocks there are in a block, itself included. -/
def Block.blocks : Block → Nat
  | .mk _ body _ => Stmt.blocksOf body + 1

/-- How many blocks there are in a statement. -/
def Stmt.blocks : Stmt → Nat
  | .ifThen _ body _ | .whileLoop _ body _ | .repeatLoop _ body _ => body.blocks
  | .ifElse _ yes no _ => yes.blocks + no.blocks
  | .assign .. | .increment .. | .decrement .. | .read .. | .write .. | .call .. | .ret .. => 0

/-- How many blocks there are in statements. -/
def Stmt.blocksOf : List Stmt → Nat
  | [] => 0
  | first :: more => first.blocks + Stmt.blocksOf more

end

theorem Block.blocks_eq (b : Block) : b.blocks = Stmt.blocksOf b.body + 1 := by
  cases b
  rfl

theorem Stmt.blocksOf_append (ss more : List Stmt) : blocksOf (ss ++ more) = blocksOf ss + blocksOf more := by
  induction ss with
  | nil => simp [blocksOf]
  | cons s ss ih => simp [blocksOf, ih, Nat.add_assoc]

namespace Cursor

variable {c d e : Cursor}

/-! ## Paths that close blocks -/

/-- From `c` to `d` no opening brace is noted to be missing. -/
def Opened (c d : Cursor) : Prop :=
  ∃ notes, d.findings = notes ++ c.findings ∧ ∀ f ∈ notes, f.issue ≠ .markExpected .lbrace

theorem Opened.split {ts us : List Token} (h : c.Opened e) (hgoes : c.Goes ts d) (hgoes' : d.Goes us e) :
    c.Opened d ∧ d.Opened e := by
  obtain ⟨notes, he, hnotes⟩ := h
  obtain ⟨front, -, hfront, -⟩ := hgoes.findings
  obtain ⟨back, -, hback, -⟩ := hgoes'.findings
  have hparts : notes = back.reverse ++ front.reverse := by
    rw [hback, hfront, ← List.append_assoc] at he
    exact (List.append_cancel_right he).symm
  rw [hparts] at hnotes
  obtain ⟨hlate, hearly⟩ := List.forall_mem_append.1 hnotes
  exact ⟨⟨_, hfront, hearly⟩, _, hback, hlate⟩

/-- At the end no token is taken. -/
theorem Goes.at_end {ts : List Token} (h : c.Goes ts d) (hend : c.kinds = []) : d.kinds = [] := by
  cases ts with
  | nil =>
    rw [kinds, h.rest] at hend
    exact hend
  | cons t ts =>
    have hlive := h.live t List.mem_cons_self
    rw [kinds, h.rest, Token.kinds] at hend
    simp [hlive] at hend

/-- A path closes `n` blocks, fewer only if it gets to the end. If no block on it lacks its opening brace, at
least `n` braces open, and up to no place more close. -/
def Nests (n : Nat) (c d : Cursor) : Prop := ∃ ts, c.Goes ts d ∧ Token.closes ts ≤ n ∧
  (Token.closes ts < n → d.kinds = []) ∧ (c.Opened d → n ≤ Token.opens ts ∧ Token.Level ts)

theorem Nests.andThen {m n : Nat} (h : c.Nests m d) (h' : d.Nests n e) : c.Nests (m + n) e := by
  obtain ⟨ts, hgoes, hle, hend, hopen⟩ := h
  obtain ⟨us, hgoes', hle', hend', hopen'⟩ := h'
  refine ⟨ts ++ us, hgoes.trans hgoes', ?_, fun hlt => ?_, fun hopened => ?_⟩
  · rw [Token.closes_append]
    omega
  · rw [Token.closes_append] at hlt
    by_cases hfirst : Token.closes ts < m
    · exact hgoes'.at_end (hend hfirst)
    · exact hend' (by omega)
  · obtain ⟨hearly, hlate⟩ := hopened.split hgoes hgoes'
    obtain ⟨hm, hts⟩ := hopen hearly
    obtain ⟨hn, hus⟩ := hopen' hlate
    rw [Token.opens_append]
    exact ⟨by omega, hts.append hus⟩

/-- A path that closes no block. -/
theorem Makes.nests {P : Prop} (h : c.Makes Inward True d P) : c.Nests 0 d := by
  obtain ⟨ts, hgoes, hinward, -⟩ := h
  have hcloses : ∀ front, front <+: ts → Token.closes front = 0 := by
    intro front hfront
    refine List.countP_eq_zero.2 fun t ht => ?_
    simpa [Inward] using hinward t (hfront.subset ht)
  refine ⟨ts, hgoes, ?_, nofun, fun _ => ⟨Nat.zero_le _, fun front hfront => ?_⟩⟩
  · rw [hcloses ts (List.prefix_refl _)]
  · rw [hcloses front ((List.mem_inits _ _).1 hfront)]
    exact Nat.zero_le _

theorem Makes.flat_nests {P : Prop} (h : c.Makes Flat True d P) : c.Nests 0 d :=
  (h.mono fun _ => Flat.inward).nests

/-! ## Blocks -/

/-- A mark that is expected is taken, or noted to be missing. -/
theorem expect_cases (c : Cursor) (m : Mark) : (∃ t : Token, t.kind = .mark m ∧ c.Goes [t] (c.expect m).cursor) ∨
    (c.kinds.head? ≠ some (.mark m) ∧ (c.expect m).cursor = c.note (.markExpected m)) := by
  unfold expect
  split
  · next t ht =>
    obtain ⟨u, hu, hvalue, hcursor⟩ := next_of_acceptKind ht
    refine .inl ⟨u.value, by rw [hvalue], ?_⟩
    rw [hcursor]
    exact goes_next hu
  · next hnone =>
    refine .inr ⟨fun hhead => ?_, rfl⟩
    obtain ⟨ks, hks⟩ := List.head?_eq_some_iff.1 hhead
    obtain ⟨t, ht, -⟩ := accept_exact hks
    rw [hnone] at ht
    cases ht

/-- How a block is read whose statements close `n` blocks: from `front`, which is its opening brace if that is
there, through `inner` up to `back`, which is its closing brace unless the tokens are over. -/
structure Encloses (n : Nat) (c d : Cursor) (front inner back : List Token) : Prop where
  goes : c.Goes (front ++ (inner ++ back)) d
  opening : (∃ t : Token, t.kind = .mark .lbrace ∧ front = [t]) ∨ (front = [] ∧ ¬ c.Opened d)
  closing : (∃ t : Token, t.kind = .mark .rbrace ∧ back = [t]) ∨ (back = [] ∧ d.kinds = [])
  closes_le : Token.closes inner ≤ n
  at_end : Token.closes inner < n → d.kinds = []
  level : c.Opened d → n ≤ Token.opens inner ∧ Token.Level inner

/-- A block closes itself and the blocks in it. -/
theorem Encloses.nests {n : Nat} {front inner back : List Token} (h : c.Encloses n d front inner back) :
    c.Nests (n + 1) d := by
  have hle := h.closes_le
  have hfront : Token.closes front = 0 := by
    rcases h.opening with ⟨t, ht, rfl⟩ | ⟨rfl, -⟩
    · exact (Token.counts_of_lbrace ht).2
    · rfl
  have hback : Token.closes back = 1 ∨ Token.closes back = 0 ∧ d.kinds = [] := by
    rcases h.closing with ⟨t, ht, rfl⟩ | ⟨rfl, hend⟩
    · exact .inl (Token.counts_of_rbrace ht).2
    · exact .inr ⟨rfl, hend⟩
  refine ⟨_, h.goes, ?_, fun hlt => ?_, fun hopened => ?_⟩
  · rw [Token.closes_append, Token.closes_append]
    omega
  · rw [Token.closes_append, Token.closes_append] at hlt
    rcases hback with hback | ⟨-, hend⟩
    · exact h.at_end (by omega)
    · exact hend
  · obtain ⟨hn, hlevel⟩ := h.level hopened
    obtain ⟨opening, hopening, rfl⟩ := h.opening.resolve_right fun hmissing => hmissing.2 hopened
    have hopens := (Token.counts_of_lbrace hopening).1
    refine ⟨?_, hlevel.enclose hopening (by omega)⟩
    rw [Token.opens_append, Token.opens_append]
    omega

/-- An opening brace is taken, or its lack is noted. -/
theorem expect_lbrace (c : Cursor) : ∃ front, c.Goes front (c.expect .lbrace).cursor ∧
    ((∃ t : Token, t.kind = .mark .lbrace ∧ front = [t]) ∨ (front = [] ∧ ¬ c.Opened (c.expect .lbrace).cursor)) := by
  rcases c.expect_cases .lbrace with ⟨t, ht, hgoes⟩ | ⟨-, hnoted⟩
  · exact ⟨[t], hgoes, .inl ⟨t, ht, rfl⟩⟩
  · refine ⟨[], hnoted ▸ .note _ .stop, .inr ⟨rfl, ?_⟩⟩
    rintro ⟨notes, hnotes, hnone⟩
    rw [hnoted] at hnotes
    have hone : [⟨.markExpected .lbrace, c.here⟩] = notes := List.append_cancel_right hnotes
    exact hnone _ (hone ▸ List.mem_singleton_self _) rfl

/-- Where statements stop a closing brace is taken, or the tokens are over. -/
theorem expect_rbrace (hstop : c.kinds = [] ∨ c.kinds.head? = some (.mark .rbrace)) :
    ∃ back, c.Goes back (c.expect .rbrace).cursor ∧
      ((∃ t : Token, t.kind = .mark .rbrace ∧ back = [t]) ∨ (back = [] ∧ (c.expect .rbrace).cursor.kinds = [])) := by
  rcases c.expect_cases .rbrace with ⟨t, ht, hgoes⟩ | ⟨hhead, hnoted⟩
  · exact ⟨[t], hgoes, .inl ⟨t, ht, rfl⟩⟩
  · rw [hnoted]
    exact ⟨[], .note _ .stop, .inr ⟨rfl, hstop.resolve_right hhead⟩⟩

theorem Nests.encloses {n : Nat} (h : (c.expect .lbrace).cursor.Nests n d)
    (hstop : d.kinds = [] ∨ d.kinds.head? = some (.mark .rbrace)) :
    ∃ front inner back, c.Encloses n (d.expect .rbrace).cursor front inner back := by
  obtain ⟨inner, hgoes, hle, hend, hopen⟩ := h
  obtain ⟨front, hfrontGoes, hopening⟩ := c.expect_lbrace
  obtain ⟨back, hbackGoes, hclosing⟩ := expect_rbrace hstop
  have hrest := hgoes.trans hbackGoes
  refine ⟨front, inner, back, hfrontGoes.trans hrest, ?_, hclosing, hle, ?_, fun hopened => ?_⟩
  · exact hopening.imp_right fun h => ⟨h.1, fun hopened => h.2 (hopened.split hfrontGoes hrest).1⟩
  · exact fun hlt => hbackGoes.at_end (hend hlt)
  · exact hopen ((hopened.split hfrontGoes hrest).2.split hgoes hbackGoes).1

/-! ## Statements -/

theorem statements_stop (c : Cursor) :
    c.statements.cursor.kinds = [] ∨ c.statements.cursor.kinds.head? = some (.mark .rbrace) := by
  rw [statements]
  split
  · next hnone =>
    rcases c.next?_cases with ⟨-, hkinds⟩ | ⟨t, ht, -⟩
    · exact .inl hkinds
    · rw [hnone] at ht
      cases ht
  next t ht =>
  have hshorter := t.shorter
  split
  · next hbrace =>
    rcases c.next?_cases with ⟨hnone, -⟩ | ⟨u, hu, hkinds, -⟩
    · rw [hnone] at ht
      cases ht
    · cases ht.symm.trans hu
      refine .inr ?_
      show c.kinds.head? = _
      rw [hkinds, hbrace]
      rfl
  · have hlength := (t.cursor.statement t.value).length_le
    exact statements_stop _
termination_by c.rest.length
decreasing_by omega

/-- There is no block in a simple statement. -/
theorem finish_blocks {start : Span} {statement : Span → Stmt} (h : ∀ span, (statement span).blocks = 0) :
    ∀ s, (c.finish start statement).value = some s → s.blocks = 0 := by
  rintro _ ⟨⟩
  exact h _

theorem nameStatement_blocks (c : Cursor) (name : Ident) :
    ∀ s, (c.nameStatement name).value = some s → s.blocks = 0 := by
  unfold nameStatement
  split
  · exact finish_blocks fun _ => rfl
  dsimp only
  split
  · exact finish_blocks fun _ => rfl
  split
  · exact finish_blocks fun _ => rfl
  split
  · exact finish_blocks fun _ => rfl
  · nofun

theorem inputStatement_blocks (c : Cursor) (start : Span) :
    ∀ s, (c.inputStatement start).value = some s → s.blocks = 0 := by
  unfold inputStatement
  dsimp only
  split
  · nofun
  split
  · exact finish_blocks fun _ => rfl
  · nofun

theorem returnStatement_blocks (c : Cursor) (start : Span) :
    ∀ s, (c.returnStatement start).value = some s → s.blocks = 0 := by
  unfold returnStatement
  split
  · exact finish_blocks fun _ => rfl
  · exact finish_blocks fun _ => rfl

/-- A word, a condition and a block: what a compound statement begins with. -/
theorem nests_guarded {t : Step Token c} (ht : c.next? = some t) {keyword : Keyword}
    (hkind : t.value.kind = .keyword keyword) {n : Nat}
    (hblock : t.cursor.condition.cursor.Nests n t.cursor.condition.cursor.block.cursor) :
    c.Nests n t.cursor.condition.cursor.block.cursor := by
  have hword : c.Makes Flat True _ _ := makes_next_of_kind ht hkind rfl
  have hcond := (condition_makes t.cursor).flat_nests
  have hall := hword.flat_nests.andThen (hcond.andThen hblock)
  rwa [Nat.zero_add, Nat.zero_add] at hall

/-- A simple statement closes no block, and there is none in it. -/
theorem MakesSimple.nests {statement : Read (Option Stmt) d} (h : c.MakesSimple True statement)
    (hblocks : ∀ s, statement.value = some s → s.blocks = 0) :
    c.Nests (Stmt.blocksOf statement.value.toList) statement.cursor := by
  have hnests : c.Nests 0 statement.cursor := Makes.nests h
  cases hvalue : statement.value with
  | none => exact hnests
  | some s =>
    show c.Nests (s.blocks + 0) _
    rwa [hblocks s hvalue]

mutual

/-- How a block is read. -/
theorem block_encloses (c : Cursor) : ∃ front inner back,
    c.Encloses (Stmt.blocksOf c.block.value.body) c.block.cursor front inner back := by
  have hopening := (c.expect .lbrace).length_le
  have hlocals := (c.expect .lbrace).cursor.locals.length_le
  have hbody := statements_nests (c.expect .lbrace).cursor.locals.cursor
  rw [block]
  have hinner := (locals_makes (c.expect .lbrace).cursor).flat_nests.andThen hbody
  rw [Nat.zero_add] at hinner
  exact hinner.encloses (statements_stop _)
termination_by 4 * c.rest.length + 1
decreasing_by omega

theorem block_nests (c : Cursor) : c.Nests c.block.value.blocks c.block.cursor := by
  obtain ⟨front, inner, back, hencloses⟩ := block_encloses c
  rw [Block.blocks_eq]
  exact hencloses.nests
termination_by 4 * c.rest.length + 2
decreasing_by omega

theorem statements_nests (c : Cursor) : c.Nests (Stmt.blocksOf c.statements.value) c.statements.cursor := by
  have hstay : c.Nests 0 c := ⟨[], .stop, Nat.le_refl 0, nofun, fun _ => ⟨Nat.le_refl 0, Token.level_nil⟩⟩
  rw [statements]
  split
  · exact hstay
  next t ht =>
  have hshorter := t.shorter
  split
  · exact hstay
  next hbrace =>
  have hlength := (t.cursor.statement t.value).length_le
  have hall := (statement_nests ht hbrace).andThen (statements_nests _)
  rwa [← Stmt.blocksOf_append] at hall
termination_by 4 * c.rest.length
decreasing_by
  · omega
  · omega

theorem statement_nests {c : Cursor} {t : Step Token c} (ht : c.next? = some t)
    (hbrace : t.value.kind ≠ .mark .rbrace) : c.Nests
      (Stmt.blocksOf (t.cursor.statement t.value).value.toList) (t.cursor.statement t.value).cursor := by
  have hcondLength := t.cursor.condition.length_le
  have hyesLength := t.cursor.condition.cursor.block.length_le
  have hyes := block_nests t.cursor.condition.cursor
  rw [statement]
  split
  · next name hkind => exact (nameStatement_makes ht hkind).nests (nameStatement_blocks _ _)
  · next hkind => exact (inputStatement_makes ht hkind).nests (inputStatement_blocks _ _)
  · next hkind => exact (outputStatement_makes ht hkind).nests (finish_blocks fun _ => rfl)
  · next hkind => exact (returnStatement_makes ht hkind).nests (returnStatement_blocks _ _)
  · next hkind =>
    have hguarded := nests_guarded ht hkind hyes
    dsimp only
    split
    · exact hguarded
    · next word hword =>
      have hshorter := word.shorter
      have helse : Makes Flat True _ _ _ := makes_acceptKind hword rfl
      have hno := helse.flat_nests.andThen (block_nests word.cursor)
      rw [Nat.zero_add] at hno
      exact hguarded.andThen hno
  · next hkind => exact nests_guarded ht hkind hyes
  · next hkind => exact nests_guarded ht hkind hyes
  · exact (makes_unknown ht hbrace _).nests nofun
termination_by 4 * t.cursor.rest.length + 3
decreasing_by
  · omega
  · omega

end

/-! ## Functions -/

theorem afterType_body {start : Span} {type : TypeRef} {f : FunctionDecl}
    (h : (c.afterType start type).value = .function f) : ∃ ts d, c.Goes ts d ∧ d.block.value = f.body := by
  unfold afterType at h
  dsimp only at h
  split at h
  · next paren hparen =>
    obtain ⟨ts, hgoes, -⟩ := (leads_ident c).andThen ((leads_accept hparen).andThen
      ((signature_covers paren.cursor).andThen (leads_expect _ .rparen)))
    exact ⟨ts, _, hgoes, congrArg FunctionDecl.body (Decl.function.inj h)⟩
  · cases h

theorem decl?_body {decl : Step Decl c} (hdecl : c.decl? = some decl) {f : FunctionDecl}
    (h : decl.value = .function f) : ∃ ts d, c.Goes ts d ∧ d.block.value = f.body := by
  unfold decl? at hdecl
  split at hdecl
  · obtain ⟨word, -, rfl⟩ := Option.map_eq_some_iff.1 hdecl
    cases h
  · obtain ⟨type, htype, rfl⟩ := Option.map_eq_some_iff.1 hdecl
    obtain ⟨ts, hgoes, -⟩ := type?_covers htype
    obtain ⟨us, d, hgoes', hbody⟩ := afterType_body (c := type.cursor) h
    exact ⟨ts ++ us, d, hgoes.trans hgoes', hbody⟩

/-- The body of each function is read somewhere on the way. -/
theorem decls_bodies (c : Cursor) {f : FunctionDecl} (h : .function f ∈ c.decls.value) :
    ∃ ts d, c.Goes ts d ∧ d.block.value = f.body := by
  fun_induction decls c with
  | case1 => cases h
  | case2 c t ht first hfirst more ih =>
    rcases List.mem_cons.1 h with hhead | hmore
    · exact decl?_body hfirst hhead.symm
    · obtain ⟨ts, hgoes, -⟩ := decl?_covers hfirst
      obtain ⟨us, d, hgoes', hbody⟩ := ih hmore
      exact ⟨ts ++ us, d, hgoes.trans hgoes', hbody⟩
  | case3 c t ht hnone next ih =>
    have hskipped := leads_next_noteAt ht .declarationExpected fun _ => True
    obtain ⟨ts, hgoes, -⟩ := hskipped.andThen (leads_resumeAtTop _ t.value)
    obtain ⟨us, d, hgoes', hbody⟩ := ih h
    exact ⟨ts ++ us, d, hgoes.trans hgoes', hbody⟩

end Cursor

namespace Reading

variable {tokens before ts after : List Token} {body : Block} {c : Cursor}

/-- A body is read from the cursor `c` on: `before` it are the tokens up to there, it takes the tokens `ts`, and
`after` it are those left up to the end. -/
structure BodyAt (tokens : List Token) (body : Block) (c : Cursor) (before ts after : List Token) : Prop where
  parts : Token.beforeEnd tokens = before ++ (ts ++ after)
  reached : (atStart tokens).Goes before c
  taken : c.Goes ts c.block.cursor
  value : c.block.value = body

/-- Where a body ends whose tokens are `ts`. -/
structure BodyEnd (body : Block) (c : Cursor) (ts after : List Token) : Prop where
  /-- No more braces close in it than it has blocks. -/
  closes_le : Token.closes ts ≤ body.blocks
  /-- If fewer close the tokens are over. -/
  at_end : Token.closes ts < body.blocks → after = []
  /-- It ends with a closing brace, or the tokens are over. -/
  last : (∃ front closing, ts = front ++ [closing] ∧ closing.kind = .mark .rbrace) ∨ after = []
  /-- If no block lacks its opening brace, the body ends at the brace that matches its first one just when each
  opening brace in it begins a block of its tree, so that none was skipped. -/
  matching : c.Opened c.block.cursor → (Token.Group ts ↔ Token.opens ts = body.blocks)

theorem exists_bodyAt {f : FunctionDecl} (h : .function f ∈ (ofTokens tokens).program.decls) :
    ∃ c before ts after, BodyAt tokens f.body c before ts after := by
  obtain ⟨before, c, hreached, hbody⟩ := (atStart tokens).decls_bodies h
  obtain ⟨ts, htaken, -⟩ := c.block_covers
  refine ⟨c, before, ts, Token.beforeEnd c.block.cursor.rest, ?_, hreached, htaken, hbody⟩
  have hgoes := hreached.trans htaken
  have hrest : tokens = _ := hgoes.rest
  rw [congrArg Token.beforeEnd hrest, Token.beforeEnd_append hgoes.live, List.append_assoc]

/-- Nothing is left behind a body that gets to the end. -/
theorem BodyAt.after_nil (h : BodyAt tokens body c before ts after) (hend : c.block.cursor.kinds = []) :
    after = [] := by
  have hgoes := h.reached.trans h.taken
  have hrest : tokens = _ := hgoes.rest
  have hparts := h.parts
  rw [congrArg Token.beforeEnd hrest, Token.beforeEnd_append hgoes.live, (Token.beforeEnd_of_kinds hend).1,
    List.append_nil, ← List.append_assoc] at hparts
  exact List.self_eq_append_right.1 hparts

/-- The tokens of a body are those that the reader takes for its block. -/
theorem BodyAt.encloses (h : BodyAt tokens body c before ts after) : ∃ front inner back,
    c.Encloses (Stmt.blocksOf body.body) c.block.cursor front inner back ∧ ts = front ++ (inner ++ back) := by
  obtain ⟨front, inner, back, hencloses⟩ := c.block_encloses
  rw [h.value] at hencloses
  exact ⟨front, inner, back, hencloses, List.append_cancel_right (h.taken.rest.symm.trans hencloses.goes.rest)⟩

theorem BodyAt.last (h : BodyAt tokens body c before ts after) :
    (∃ front closing, ts = front ++ [closing] ∧ closing.kind = .mark .rbrace) ∨ after = [] := by
  obtain ⟨front, inner, back, hencloses, rfl⟩ := h.encloses
  rcases hencloses.closing with ⟨closing, hclosing, rfl⟩ | ⟨-, hkinds⟩
  · exact .inl ⟨front ++ inner, closing, (List.append_assoc ..).symm, hclosing⟩
  · exact .inr (h.after_nil hkinds)

/-- If every opening brace of a body begins a block of it, the last one of its braces matches the first one. -/
theorem BodyAt.group (h : BodyAt tokens body c before ts after) (hbalanced : Token.Balanced (Token.beforeEnd tokens))
    (hopened : c.Opened c.block.cursor) (hopens : Token.opens ts = body.blocks) : Token.Group ts := by
  obtain ⟨front, inner, back, hencloses, hts⟩ := h.encloses
  obtain ⟨hn, hlevel⟩ := hencloses.level hopened
  have hle := hencloses.closes_le
  obtain ⟨opening, hopening, rfl⟩ := hencloses.opening.resolve_right fun hmissing => hmissing.2 hopened
  obtain ⟨hfrontOpens, hfrontCloses⟩ := Token.counts_of_lbrace hopening
  have hcounts : Token.opens ts = 1 + (Token.opens inner + Token.opens back) ∧
      Token.closes ts = 0 + (Token.closes inner + Token.closes back) := by
    rw [hts, Token.opens_append, Token.opens_append, Token.closes_append, Token.closes_append, hfrontOpens,
      hfrontCloses]
    exact ⟨rfl, rfl⟩
  rw [Block.blocks_eq] at hopens
  -- at the end of the tokens all braces that open in the body also close in it
  have hend : c.block.cursor.kinds = [] → Token.opens ts ≤ Token.closes ts := by
    intro hkinds
    have hparts := h.parts
    rw [h.after_nil hkinds, List.append_nil] at hparts
    rw [hparts] at hbalanced
    exact hbalanced.opens_le
  rcases hencloses.closing with ⟨closing, hclosing, rfl⟩ | ⟨rfl, hkinds⟩
  · obtain ⟨hbackOpens, hbackCloses⟩ := Token.counts_of_rbrace hclosing
    have hall : Token.closes inner = Token.opens inner := by
      by_contra hne
      have := hend (hencloses.at_end (by omega))
      omega
    exact ⟨opening, inner, closing, hts, hopening, hclosing, hlevel, hall⟩
  · have := hend hkinds
    simp only [Token.opens_nil, Token.closes_nil] at hcounts
    omega

theorem BodyAt.ends (h : BodyAt tokens body c before ts after)
    (hbalanced : Token.Balanced (Token.beforeEnd tokens)) : BodyEnd body c ts after := by
  obtain ⟨us, hgoes, hle, hend, hopen⟩ := c.block_nests
  obtain rfl : ts = us := List.append_cancel_right (h.taken.rest.symm.trans hgoes.rest)
  rw [h.value] at hle hend hopen
  refine ⟨hle, fun hlt => h.after_nil (hend hlt), h.last, fun hopened =>
    ⟨fun hgroup => ?_, h.group hbalanced hopened⟩⟩
  have htotal := hgroup.closes_eq
  have hn := (hopen hopened).1
  omega

end Reading

/-- In balanced tokens each function has a body that is read somewhere, and wherever a body is read it ends as
`BodyEnd` says. -/
theorem bodies_end (tokens : List Token) (h : Token.Balanced (Token.beforeEnd tokens)) :
    (∀ f, .function f ∈ (Reading.ofTokens tokens).program.decls →
      ∃ c before ts after, Reading.BodyAt tokens f.body c before ts after) ∧
    ∀ body c before ts after, Reading.BodyAt tokens body c before ts after → Reading.BodyEnd body c ts after :=
  ⟨fun _ hf => Reading.exists_bodyAt hf, fun _ _ _ _ _ hbody => hbody.ends h⟩

/-- A brace where a statement is expected is skipped, so the body that has it ends at the brace that matches the
inner one, and the last brace is taken for a declaration. -/
theorem skipped_brace_bodies_end :
    Token.Balanced (Token.beforeEnd (Scan.ofSource "void f() { { } }").tokens) ∧
      ((parse "void f() { { } }").program.decls.any fun
        | .function f => f.body.blocks = 1 ∧ f.body.span.stop = 14
        | _ => false) = true ∧
      (parse "void f() { { } }").report.map (·.render) =
        ["error: expected a statement (1:12)", "error: expected a declaration (1:16)"] ∧
      (∀ f, .function f ∈ (parse "void f() { { } }").program.decls → ∃ c before ts after,
        Reading.BodyAt (Scan.ofSource "void f() { { } }").tokens f.body c before ts after ∧
          Reading.BodyEnd f.body c ts after) := by
  have hbalanced : Token.Balanced (Token.beforeEnd (Scan.ofSource "void f() { { } }").tokens) := by
    decide +kernel
  refine ⟨hbalanced, by decide +kernel, by decide +kernel, fun f hf => ?_⟩
  obtain ⟨c, before, ts, after, hbody⟩ := (bodies_end _ hbalanced).1 f hf
  exact ⟨c, before, ts, after, hbody, (bodies_end _ hbalanced).2 _ _ _ _ _ hbody⟩

end Namescope
