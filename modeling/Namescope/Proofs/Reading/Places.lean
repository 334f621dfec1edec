import Namescope.Proofs.Reading.Bounds
import Namescope.Proofs.Reading.Regions
/-!
# Where the parts of a program are

In a text without errors every part of the program goes from its first token to its last. So parts are within
what they are parts of, and one behind the other.
-/
namespace Namescope

/-! ## The tokens of a text are in order -/

theorem Position.offset_le_past (p : Position) (text : List Char) : p.offset ≤ (p.past text).offset := by
  rw [(p.past_counts text).1]
  exact Nat.le_add_right _ _

/-- Pieces that are laid out from a position on are behind it, one after the other. -/
theorem Placed.ordered_layout (p : Position) (pieces : List Piece) :
    Token.Ordered ((layout p pieces).filterMap token?) ∧
      ∀ t ∈ (layout p pieces).filterMap token?, p.offset ≤ t.span.start := by
  induction pieces generalizing p with
  | nil => exact ⟨⟨.nil, nofun⟩, nofun⟩
  | cons piece more ih =>
    obtain ⟨hmore, hbehind⟩ := ih (p.past piece.text)
    have hle := p.offset_le_past piece.text
    have hlater : ∀ t ∈ (layout (p.past piece.text) more).filterMap token?, p.offset ≤ t.span.start :=
      fun t ht => Nat.le_trans hle (hbehind t ht)
    rw [layout, List.filterMap_cons]
    cases hkind : piece.form.token? with
    | none =>
      simp only [token?, hkind, Option.map_none]
      exact ⟨hmore, hlater⟩
    | some kind =>
      simp only [token?, hkind, Option.map_some]
      refine ⟨⟨List.pairwise_cons.2 ⟨hbehind, hmore.apart⟩, List.forall_mem_cons.2 ⟨hle, hmore.upright⟩⟩, ?_⟩
      exact List.forall_mem_cons.2 ⟨Nat.le_refl _, hlater⟩

theorem Scan.ordered_words (source : String) : Token.Ordered (ofSource source).words := by
  rw [words_ofSource]
  exact (Placed.ordered_layout {} _).1

theorem Scan.beforeEnd_tokens (source : String) :
    Token.beforeEnd (ofSource source).tokens = (ofSource source).words := by
  have hlive : ∀ t ∈ (ofSource source).words, t.kind ≠ .eof :=
    fun t ht => of_decide_eq_true (List.mem_filter.1 ht).2
  rw [tokens_eq_words, Token.beforeEnd_append hlive]
  exact List.append_nil _

/-! ## Programs at their places -/

/-- Where the parts of a program are that is written with the given tokens. -/
structure Program.Placed (ts : List Token) (p : Program) : Prop where
  /-- Declarations go over the tokens one after the other, and so does each part of them over its own. -/
  decls : AllOver Decl.LiesOver ts p.decls
  /-- The parts of a declaration are within it, apart from each other and in order, all the way down. -/
  nested : ∀ d ∈ p.decls, d.region.Nested
  /-- Declarations are apart from each other and in order. -/
  inOrder : (p.decls.map Decl.region).Pairwise Region.Before
  /-- A chain of fields over some of the tokens is where the expression is, unless that is in parentheses. -/
  chains : ∀ us location span, us <:+: ts → (Expr.place location span).LiesOver us →
    us.head?.map Token.kind ≠ some (.mark .lparen) → location.span = span

/-- Only parentheses make the span of an expression another one than that of its location. -/
theorem Expr.LiesOver.span_place {ts : List Token} {location : Location} {span : Span}
    (h : (Expr.place location span).LiesOver ts) (hopen : ts.head?.map Token.kind ≠ some (.mark .lparen)) :
    location.span = span := by
  generalize he : Expr.place location span = e at h
  cases h with
  | place hlocation =>
    cases he
    exact hlocation.span_eq
  | parens _ _ hall =>
    rw [hall] at hopen
    exact absurd rfl hopen
  | _ => cases he

theorem Program.placed_of_over {ts : List Token} {p : Program} (hover : AllOver Decl.LiesOver ts p.decls)
    (hts : Token.Ordered ts) : p.Placed ts := by
  obtain ⟨hnested, -, hpairs⟩ := (hover.regions fun _ _ h => h.region).nested hts
  exact {
    decls := hover
    nested := List.forall_mem_map.1 hnested
    inOrder := hpairs
    chains := fun _ _ _ _ h hopen => h.span_place hopen }

/-- In a text without errors every part of the program goes from its first token to its last. -/
theorem parts_placed (source : String) (h : (parse source).report.hasErrors = false) :
    (parse source).program.Placed (Scan.ofSource source).words := by
  have hover := (Reading.goes_decls (Scan.ofSource source).tokens).2.2 (Reading.findings_eq_nil h)
  rw [Scan.beforeEnd_tokens] at hover
  exact Program.placed_of_over (hover (Scan.ordered_words source)) (Scan.ordered_words source)

/-- The parentheses around a chain of fields belong to the expression and not to the location. -/
theorem parenthesized_chain_placed :
    (parse "void f(struct P p) { cout << (p.x); }").report.hasErrors = false ∧
      (parse "void f(struct P p) { cout << (p.x); }").program.Placed
        (Scan.ofSource "void f(struct P p) { cout << (p.x); }").words := by
  have hquiet : (parse "void f(struct P p) { cout << (p.x); }").report.hasErrors = false := by decide +kernel
  exact ⟨hquiet, parts_placed _ hquiet⟩

end Namescope
