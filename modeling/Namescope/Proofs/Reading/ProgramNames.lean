import Namescope.Proofs.Reading.Bounds
import Namescope.Proofs.Reading.Names
/-!
# Where the identifiers of a program stand

Statements, blocks and declarations have their identifiers at tokens that the cursor can get to, as expressions do.
So in a program that is read from tokens with an end token each identifier stands at one of these tokens.
-/
namespace Namescope

namespace Cursor

variable {P : Span → Prop} {c d : Cursor}

/-! ## Types and variables -/

theorem Sees.type (h : c.Sees P) {type : Step TypeRef c} (htype : c.type? = some type) : type.value.Stands P := by
  have hplain : ∀ {kind : TypeKind} {span : Span}, (TypeRef.mk kind span).occurrences = [] →
      (TypeRef.mk kind span).Stands P := by
    intro kind span hnone o ho
    rw [Item.occurrences, hnone] at ho
    cases ho
  unfold type? at htype
  split at htype
  · cases htype
  next t ht =>
  split at htype
  · cases htype
    exact hplain rfl
  · cases htype
    exact hplain rfl
  · cases htype
    exact hplain rfl
  · cases htype
    exact TypeRef.stands_struct.2 (h.leads (leads_next ht)).ident
  · cases htype

theorem Sees.formal (h : c.Sees P) {formal : Step Binding c} (hformal : c.formal? = some formal) :
    formal.value.Stands P := by
  obtain ⟨type, htype, rfl⟩ := Option.map_eq_some_iff.1 hformal
  exact Binding.stands_iff.2 ⟨h.type htype, (h.leads (type?_covers htype)).ident⟩

theorem Sees.binding (h : c.Sees P) {binding : Step Binding c} (hbinding : c.binding? = some binding) :
    binding.value.Stands P := by
  obtain ⟨type, htype, rfl⟩ := Option.map_eq_some_iff.1 hbinding
  exact Binding.stands_iff.2 ⟨h.type htype, (h.leads (type?_covers htype)).ident⟩

theorem Sees.locals (h : c.Sees P) : ∀ b ∈ c.locals.value, b.Stands P := by
  fun_induction Cursor.locals c with
  | case1 => exact List.forall_mem_nil _
  | case2 c first hfirst more ih =>
    exact List.forall_mem_cons.2 ⟨h.binding hfirst, ih (h.leads (binding?_covers hfirst))⟩

/-! ## Statements -/

theorem Sees.condition (h : c.Sees P) : c.condition.value.Stands P :=
  expr_stands _ (h.leads (c.leads_expect .lparen))

/-- A statement that is read has its identifiers where `P` says, if there is one. -/
def StandsStmt (P : Span → Prop) {c : Cursor} (r : Read (Option Stmt) c) : Prop := ∀ s ∈ r.value, s.Stands P

theorem standsStmt_finish {start : Span} {statement : Span → Stmt} (h : ∀ span, (statement span).Stands P) :
    StandsStmt P (c.finish start statement) := by
  rintro _ ⟨⟩
  exact h _

section
variable (h : c.Sees P) {t : Step Token c} (ht : c.next? = some t)
include h ht

theorem Sees.nameStatement {name : String} (hkind : t.value.kind = .ident name) :
    StandsStmt P (t.cursor.nameStatement ⟨name, t.value.span, none⟩) := by
  have htarget : (t.cursor.location ⟨name, t.value.span, none⟩).value.Stands P := h.location ht name
  have hnext := h.leads (leads_next ht)
  unfold Cursor.nameStatement
  split
  · next paren hparen =>
    refine standsStmt_finish fun _ => Visit.stand_items.2 ?_
    have hargs := args_stands _ (hnext.leads (leads_accept hparen))
    exact List.forall_mem_cons.2 ⟨Item.stands_callee.2 (h.next ht), Expr.stands_listItems.2 hargs⟩
  dsimp only
  split
  · next sign hsign =>
    have hvalue := expr_stands _ ((h.leads (leads_location ht hkind)).leads (leads_accept hsign))
    refine standsStmt_finish fun _ => Visit.stand_items.2 ?_
    exact List.forall_mem_append.2 ⟨htarget, hvalue⟩
  split
  · exact standsStmt_finish fun _ => Visit.stand_items.2 htarget
  split
  · exact standsStmt_finish fun _ => Visit.stand_items.2 htarget
  · rintro _ ⟨⟩

theorem Sees.inputStatement (start : Span) : StandsStmt P (t.cursor.inputStatement start) := by
  have hnext := (h.leads (leads_next ht)).leads (t.cursor.leads_expect .shiftRight)
  unfold Cursor.inputStatement
  dsimp only
  split
  · rintro _ ⟨⟩
  next u hu =>
  split
  · next name hkind => exact standsStmt_finish fun _ => Visit.stand_items.2 (hnext.location hu name)
  · rintro _ ⟨⟩

theorem Sees.outputStatement (start : Span) : StandsStmt P (t.cursor.outputStatement start) := by
  have hnext := (h.leads (leads_next ht)).leads (t.cursor.leads_expect .shiftLeft)
  exact standsStmt_finish fun _ => Visit.stand_items.2 (expr_stands _ hnext)

theorem Sees.returnStatement (start : Span) : StandsStmt P (t.cursor.returnStatement start) := by
  unfold Cursor.returnStatement
  split
  · exact standsStmt_finish fun _ _ hi => by cases hi
  · exact standsStmt_finish fun _ => Visit.stand_items.2 (expr_stands _ (h.leads (leads_next ht)))

end

mutual

theorem block_stands (c : Cursor) (h : c.Sees P) : c.block.value.Stands P := by
  have hopening := (c.expect .lbrace).length_le
  have hlocals := (c.expect .lbrace).cursor.locals.length_le
  have hinside := h.leads (c.leads_expect .lbrace)
  rw [block]
  exact Block.stands_iff.2 ⟨hinside.locals, statements_stands _ (hinside.leads (locals_covers _))⟩
termination_by 3 * c.rest.length + 1
decreasing_by omega

theorem statements_stands (c : Cursor) (h : c.Sees P) : ∀ s ∈ c.statements.value, s.Stands P := by
  rw [statements]
  split
  · exact List.forall_mem_nil _
  next t ht =>
  have hshorter := t.shorter
  split
  · exact List.forall_mem_nil _
  have hlength := (t.cursor.statement t.value).length_le
  refine List.forall_mem_append.2 ⟨fun s hs => ?_, statements_stands _ (h.leads (statement_covers ht))⟩
  exact statement_stands h ht s (Option.mem_toList.1 hs)
termination_by 3 * c.rest.length
decreasing_by
  · omega
  · omega

theorem statement_stands {c : Cursor} (h : c.Sees P) {t : Step Token c} (ht : c.next? = some t) :
    StandsStmt P (t.cursor.statement t.value) := by
  have hcondLength := t.cursor.condition.length_le
  have hnext := h.leads (leads_next ht)
  have hbehind := hnext.leads (condition_covers _)
  have hyes := block_stands t.cursor.condition.cursor hbehind
  have hyesLength := t.cursor.condition.cursor.block.length_le
  have hguarded := Visit.stand_append.2 ⟨Visit.stand_items.2 hnext.condition, Visit.stand_scoped.2 hyes⟩
  rw [statement]
  split
  · next name hkind => exact h.nameStatement ht hkind
  · exact h.inputStatement ht _
  · exact h.outputStatement ht _
  · exact h.returnStatement ht _
  · dsimp only
    split
    · rintro _ ⟨⟩
      exact hguarded
    · next word hword =>
      have hshorter := word.shorter
      have hno := block_stands word.cursor ((hbehind.leads (block_covers _)).leads (leads_acceptKind hword))
      rintro _ ⟨⟩
      exact Visit.stand_append.2 ⟨Visit.stand_items.2 hnext.condition,
        Visit.stand_append.2 ⟨Visit.stand_scoped.2 hyes, Visit.stand_scoped.2 hno⟩⟩
  · rintro _ ⟨⟩
    exact hguarded
  · rintro _ ⟨⟩
    exact hguarded
  · rintro _ ⟨⟩
termination_by 3 * t.cursor.rest.length + 2
decreasing_by
  · omega
  · omega

end

/-! ## Declarations -/

theorem Sees.fieldDecls (h : c.Sees P) : ∀ b ∈ c.fieldDecls.value, b.Stands P := by
  fun_induction Cursor.fieldDecls c with
  | case1 | case2 => exact List.forall_mem_nil _
  | case3 c t ht hbrace first hfirst more ih =>
    exact List.forall_mem_cons.2 ⟨h.binding hfirst, ih (h.leads (binding?_covers hfirst))⟩
  | case4 c t ht hbrace hnone next ih =>
    exact ih ((h.leads (leads_next_noteAt ht .fieldExpected fun _ => True)).leads (leads_resumeInBlock _ t.value))

theorem Sees.structDecl (h : c.Sees P) (start : Span) : (c.structDecl start).value.Stands P := by
  have hfields := ((h.leads c.leads_ident).leads (leads_expect _ .lbrace)).fieldDecls
  exact Visit.stand_single.2 (Item.stands_struct.2 ⟨h.ident, hfields⟩)

theorem Sees.formalList (h : c.Sees P) : ∀ b ∈ c.formalList.value, b.Stands P := by
  fun_induction Cursor.formalList c with
  | case1 => exact List.forall_mem_nil _
  | case2 c first hfirst => exact List.forall_mem_singleton.2 (h.formal hfirst)
  | case3 c first hfirst comma hcomma more ih =>
    have hmore := ih ((h.leads (formal?_covers hfirst)).leads (leads_accept hcomma))
    exact List.forall_mem_cons.2 ⟨h.formal hfirst, hmore⟩

/-- A function has its identifiers where `P` says, if its result type and its name do. -/
theorem Sees.functionDecl (h : c.Sees P) {start : Span} {result : TypeRef} {name : Ident}
    (hresult : result.Stands P) (hname : P name.span) : (c.functionDecl start result name).value.Stands P := by
  have hformals : ∀ b ∈ (if c.isAt .rparen = true then c.stay [] else c.formalList).value, b.Stands P := by
    split
    · exact List.forall_mem_nil _
    · exact h.formalList
  have hbody := block_stands _ ((h.leads c.signature_covers).leads (leads_expect _ .rparen))
  have hhead {params : List TypeName} {type : TypeName} :
      Visit.Stand P ([.item (.result result)] ++ [.item (.function name params type)]) :=
    Visit.stand_append.2 ⟨Visit.stand_single.2 hresult, Visit.stand_single.2 (Item.stands_function.2 hname)⟩
  have hscope := Visit.stand_append.2 ⟨Visit.stand_bindings.2 hformals, hbody⟩
  exact Visit.stand_append.2 ⟨hhead, Visit.stand_scoped.2 hscope⟩

theorem Sees.afterType (h : c.Sees P) {start : Span} {type : TypeRef} (htype : type.Stands P) :
    (c.afterType start type).value.Stands P := by
  unfold Cursor.afterType
  dsimp only
  split
  · next paren hparen => exact ((h.leads c.leads_ident).leads (leads_accept hparen)).functionDecl htype h.ident
  · exact Visit.stand_single.2 (Binding.stands_iff.2 ⟨htype, h.ident⟩)

theorem Sees.decl (h : c.Sees P) {decl : Step Decl c} (hdecl : c.decl? = some decl) : decl.value.Stands P := by
  unfold decl? at hdecl
  split at hdecl
  · obtain ⟨word, hword, rfl⟩ := Option.map_eq_some_iff.1 hdecl
    exact (h.leads (leads_next hword)).structDecl _
  · obtain ⟨type, htype, rfl⟩ := Option.map_eq_some_iff.1 hdecl
    exact (h.leads (type?_covers htype)).afterType (h.type htype)

theorem Sees.decls (h : c.Sees P) : ∀ d ∈ c.decls.value, d.Stands P := by
  fun_induction Cursor.decls c with
  | case1 => exact List.forall_mem_nil _
  | case2 c t ht first hfirst more ih =>
    exact List.forall_mem_cons.2 ⟨h.decl hfirst, ih (h.leads (decl?_covers hfirst))⟩
  | case3 c t ht hnone next ih =>
    exact ih ((h.leads (leads_next_noteAt ht .declarationExpected fun _ => True)).leads
      (leads_resumeAtTop _ t.value))

end Cursor

/-! ## Programs -/

/-- Each identifier of a program that is read stands at one of its tokens. -/
theorem Reading.occurrence_at_token {tokens : List Token} (hend : ∃ t ∈ tokens, t.kind = .eof) :
    ∀ o ∈ (ofTokens tokens).program.occurrences, ∃ t ∈ tokens, o.ident.span = t.span := by
  have hsees : (atStart tokens).Sees fun span => ∃ t ∈ tokens, span = t.span := by
    intro ts d hgoes
    obtain ⟨-, hrest, -, hempty⟩ := inside_of_goes tokens (.inr hend) hgoes
    cases hnext : d.rest with
    | nil =>
      obtain ⟨t, ht, -⟩ := hend
      rw [hempty hnext] at ht
      cases ht
    | cons t rest =>
      refine ⟨t, ?_, ?_⟩
      · rw [hrest, hnext]
        exact List.mem_append_right _ List.mem_cons_self
      · rw [Cursor.here, hnext]
  intro o ho
  obtain ⟨v, hv, ho⟩ := List.mem_flatMap.1 ho
  obtain ⟨decl, hdecl, hv⟩ := List.mem_flatMap.1 hv
  cases v with
  | enter | leave => cases ho
  | item i => exact hsees.decls decl hdecl i hv o ho

end Namescope
