import Namescope.Proofs.Reading.Program
import Namescope.Proofs.Reading.StatementPlaces
/-!
# Programs are read at their places

Reading declarations is a path of the cursor up to the end. If nothing is noted on it, the declarations that are
read lie over the tokens taken.
-/
namespace Namescope

namespace Cursor

variable {c d : Cursor}

theorem leads_skipPastTerminator (c : Cursor) : c.Leads c.skipPastTerminator.cursor fun _ => True := by
  fun_induction skipPastTerminator c with
  | case1 => exact .stay trivial
  | case2 c t ht => exact (leads_next ht).imp fun _ _ _ _ => trivial
  | case3 c t ht _ ih => exact ((leads_next ht).andThen ih).imp fun _ _ _ _ => trivial

theorem leads_resumeAtTop (c : Cursor) (t : Token) : c.Leads (c.resumeAtTop t).cursor fun _ => True := by
  unfold resumeAtTop
  split
  · exact .stay trivial
  · exact c.leads_skipPastTerminator

theorem fieldDecls_covers (c : Cursor) : c.fieldDecls.Covers (AllOver Binding.VariableOver) := by
  fun_induction fieldDecls c with
  | case1 | case2 => exact .stay .nil
  | case3 c t ht hbrace first hfirst more ih =>
    refine ((binding?_covers hfirst).andThen ih).imp ?_
    rintro _ - - ⟨ts, us, rfl, hts, hus⟩
    exact .cons hts hus
  | case4 c t ht hbrace hnone next ih =>
    -- the failure stands at the first token that is skipped, so it could have been noted in front of it
    exact (leads_next_noteAt ht .fieldExpected _).notesThen ((leads_resumeInBlock _ t.value).andThen ih)

theorem structDecl_leads {t : Step Token c} (ht : c.next? = some t) (hkind : t.value.kind = .keyword .struct) :
    c.Leads (t.cursor.structDecl t.value.span).cursor (Decl.LiesOver · (t.cursor.structDecl t.value.span).value) := by
  refine ((leads_next_of_kind ht hkind).andThen ((leads_ident _).andThen ((leads_expect _ .lbrace).andThen
    ((fieldDecls_covers _).andThen ((leads_expect _ .rbrace).andThen (leads_expect _ .semicolon)))))).imp ?_
  rintro _ hgoes hall ⟨_, _, rfl, rfl, _, _, rfl, rfl, _, _, rfl, rfl, ts, _, rfl, hts, _, _, rfl, rfl, rfl⟩
  have hspan := hgoes.merge_lastSpan hall (by simp) (here_of_next ht)
  show Decl.LiesOver _ (.struct ⟨_, _, Span.merge _ _⟩)
  exact hspan ▸ .struct _ _ _ _ _ rfl hts

theorem formalList_covers (c : Cursor) : c.formalList.Covers Binding.FormalsOver := by
  fun_induction formalList c with
  | case1 c h => exact c.leads_note ..
  | case2 c first hfirst hcomma => exact (formal?_covers hfirst).imp fun _ _ _ h => .last h
  | case3 c first hfirst comma hcomma more ih =>
    refine ((formal?_covers hfirst).andThen ((leads_accept hcomma).andThen ih)).imp ?_
    rintro _ - - ⟨ts, _, rfl, hts, _, us, rfl, rfl, hus⟩
    exact .cons _ hts hus

theorem signature_covers (c : Cursor) :
    (if c.isAt .rparen = true then c.stay [] else c.formalList).Covers Binding.SignatureOver := by
  split
  · exact .stay .none
  · exact c.formalList_covers.imp fun _ _ _ h => .some h

/-- A function or a variable goes from its type on. -/
theorem Leads.afterType {type : TypeRef} (h : c.Leads d (TypeRef.LiesOver · type)) :
    c.Leads (d.afterType c.here type).cursor (Decl.LiesOver · (d.afterType c.here type).value) := by
  unfold Cursor.afterType
  dsimp only
  split
  · next paren hparen =>
    refine (h.andThen ((leads_ident _).andThen ((leads_accept hparen).andThen ((signature_covers _).andThen
      ((leads_expect _ .rparen).andThen (block_covers _)))))).imp ?_
    rintro _ hgoes hall ⟨ts, _, rfl, hts, _, _, rfl, rfl, _, _, rfl, rfl, us, _, rfl, hus, _, vs, rfl, rfl, hvs⟩
    have hspan := hgoes.merge_lastSpan hall (by simp) rfl
    show Decl.LiesOver _ (.function ⟨_, _, _, _, Span.merge _ _⟩)
    exact hspan ▸ .function _ _ _ rfl hts hus hvs
  · refine (h.andThen ((leads_ident _).andThen (leads_expect _ .semicolon))).imp ?_
    rintro _ hgoes hall ⟨ts, _, rfl, hts, _, _, rfl, rfl, rfl⟩
    have hspan := hgoes.merge_lastSpan hall (by simp) rfl
    show Decl.LiesOver _ (.variable ⟨_, _, Span.merge _ _⟩)
    exact .variable (hspan ▸ .mk _ _ rfl hts)

theorem decl?_covers {decl : Step Decl c} (h : c.decl? = some decl) : decl.Covers Decl.LiesOver := by
  unfold decl? at h
  split at h
  · next hstruct =>
    obtain ⟨word, hword, rfl⟩ := Option.map_eq_some_iff.1 h
    obtain ⟨name, more, hkinds⟩ := c.startsStruct_iff.1 hstruct
    obtain ⟨t, ht, hexact⟩ := next?_exact hkinds
    cases ht.symm.trans hword
    exact structDecl_leads hword hexact.value
  · obtain ⟨type, htype, rfl⟩ := Option.map_eq_some_iff.1 h
    exact Leads.afterType (type?_covers htype)

theorem decls_covers (c : Cursor) : c.decls.Covers (AllOver Decl.LiesOver) := by
  fun_induction decls c with
  | case1 => exact .stay .nil
  | case2 c t ht first hfirst more ih =>
    refine ((decl?_covers hfirst).andThen ih).imp ?_
    rintro _ - - ⟨ts, us, rfl, hts, hus⟩
    exact .cons hts hus
  | case3 c t ht hnone next ih =>
    exact (leads_next_noteAt ht .declarationExpected _).notesThen ((leads_resumeAtTop _ t.value).andThen ih)

end Cursor

end Namescope
