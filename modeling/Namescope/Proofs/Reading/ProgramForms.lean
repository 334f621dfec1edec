import Namescope.Proofs.Printing.Lexing
import Namescope.Proofs.Reading.Joined
import Namescope.Proofs.Reading.ProgramPlaces
import Namescope.Proofs.Reading.StatementForms
/-!
# Programs are well-formed, errors or not

Whatever a text is, the program that is read from it is well-formed. Only an assignment inside an expression can
have a target that is no location, and then that was reported.
-/
namespace Namescope

namespace Cursor

variable {excused : Prop} {c d : Cursor}

/-- On a path of which only its end matters nothing is made. -/
theorem Leads.makes {P : List Token → Prop} (h : c.Leads d P) : c.Makes Anything excused d True := by
  obtain ⟨ts, hgoes, -⟩ := h
  exact ⟨ts, hgoes, fun _ _ => trivial, fun _ _ => trivial⟩

theorem fieldDecls_makes (c : Cursor) :
    c.fieldDecls.Makes Anything excused fun bs => ∀ b ∈ bs, b.WellFormed := by
  fun_induction fieldDecls c with
  | case1 | case2 => exact .stay (List.forall_mem_nil _)
  | case3 c t ht hbrace first hfirst more ih =>
    refine ((binding?_makes hfirst).anything.andThen ih).imp ?_
    rintro ⟨hfirst, hmore⟩
    exact List.forall_mem_cons.2 ⟨hfirst, hmore⟩
  | case4 c t ht hbrace hnone next ih =>
    exact ((makes_next_noteAt (K := Anything) ht trivial .fieldExpected).andThen
      ((leads_resumeInBlock _ t.value).makes.andThen ih)).imp fun h => h.2.2

theorem structDecl_makes (c : Cursor) (start : Span) :
    (c.structDecl start).Makes Anything excused (Decl.WellFormed excused) := by
  refine ((ident_makes (fun _ => trivial) c).andThen ((leads_expect _ .lbrace).makes.andThen
    ((fieldDecls_makes _).andThen ((leads_expect _ .rbrace).makes.andThen
      (leads_expect _ .semicolon).makes)))).imp ?_
  rintro ⟨hname, -, hfields, -⟩
  exact ⟨hname, hfields⟩

theorem formalList_makes (c : Cursor) :
    c.formalList.Makes Anything excused fun bs => ∀ b ∈ bs, b.WellFormed := by
  fun_induction formalList c with
  | case1 c h => exact c.makes_note _ (List.forall_mem_nil _)
  | case2 c first hfirst hcomma =>
    exact (formal?_makes hfirst).anything.imp fun h => List.forall_mem_singleton.2 h
  | case3 c first hfirst comma hcomma more ih =>
    refine ((formal?_makes hfirst).anything.andThen ((leads_accept hcomma).makes.andThen ih)).imp ?_
    rintro ⟨hfirst, -, hmore⟩
    exact List.forall_mem_cons.2 ⟨hfirst, hmore⟩

theorem functionDecl_makes (c : Cursor) (start : Span) (result : TypeRef) (name : Ident) :
    (c.functionDecl start result name).Makes Anything excused fun d =>
      result.WellFormed → name.WellFormed → d.WellFormed excused := by
  have hformals : (if c.isAt .rparen = true then c.stay [] else c.formalList).Makes Anything excused
      fun bs => ∀ b ∈ bs, b.WellFormed := by
    split
    · exact .stay (List.forall_mem_nil _)
    · exact c.formalList_makes
  refine (hformals.andThen ((leads_expect _ .rparen).makes.andThen (block_makes _))).imp ?_
  rintro ⟨hformals, -, hbody⟩ hresult hname
  exact ⟨hresult, hname, hformals, hbody⟩

theorem afterType_makes (c : Cursor) (start : Span) (type : TypeRef) :
    (c.afterType start type).Makes Anything excused fun d => type.WellFormed → d.WellFormed excused := by
  have hname : c.ident.Makes Anything excused Ident.WellFormed := ident_makes (fun _ => trivial) c
  unfold afterType
  dsimp only
  split
  · next paren hparen =>
    refine (hname.andThen ((leads_accept hparen).makes.andThen
      (functionDecl_makes paren.cursor start type c.ident.value))).imp ?_
    rintro ⟨hname, -, hdecl⟩ htype
    exact hdecl htype hname
  · refine (hname.andThen (leads_expect _ .semicolon).makes).imp ?_
    rintro ⟨hname, -⟩ htype
    exact ⟨htype, hname⟩

theorem decl?_makes {decl : Step Decl c} (h : c.decl? = some decl) :
    decl.Makes Anything excused (Decl.WellFormed excused) := by
  unfold decl? at h
  split at h
  · obtain ⟨word, hword, rfl⟩ := Option.map_eq_some_iff.1 h
    exact ((leads_next hword).makes.andThen (structDecl_makes word.cursor word.value.span)).imp And.right
  · obtain ⟨type, htype, rfl⟩ := Option.map_eq_some_iff.1 h
    refine ((type?_makes htype).anything.andThen (afterType_makes type.cursor c.here type.value)).imp ?_
    rintro ⟨htype, hdecl⟩
    exact hdecl htype

theorem decls_makes (c : Cursor) : c.decls.Makes Anything excused fun ds => ∀ d ∈ ds, d.WellFormed excused := by
  fun_induction decls c with
  | case1 => exact .stay (List.forall_mem_nil _)
  | case2 c t ht first hfirst more ih =>
    refine ((decl?_makes hfirst).andThen ih).imp ?_
    rintro ⟨hfirst, hmore⟩
    exact List.forall_mem_cons.2 ⟨hfirst, hmore⟩
  | case3 c t ht hnone next ih =>
    exact ((leads_next_noteAt ht .declarationExpected fun _ => True).makes.andThen
      ((leads_resumeAtTop _ t.value).makes.andThen ih)).imp fun h => h.2.2

end Cursor

/-- A program that is read from tokens that can be written is well-formed. What every noted target excuses is
excused. -/
theorem Reading.wellFormed {tokens : List Token} {excused : Prop} (h : ∀ k ∈ Token.kinds tokens, Writable k)
    (hexcused : ∀ f ∈ (ofTokens tokens).findings, f.issue = .targetExpected → excused) :
    (ofTokens tokens).program.WellFormed excused := by
  obtain ⟨ts, hgoes, -, hmakes⟩ := Cursor.decls_makes ⟨tokens, none, []⟩
  have hend : TokenKind.eof ∉ ts.map Token.kind := by
    intro hend
    obtain ⟨t, ht, hkind⟩ := List.mem_map.1 hend
    exact hgoes.live t ht hkind
  have hrest : tokens = ts ++ _ := hgoes.rest
  refine hmakes (fun t ht => h t.kind ?_) fun f hf => hexcused f (List.mem_reverse.2 hf)
  rw [hrest, Token.kinds_append hend]
  exact List.mem_append_left _ (List.mem_map_of_mem ht)

/-- The program of a text is well-formed. What a report of a target that is no location excuses is excused. -/
theorem Parsed.wellFormed (source : String) : (parse source).program.WellFormed
    (∃ d ∈ (parse source).report, d.message = SyntaxIssue.message .targetExpected) := by
  refine Reading.wellFormed (fun k hk => scan_writable hk) fun f hf hissue => ?_
  exact ⟨f.toError SyntaxIssue.message, List.mem_append_right _ (List.mem_map_of_mem hf),
    congrArg SyntaxIssue.message hissue⟩

/-- Whatever a text is, the program read from it is well-formed, but for targets inside expressions where one was
reported. -/
theorem parse_wellFormed (source : String) : (parse source).program.WellFormed
    (∃ d ∈ (parse source).report, d.message = "left side of assignment must be a location") :=
  Parsed.wellFormed source

end Namescope
