import Namescope.Proofs.Reading.Statement
/-!
# Programs are read by the grammar

A token list is read without a finding exactly if its kinds up to the end derive a program, and that is the
program that is read.
-/
namespace Namescope

namespace Cursor

/-! ## What is read as a declaration -/

theorem findings_skipPastTerminator (c : Cursor) : c.skipPastTerminator.cursor.findings = c.findings := by
  fun_induction skipPastTerminator c with
  | case1 => rfl
  | case2 c t h => exact findings_next h
  | case3 c t h _ ih => exact ih.trans (findings_next h)

theorem findings_resumeAtTop (c : Cursor) (t : Token) : (c.resumeAtTop t).cursor.findings = c.findings := by
  unfold resumeAtTop
  split
  · rfl
  · exact c.findings_skipPastTerminator

/-- A struct is defined here if its name and a brace follow. -/
theorem startsStruct_iff (c : Cursor) : c.startsStruct = true ↔
    ∃ name more, c.kinds = .keyword .struct :: .ident name :: .mark .lbrace :: more := by
  constructor
  · intro h
    unfold startsStruct at h
    split at h
    · next _ name _ _ more hrest => exact ⟨name, Token.kinds more, by rw [kinds, hrest]; rfl⟩
    · cases h
  · rintro ⟨name, more, hkinds⟩
    obtain ⟨⟨_, _⟩, _, hrest, rfl, hname⟩ := Token.exists_of_kinds hkinds
    obtain ⟨⟨_, _⟩, _, rfl, rfl, hbrace⟩ := Token.exists_of_kinds hname
    obtain ⟨⟨_, _⟩, _, rfl, rfl, -⟩ := Token.exists_of_kinds hbrace
    rw [startsStruct, hrest]

theorem fieldDecls_takes (c : Cursor) : c.fieldDecls.Takes fun ks bs =>
    DerivesAll DerivesVariable ks (bs.map (Binding.relabel .unplaced)) := by
  fun_induction fieldDecls c with
  | case1 | case2 => exact .stay .nil
  | case3 c t ht hbrace first hfirst more ih =>
    refine ((binding?_takes hfirst).andThen ih).imp ?_
    rintro _ ⟨ks, ls, rfl, hks, hls⟩
    exact .cons hks hls
  | case4 c t ht hbrace hnone next ih =>
    refine .ofNoted ?_ ih
    show _ < ((t.cursor.noteAt ..).resumeInBlock t.value).cursor.findings.length
    rw [findings_resumeInBlock, ← findings_next ht]
    exact t.cursor.length_findings_lt_noteAt ..

theorem structDecl_takes (start : Span) (c : Cursor) : (c.structDecl start).Takes fun ks d =>
    DerivesDecl (.keyword .struct :: ks) (d.relabel .unplaced) := by
  refine (c.moves_ident.andThen ((moves_expect _ .lbrace).andThen ((fieldDecls_takes _).andThen
    ((moves_expect _ .rbrace).andThen (moves_expect _ .semicolon))))).imp ?_
  rintro _ ⟨_, _, rfl, ⟨name, rfl, hname⟩, _, _, rfl, rfl, ks, _, rfl, hks, _, _, rfl, rfl, rfl⟩
  show DerivesDecl _ (.struct ⟨Ident.relabel .unplaced _, _, {}⟩)
  rw [hname]
  exact .struct name hks

theorem formalList_takes (c : Cursor) : c.formalList.Takes fun ks bs =>
    DerivesFormals ks (bs.map (Binding.relabel .unplaced)) := by
  fun_induction formalList c with
  | case1 c h => exact c.moves_noteAt ..
  | case2 c first hfirst hcomma => exact (formal?_takes hfirst).imp fun ks h => .last h
  | case3 c first hfirst comma hcomma more ih =>
    refine ((formal?_takes hfirst).andThen ((moves_accept hcomma).andThen ih)).imp ?_
    rintro _ ⟨ks, _, rfl, hks, _, ls, rfl, rfl, hls⟩
    exact .cons hks hls

theorem functionDecl_takes (start : Span) (result : TypeRef) (ident : Ident) (c : Cursor) :
    (c.functionDecl start result ident).Takes fun ks d => ∀ before name,
      DerivesType before (result.relabel .unplaced) → ident.relabel .unplaced = .unplaced name →
        DerivesDecl (before ++ .ident name :: .mark .lparen :: ks) (d.relabel .unplaced) := by
  have hformals : (if c.isAt .rparen = true then c.stay [] else c.formalList).Takes
      fun ks bs => DerivesSignature ks (bs.map (Binding.relabel .unplaced)) := by
    split
    · exact .stay .none
    · exact c.formalList_takes.imp fun ks h => .some h
  refine (hformals.andThen ((moves_expect ..).andThen (block_takes _))).imp ?_
  rintro _ ⟨ks, _, rfl, hks, _, ls, rfl, rfl, hls⟩ before name hbefore hname
  have hdecl := DerivesDecl.function name hbefore hks hls
  rw [List.append_assoc, ← hname] at hdecl
  exact hdecl

theorem afterType_takes (start : Span) (type : TypeRef) (c : Cursor) : (c.afterType start type).Takes fun ks d =>
    ∀ before, DerivesType before (type.relabel .unplaced) → DerivesDecl (before ++ ks) (d.relabel .unplaced) := by
  unfold afterType
  dsimp only
  split
  · next paren hparen =>
    refine (c.moves_ident.andThen ((moves_accept hparen).andThen
      (functionDecl_takes start type c.ident.value _))).imp ?_
    rintro _ ⟨_, _, rfl, ⟨name, rfl, hname⟩, _, ks, rfl, rfl, hks⟩ before hbefore
    exact hks before name hbefore hname
  · refine (c.moves_ident.andThen (moves_expect ..)).imp ?_
    rintro _ ⟨_, _, rfl, ⟨name, rfl, hname⟩, rfl⟩ before hbefore
    have hdecl := DerivesVariable.mk (.mk name hbefore)
    rw [List.append_assoc, ← hname] at hdecl
    exact .variable hdecl

theorem decl?_takes {c : Cursor} {decl : Step Decl c} (h : c.decl? = some decl) :
    decl.Takes fun ks d => DerivesDecl ks (d.relabel .unplaced) := by
  unfold decl? at h
  split at h
  · next hstruct =>
    obtain ⟨word, hword, rfl⟩ := Option.map_eq_some_iff.1 h
    have hkind : word.value.kind = .keyword .struct := by
      obtain ⟨name, more, hkinds⟩ := c.startsStruct_iff.1 hstruct
      rcases c.next?_cases with ⟨hnone, -⟩ | ⟨t, ht, hkinds', -⟩
      · rw [hnone] at hword
        cases hword
      · cases ht.symm.trans hword
        exact (List.cons.inj (hkinds'.symm.trans hkinds)).1
    refine ((moves_next hword).andThen (structDecl_takes word.value.span _)).imp ?_
    rintro _ ⟨_, ks, rfl, rfl, hks⟩
    rw [hkind]
    exact hks
  · obtain ⟨type, htype, rfl⟩ := Option.map_eq_some_iff.1 h
    refine ((type?_takes htype).andThen (afterType_takes ..)).imp ?_
    rintro _ ⟨ks, ls, rfl, hks, hls⟩
    exact hls ks hks

theorem decls_takes (c : Cursor) : c.decls.Takes fun ks ds =>
    DerivesAll DerivesDecl ks (ds.map (Decl.relabel .unplaced)) := by
  fun_induction decls c with
  | case1 => exact .stay .nil
  | case2 c t ht first hfirst more ih =>
    refine ((decl?_takes hfirst).andThen ih).imp ?_
    rintro _ ⟨ks, ls, rfl, hks, hls⟩
    exact .cons hks hls
  | case3 c t ht hnone next ih =>
    refine .ofNoted ?_ ih
    show _ < ((t.cursor.noteAt ..).resumeAtTop t.value).cursor.findings.length
    rw [findings_resumeAtTop, ← findings_next ht]
    exact t.cursor.length_findings_lt_noteAt ..

/-! ## What is derived is read as a declaration -/

variable {c : Cursor} {more : List TokenKind}

theorem type_starts {ks : List TokenKind} {type : TypeRef} (h : DerivesType ks type) :
    ∃ k ls, ks = k :: ls ∧ k.startsType = true := by
  cases h <;> exact ⟨_, _, rfl, rfl⟩

theorem formal_starts {ks : List TokenKind} {formal : Binding} (h : DerivesFormal ks formal) :
    ∃ k ls, ks = k :: ls ∧ k.startsType = true := by
  obtain ⟨name, htype⟩ := h
  obtain ⟨k, ls, rfl, hk⟩ := type_starts htype
  exact ⟨k, _, rfl, hk⟩

theorem variable_starts {ks : List TokenKind} {binding : Binding} (h : DerivesVariable ks binding) :
    ∃ k ls, ks = k :: ls ∧ k.startsType = true := by
  obtain ⟨hformal⟩ := h
  obtain ⟨k, ls, rfl, hk⟩ := formal_starts hformal
  exact ⟨k, _, rfl, hk⟩

theorem formals_start {ks : List TokenKind} {formals : List Binding} (h : DerivesFormals ks formals) :
    ∃ k ls, ks = k :: ls ∧ k.startsType = true := by
  cases h with
  | last h => exact formal_starts h
  | cons h =>
    obtain ⟨k, ls, rfl, hk⟩ := formal_starts h
    exact ⟨k, _, rfl, hk⟩

theorem fieldDecls_exact {ks : List TokenKind} {fields : List Binding} (h : DerivesAll DerivesVariable ks fields)
    (hkinds : c.kinds = ks ++ .mark .rbrace :: more) :
    c.fieldDecls.Exact (.mark .rbrace :: more) (·.map (Binding.relabel .unplaced) = fields) := by
  induction h generalizing c with
  | nil =>
    obtain ⟨t, ht, htExact⟩ := next?_exact hkinds
    rw [fieldDecls, ht]
    simp only [htExact.value, if_pos]
    exact exact_stay hkinds rfl
  | cons hfirst _ ih =>
    rw [List.append_assoc] at hkinds
    obtain ⟨b, hb, hbExact⟩ := binding?_exact hfirst hkinds
    obtain ⟨k, ls, rfl, hk⟩ := variable_starts hfirst
    obtain ⟨t, ht, htExact⟩ := next?_exact hkinds
    have hbrace : t.value.kind ≠ .mark .rbrace := by
      rw [htExact.value]
      rintro rfl
      cases hk
    have hrest := ih hbExact.kinds
    rw [fieldDecls, ht]
    simp only [if_neg hbrace, hb]
    refine ⟨hrest.kinds, hrest.quiet.trans hbExact.quiet, ?_⟩
    show b.value.relabel .unplaced :: List.map _ _ = _
    rw [hbExact.value, hrest.value]

theorem structDecl_exact {ks : List TokenKind} {fields : List Binding} {name : String}
    (h : DerivesAll DerivesVariable ks fields)
    (hkinds : c.kinds = .ident name :: .mark .lbrace :: (ks ++ .mark .rbrace :: .mark .semicolon :: more))
    (start : Span) :
    (c.structDecl start).Exact more (·.relabel .unplaced = .struct ⟨.unplaced name, fields, {}⟩) := by
  have hname := ident_exact hkinds
  have hopening := expect_exact hname.kinds
  have hfields := fieldDecls_exact h hopening.kinds
  have hclose := expect_exact hfields.kinds
  have hstop := expect_exact hclose.kinds
  refine ⟨hstop.kinds, ?_, ?_⟩
  · exact hstop.quiet.trans (hclose.quiet.trans (hfields.quiet.trans (hopening.quiet.trans hname.quiet)))
  · show Decl.struct ⟨c.ident.value.relabel .unplaced, List.map _ _, {}⟩ = _
    rw [hname.value, hfields.value]

theorem formalList_exact {ks : List TokenKind} {formals : List Binding} (h : DerivesFormals ks formals)
    (hkinds : c.kinds = ks ++ .mark .rparen :: more) :
    c.formalList.Exact (.mark .rparen :: more) (·.map (Binding.relabel .unplaced) = formals) := by
  induction h generalizing c with
  | last hlast =>
    obtain ⟨f, hf, hfExact⟩ := formal?_exact hlast hkinds
    have hcomma := accept_eq_none hfExact.kinds (show Mark.rparen ≠ .comma from nofun)
    rw [formalList, hf]
    simp only [hcomma]
    exact ⟨hfExact.kinds, hfExact.quiet, congrArg ([·]) hfExact.value⟩
  | cons hfirst _ ih =>
    rw [List.append_assoc] at hkinds
    obtain ⟨f, hf, hfExact⟩ := formal?_exact hfirst hkinds
    obtain ⟨comma, hcomma, hcommaExact⟩ := accept_exact hfExact.kinds
    have hrest := ih hcommaExact.kinds
    rw [formalList, hf]
    simp only [hcomma]
    refine ⟨hrest.kinds, hrest.quiet.trans (hcommaExact.quiet.trans hfExact.quiet), ?_⟩
    show f.value.relabel .unplaced :: List.map _ _ = _
    rw [hfExact.value, hrest.value]

theorem functionDecl_exact {ks ls : List TokenKind} {formals : List Binding} {body : Block}
    (hformals : DerivesSignature ks formals) (hbody : DerivesBlock ls body)
    (hkinds : c.kinds = ks ++ .mark .rparen :: (ls ++ more)) (start : Span) (result : TypeRef) (name : Ident) :
    (c.functionDecl start result name).Exact more (·.relabel .unplaced =
      .function ⟨result.relabel .unplaced, name.relabel .unplaced, formals, body, {}⟩) := by
  have hlist : (if c.isAt .rparen = true then c.stay [] else c.formalList).Exact (.mark .rparen :: (ls ++ more))
      (·.map (Binding.relabel .unplaced) = formals) := by
    cases hformals with
    | none =>
      rw [if_pos ((c.isAt_iff _).2 (by rw [hkinds]; rfl))]
      exact exact_stay hkinds rfl
    | some h =>
      have hhead : c.kinds.head? ≠ some (.mark .rparen) := by
        obtain ⟨k, ls, rfl, hk⟩ := formals_start h
        rw [hkinds]
        rintro ⟨⟩
        cases hk
      rw [if_neg fun hat => hhead ((c.isAt_iff _).1 hat)]
      exact formalList_exact h hkinds
  have hclose := expect_exact hlist.kinds
  have hblock := block_exact hbody hclose.kinds
  refine ⟨hblock.kinds, hblock.quiet.trans (hclose.quiet.trans hlist.quiet), ?_⟩
  show Decl.function ⟨_, _, List.map _ _, Block.relabel _ _, {}⟩ = _
  rw [hlist.value, hblock.value]

/-- A type with a name behind it does not begin a struct definition. -/
theorem startsStruct_of_type {ks : List TokenKind} {type : TypeRef} {name : String} (h : DerivesType ks type)
    (hkinds : c.kinds = ks ++ .ident name :: more) : ¬ c.startsStruct = true := by
  rw [startsStruct_iff, hkinds]
  rintro ⟨_, _, hstruct⟩
  cases h <;> cases hstruct

/-- A declaration that begins with a type. -/
theorem decl?_of_type {ks : List TokenKind} {type : TypeRef} {name : String} {d : Decl} (h : DerivesType ks type)
    {rest : List TokenKind} (hkinds : c.kinds = ks ++ .ident name :: rest)
    (hafter : ∀ {t : Step TypeRef c}, t.value.relabel .unplaced = type → t.cursor.kinds = .ident name :: rest →
      (t.cursor.afterType c.here t.value).Exact more (·.relabel .unplaced = d)) :
    ∃ s, c.decl? = some s ∧ s.Exact more (·.relabel .unplaced = d) := by
  obtain ⟨t, ht, htExact⟩ := type?_exact h hkinds
  have hdecl := hafter htExact.value htExact.kinds
  rw [decl?, if_neg (startsStruct_of_type h hkinds), ht]
  exact ⟨_, rfl, hdecl.kinds, hdecl.quiet.trans htExact.quiet, hdecl.value⟩

theorem decl?_exact {ks : List TokenKind} {d : Decl} (h : DerivesDecl ks d) (hkinds : c.kinds = ks ++ more) :
    ∃ s, c.decl? = some s ∧ s.Exact more (·.relabel .unplaced = d) := by
  rcases h with ⟨⟨⟨name, htype⟩⟩⟩ | ⟨name, htype, hformals, hbody⟩ | ⟨name, hfields⟩
  · rw [List.append_assoc, List.append_assoc] at hkinds
    refine decl?_of_type htype hkinds fun {t} hvalue ht => ?_
    have hname := ident_exact ht
    have hparen := accept_eq_none hname.kinds (show Mark.semicolon ≠ .lparen from nofun)
    have hclose := expect_exact hname.kinds
    unfold afterType
    simp only [hparen]
    refine ⟨hclose.kinds, hclose.quiet.trans hname.quiet, ?_⟩
    show Decl.variable ⟨t.value.relabel .unplaced, t.cursor.ident.value.relabel .unplaced, {}⟩ = _
    rw [hvalue, hname.value]
  · rw [List.append_assoc, List.append_assoc] at hkinds
    refine decl?_of_type htype hkinds fun {t} hvalue ht => ?_
    have hname := ident_exact ht
    obtain ⟨paren, hparen, hparenExact⟩ := accept_exact hname.kinds
    have hfunction := functionDecl_exact hformals hbody hparenExact.kinds c.here t.value t.cursor.ident.value
    unfold afterType
    simp only [hparen]
    refine ⟨hfunction.kinds, hfunction.quiet.trans (hparenExact.quiet.trans hname.quiet), ?_⟩
    rw [← hvalue, ← hname.value]
    exact hfunction.value
  · rw [List.append_assoc] at hkinds
    obtain ⟨t, ht, htExact⟩ := next?_exact hkinds
    have hstruct := structDecl_exact hfields htExact.kinds t.value.span
    rw [decl?, if_pos (c.startsStruct_iff.2 ⟨_, _, hkinds⟩), ht]
    exact ⟨_, rfl, hstruct.kinds, hstruct.quiet.trans htExact.quiet, hstruct.value⟩

theorem decl_ne_nil {ks : List TokenKind} {d : Decl} (h : DerivesDecl ks d) : ∃ k ls, ks = k :: ls := by
  rcases h with ⟨h⟩ | ⟨name, h, -, -⟩ | -
  · obtain ⟨k, ls, rfl, -⟩ := variable_starts h
    exact ⟨k, ls, rfl⟩
  · obtain ⟨k, ls, rfl, -⟩ := type_starts h
    exact ⟨k, _, rfl⟩
  · exact ⟨_, _, rfl⟩

theorem decls_exact {ks : List TokenKind} {decls : List Decl} (h : DerivesAll DerivesDecl ks decls)
    (hkinds : c.kinds = ks) : c.decls.Exact [] (·.map (Decl.relabel .unplaced) = decls) := by
  induction h generalizing c with
  | nil =>
    rw [Cursor.decls, next?_eq_none hkinds]
    exact exact_stay hkinds rfl
  | cons hfirst _ ih =>
    obtain ⟨s, hs, hsExact⟩ := decl?_exact hfirst hkinds
    obtain ⟨k, ls, rfl⟩ := decl_ne_nil hfirst
    obtain ⟨t, ht, -⟩ := next?_exact hkinds
    have hrest := ih hsExact.kinds
    rw [Cursor.decls, ht]
    simp only [hs]
    refine ⟨hrest.kinds, hrest.quiet.trans hsExact.quiet, ?_⟩
    show s.value.relabel .unplaced :: List.map _ _ = _
    rw [hsExact.value, hrest.value]

/-- Declarations are read up to the end. -/
theorem kinds_decls (c : Cursor) : c.decls.cursor.kinds = [] := by
  fun_induction Cursor.decls c with
  | case1 c h =>
    rcases c.next?_cases with ⟨-, hkinds⟩ | ⟨t, ht, -⟩
    · exact hkinds
    · rw [h] at ht
      cases ht
  | case2 c t ht first hfirst more ih => exact ih
  | case3 c t ht hnone next ih => exact ih

end Cursor

/-! ## The grammar of a token list -/

/-- A token list is read silently as a program, spans apart, exactly if its kinds up to the end derive that
program. -/
theorem reads_iff_derives (tokens : List Token) (p : Program) :
    ((Reading.ofTokens tokens).findings = [] ∧ (Reading.ofTokens tokens).program.relabel .unplaced = p) ↔
      DerivesProgram (Token.kinds tokens) p := by
  constructor
  · rintro ⟨hquiet, rfl⟩
    rcases Cursor.decls_takes ⟨tokens, none, []⟩ with hnoted | ⟨-, ks, hkinds, hks⟩
    · rw [Reading.ofTokens, List.reverse_eq_nil_iff] at hquiet
      rw [hquiet] at hnoted
      cases hnoted
    · rw [Cursor.kinds_decls, List.append_nil] at hkinds
      have hkinds : Token.kinds tokens = ks := hkinds
      rw [hkinds]
      exact hks
  · intro h
    have hexact := Cursor.decls_exact (c := ⟨tokens, none, []⟩) h rfl
    refine ⟨?_, ?_⟩
    · rw [Reading.ofTokens, hexact.quiet]
      rfl
    · rw [Reading.ofTokens, Program.relabel, hexact.value]

/-- Reading a token list reports nothing exactly if the kinds up to the end derive a program. The tree that is
read is then the one of the derivation, so there is one derivable tree at most. -/
theorem reading_accepts (tokens : List Token) :
    ((Reading.ofTokens tokens).report = [] ↔ ∃ p, DerivesProgram (Token.kinds tokens) p) ∧
      ∀ p, DerivesProgram (Token.kinds tokens) p → (Reading.ofTokens tokens).program.relabel .unplaced = p := by
  refine ⟨?_, fun p hp => ((reads_iff_derives tokens p).2 hp).2⟩
  rw [Reading.report, List.map_eq_nil_iff]
  constructor
  · exact fun hquiet => ⟨_, (reads_iff_derives tokens _).1 ⟨hquiet, rfl⟩⟩
  · exact fun ⟨p, hp⟩ => ((reads_iff_derives tokens p).2 hp).1

end Namescope
