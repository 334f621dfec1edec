import Namescope.Proofs.Reading.TwinBlocks
import Namescope.Proofs.Reading.Program
/-!
# Declarations side by side

Twin cursors read the same declarations. The next declaration does not depend on the token before it, and
one that is read silently does not depend on the tokens behind it.
-/
namespace Namescope.Seam

variable {s : Seam} {c c' : Cursor}

/-! ## Parts of declarations -/

theorem Settled.functionDecl_clear {start : Span} {result : TypeRef} {name : Ident}
    (h : s.Settled (c.functionDecl start result name)) :
    s.Settled ((if c.isAt .rparen then c.stay [] else c.formalList).cursor.expect .rparen).cursor.block := by
  refine h.last rfl (Nat.le_trans ?_ (Cursor.moves_expect ..).length_le)
  split
  · exact Nat.le_refl _
  · exact (Cursor.formalList_takes c).length_le

theorem Settled.afterType_clear {start : Span} {type : TypeRef} (h : s.Settled (c.afterType start type)) :
    s.Clear c.ident.cursor := by
  unfold Cursor.afterType at h
  dsimp only at h
  split at h
  · next paren hparen =>
    have hquiet := c.moves_ident.length_le.trans (Cursor.moves_accept hparen).length_le
    have hfunction : s.Settled (paren.cursor.functionDecl start type c.ident.value) := h.last rfl hquiet
    have hopening := hfunction.functionDecl_clear.block_clear.before.before.before
    exact Clear.before (r := paren.toRead) (Clear.before hopening.before)
  · exact h.of_expect rfl c.moves_ident.length_le

namespace Twin

theorem fieldDecls {c c' : Cursor} (h : s.Twin c c') (hc : s.Clear c.fieldDecls.cursor) :
    s.Agree (List.map (Binding.relabel s.label)) c.fieldDecls c'.fieldDecls := by
  have hcClear : s.Clear c := hc.before
  rw [Cursor.fieldDecls] at hc
  rw [Cursor.fieldDecls, Cursor.fieldDecls]
  split at hc
  · next ht =>
    simp only [h.next?_eq_none hc ht]
    exact ⟨rfl, h⟩
  next t ht =>
  have hshorter := t.shorter
  obtain ⟨t', ht', hagree⟩ := h.next?_eq_some hcClear ht
  simp only [ht', hagree.kind]
  split at hc
  · next hbrace =>
    simp only [if_pos hbrace]
    exact ⟨rfl, h⟩
  next hbrace =>
  simp only [if_neg hbrace]
  split at hc
  · next first hfirst =>
    have hfirstShorter := first.shorter
    have hfirstClear : s.Clear first.cursor := Clear.before (r := first.cursor.fieldDecls) hc
    obtain ⟨first', hfirst', hfirstAgree⟩ := h.binding?_eq_some hfirstClear hfirst
    have hmore := hfirstAgree.cursor.fieldDecls hc
    simp only [hfirst']
    refine ⟨?_, hmore.cursor⟩
    show _ :: _ = Binding.relabel _ _ :: List.map _ _
    rw [hfirstAgree.value, hmore.value]
  · next hfirst =>
    have hlength : ((t.cursor.noteAt t.value.span .fieldExpected).resumeInBlock t.value).cursor.rest.length ≤
        t.cursor.rest.length := Read.length_le _
    have hresumeClear : s.Clear ((t.cursor.noteAt t.value.span .fieldExpected).resumeInBlock t.value).cursor :=
      Clear.inner hc
    have hresume := (hagree.cursor.noteAt hagree.span .fieldExpected).resumeInBlock hagree.kind hresumeClear
    have hmore := hresume.fieldDecls hc
    simp only [h.binding?_eq_none hcClear hfirst]
    exact ⟨hmore.value, hmore.cursor⟩
termination_by c.rest.length

theorem structDecl {start start' : Span} (h : s.Twin c c') (hstart : start' = s.move start)
    (hc : s.Settled (c.structDecl start)) :
    s.Agree (Decl.relabel s.label) (c.structDecl start) (c'.structDecl start') := by
  have hcloseClear := hc.of_expect rfl (c.moves_ident.length_le.trans ((Cursor.moves_expect ..).length_le.trans
    ((Cursor.fieldDecls_takes _).length_le.trans (Cursor.moves_expect ..).length_le)))
  have hfieldsClear := Clear.before hcloseClear
  have hopeningClear := Clear.before hfieldsClear
  have hnameClear := Clear.before hopeningClear
  have hname := h.ident hnameClear.before
  have hopening := hname.cursor.expect hnameClear .lbrace
  have hfields := hopening.cursor.fieldDecls hfieldsClear
  have hclose := hfields.cursor.expect hfieldsClear .rbrace
  have hstop := hclose.cursor.expect hcloseClear .semicolon
  refine ⟨?_, hstop.cursor⟩
  show Decl.struct ⟨_, _, Span.merge _ _⟩ = Decl.struct ⟨_, _, s.move (Span.merge _ _)⟩
  rw [hname.value, hfields.value, hstop.cursor.lastSpan_known (hcloseClear.known_expect .semicolon), hstart,
    ← s.move_merge]

theorem formalList {c c' : Cursor} (h : s.Twin c c') (hc : s.Clear c.formalList.cursor) :
    s.Agree (List.map (Binding.relabel s.label)) c.formalList c'.formalList := by
  have hcClear : s.Clear c := hc.before
  rw [Cursor.formalList] at hc
  rw [Cursor.formalList, Cursor.formalList]
  split at hc
  · next hfirst =>
    simp only [h.formal?_eq_none hcClear hfirst]
    exact ⟨rfl, h.note hcClear .typeExpected⟩
  next first hfirst =>
  have hfirstShorter := first.shorter
  split at hc
  · next hcomma =>
    obtain ⟨first', hfirst', hagree⟩ := h.formal?_eq_some hc hfirst
    simp only [hfirst', hagree.cursor.accept_eq_none hc hcomma]
    exact ⟨congrArg ([·]) hagree.value, hagree.cursor⟩
  · next comma hcomma =>
    have hcommaShorter := comma.shorter
    have hcommaClear : s.Clear comma.cursor := Clear.before (r := comma.cursor.formalList) hc
    have hfirstClear := Clear.before (r := comma.toRead) hcommaClear
    obtain ⟨first', hfirst', hagree⟩ := h.formal?_eq_some hfirstClear hfirst
    obtain ⟨comma', hcomma', hcommaAgree⟩ := hagree.cursor.accept_eq_some hfirstClear hcomma
    have hmore := hcommaAgree.cursor.formalList hc
    simp only [hfirst', hcomma']
    refine ⟨?_, hmore.cursor⟩
    show _ :: _ = Binding.relabel _ _ :: List.map _ _
    rw [hagree.value, hmore.value]
termination_by c.rest.length

theorem functionDecl {start start' : Span} {result result' : TypeRef} {name name' : Ident} (h : s.Twin c c')
    (hstart : start' = s.move start) (hresult : result' = result.relabel s.label)
    (hname : name' = name.relabel s.label) (hc : s.Settled (c.functionDecl start result name)) :
    s.Agree (Decl.relabel s.label) (c.functionDecl start result name) (c'.functionDecl start' result' name') := by
  have hblock := hc.functionDecl_clear
  have hcloseClear := hblock.block_clear.before.before.before
  have hformalsClear := hcloseClear.before
  have hformals := h.unlessAt hformalsClear (m := List.map (Binding.relabel s.label)) rfl fun hlist =>
    h.formalList hlist
  rw [List.map_nil] at hformals
  have hclose := hformals.cursor.expect hformalsClear .rparen
  have hbody := hclose.cursor.block hblock
  refine ⟨?_, hbody.cursor⟩
  show Decl.function ⟨_, _, _, _, Span.merge _ _⟩ = Decl.function ⟨_, _, _, _, s.move (Span.merge _ _)⟩
  rw [hstart, hresult, hname, hformals.value, hbody.value, hbody.cursor.lastSpan_known hblock.block_known,
    ← s.move_merge]

theorem afterType {start start' : Span} {type type' : TypeRef} (h : s.Twin c c') (hstart : start' = s.move start)
    (htype : type' = type.relabel s.label) (hc : s.Settled (c.afterType start type)) :
    s.Agree (Decl.relabel s.label) (c.afterType start type) (c'.afterType start' type') := by
  have hnameClear := hc.afterType_clear
  have hname := h.ident hnameClear.before
  unfold Cursor.afterType at hc ⊢
  dsimp only at hc ⊢
  split at hc
  · next paren hparen =>
    obtain ⟨paren', hparen', hagree⟩ := hname.cursor.accept_eq_some hnameClear hparen
    have hfunction := hagree.cursor.functionDecl hstart htype hname.value
      (hc.last rfl (c.moves_ident.length_le.trans (Cursor.moves_accept hparen).length_le))
    simp only [hparen']
    exact ⟨hfunction.value, hfunction.cursor⟩
  · next hparen =>
    have hclose := hname.cursor.expect hnameClear .semicolon
    simp only [hname.cursor.accept_eq_none hnameClear hparen]
    refine ⟨?_, hclose.cursor⟩
    show Decl.variable ⟨_, _, Span.merge _ _⟩ = Decl.variable ⟨_, _, s.move (Span.merge _ _)⟩
    rw [hstart, htype, hname.value, hclose.cursor.lastSpan_known (hnameClear.known_expect .semicolon),
      ← s.move_merge]

/-! ## Declarations -/

theorem decl?_eq_none (h : s.Twin c c') (hc : s.Clear c) (hstruct : c'.startsStruct = c.startsStruct)
    (hnone : c.decl? = none) : c'.decl? = none := by
  unfold Cursor.decl? at hnone ⊢
  rw [hstruct]
  split at hnone
  · next hat =>
    rw [if_pos hat, Option.map_eq_none_iff]
    exact h.next?_eq_none hc (Option.map_eq_none_iff.1 hnone)
  · next hat =>
    rw [if_neg hat, Option.map_eq_none_iff]
    exact h.type?_eq_none hc (Option.map_eq_none_iff.1 hnone)

theorem decl?_eq_some {decl : Step Decl c} (h : s.Twin c c') (hc : s.Clear c)
    (hstruct : c'.startsStruct = c.startsStruct) (hdecl : s.Settled decl.toRead) (hsome : c.decl? = some decl) :
    ∃ decl', c'.decl? = some decl' ∧ s.Agree (Decl.relabel s.label) decl.toRead decl'.toRead := by
  unfold Cursor.decl? at hsome ⊢
  rw [hstruct]
  split at hsome
  · next hat =>
    obtain ⟨word, hword, rfl⟩ := Option.map_eq_some_iff.1 hsome
    obtain ⟨word', hword', hagree⟩ := h.next?_eq_some hc hword
    have hstructDecl := hagree.cursor.structDecl hagree.span
      (hdecl.last rfl (Nat.le_of_eq (congrArg List.length (Cursor.findings_next hword).symm)))
    rw [if_pos hat, hword']
    exact ⟨_, rfl, hstructDecl.value, hstructDecl.cursor⟩
  · next hat =>
    obtain ⟨type, htype, rfl⟩ := Option.map_eq_some_iff.1 hsome
    have hafterSettled : s.Settled (type.cursor.afterType c.here type.value) :=
      hdecl.last rfl (Cursor.type?_takes htype).length_le
    obtain ⟨type', htype', hagree⟩ := h.type?_eq_some hafterSettled.afterType_clear.before htype
    have hafter := hagree.cursor.afterType (h.here hc) hagree.value hafterSettled
    rw [if_neg hat, htype']
    exact ⟨_, rfl, hafter.value, hafter.cursor⟩

/-! ## Up to the end -/

theorem kinds (h : s.Twin c c') (he : s.Ends) : c'.kinds = c.kinds := by
  obtain ⟨front, hrest, hrest'⟩ := h.rest
  obtain ⟨t, more, more', hkind, hback, hback'⟩ := he
  have hkind' : (t.mapSpan s.move).kind = .eof := hkind
  have hfront : (front.map (Token.mapSpan s.move)).map Token.kind = front.map Token.kind := List.map_map ..
  rw [Cursor.kinds, Cursor.kinds, hrest, hrest', hback, hback', Token.kinds, Token.kinds, List.map_append,
    List.map_append, hfront, List.map_cons, List.map_cons, hkind, hkind']
  simp only [List.takeWhile_append, List.takeWhile_cons, ne_eq, not_true_eq_false, decide_false]
  rfl

theorem startsStruct (h : s.Twin c c') (he : s.Ends) : c'.startsStruct = c.startsStruct := by
  rw [Bool.eq_iff_iff, Cursor.startsStruct_iff, Cursor.startsStruct_iff, h.kinds he]

theorem skipPastTerminator {c c' : Cursor} (h : s.Twin c c') (he : s.Ends) :
    s.Twin c.skipPastTerminator.cursor c'.skipPastTerminator.cursor := by
  rw [Cursor.skipPastTerminator, Cursor.skipPastTerminator]
  split
  · next ht =>
    simp only [h.next?_eq_none (.inr he) ht]
    exact h
  next t ht =>
  have hshorter := t.shorter
  obtain ⟨t', ht', hagree⟩ := h.next?_eq_some (.inr he) ht
  simp only [ht', hagree.kind]
  split
  · exact hagree.cursor
  · exact hagree.cursor.skipPastTerminator he
termination_by c.rest.length

theorem resumeAtTop {t t' : Token} (h : s.Twin c c') (he : s.Ends) (hkind : t'.kind = t.kind) :
    s.Twin (c.resumeAtTop t).cursor (c'.resumeAtTop t').cursor := by
  unfold Cursor.resumeAtTop
  rw [hkind]
  split
  · exact h
  · exact h.skipPastTerminator he

theorem decls {c c' : Cursor} (h : s.Twin c c') (he : s.Ends) :
    s.Agree (List.map (Decl.relabel s.label)) c.decls c'.decls := by
  rw [Cursor.decls, Cursor.decls]
  split
  · next ht =>
    simp only [h.next?_eq_none (.inr he) ht]
    exact ⟨rfl, h⟩
  next t ht =>
  have hshorter := t.shorter
  obtain ⟨t', ht', hagree⟩ := h.next?_eq_some (.inr he) ht
  simp only [ht']
  split
  · next first hfirst =>
    have hfirstShorter := first.shorter
    obtain ⟨first', hfirst', hfirstAgree⟩ :=
      h.decl?_eq_some (.inr he) (h.startsStruct he) (.inl (.inr he)) hfirst
    have hmore := hfirstAgree.cursor.decls he
    simp only [hfirst']
    refine ⟨?_, hmore.cursor⟩
    show _ :: _ = Decl.relabel _ _ :: List.map _ _
    rw [hfirstAgree.value, hmore.value]
  · next hfirst =>
    have hlength : ((t.cursor.noteAt t.value.span .declarationExpected).resumeAtTop t.value).cursor.rest.length ≤
        t.cursor.rest.length := Read.length_le _
    have hresume := (hagree.cursor.noteAt hagree.span .declarationExpected).resumeAtTop he hagree.kind
    have hmore := hresume.decls he
    simp only [h.decl?_eq_none (.inr he) (h.startsStruct he) hfirst]
    exact ⟨hmore.value, hmore.cursor⟩
termination_by c.rest.length

end Twin

end Namescope.Seam
