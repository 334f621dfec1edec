import Namescope.Proofs.Reading.TwinDecls
/-!
# Joined source texts

Nothing but the place is left of a declaration when the next one is read. So the parse of a text without
errors and of the text on the lines after it is the one parse and then the other, at its place.
-/
namespace Namescope

namespace Cursor

/-! ## The token before a cursor -/

/-- The cursor with another token before it. -/
def since (c : Cursor) (last : Option Span) : Cursor := { c with last }

/-- Two steps, if any, that give the same value and end at the same cursor. -/
def SameStep {α : Type} {c d : Cursor} (r : Option (Step α c)) (q : Option (Step α d)) : Prop :=
  r.map (fun t => (t.value, t.cursor)) = q.map (fun t => (t.value, t.cursor))

theorem SameStep.elim {α : Type} {c d : Cursor} {r : Option (Step α c)} {q : Option (Step α d)}
    (h : SameStep r q) : (r = none ∧ q = none) ∨
      ∃ t u, r = some t ∧ q = some u ∧ t.value = u.value ∧ t.cursor = u.cursor := by
  cases r with
  | none =>
    cases q with
    | none => exact .inl ⟨rfl, rfl⟩
    | some u => cases h
  | some t =>
    cases q with
    | none => cases h
    | some u =>
      obtain ⟨hvalue, hcursor⟩ := Prod.mk.inj (Option.some.inj h)
      exact .inr ⟨t, u, rfl, rfl, hvalue, hcursor⟩

/-- What is read behind the same step depends on its value and the place behind it alone. -/
theorem SameStep.thenRead {α β : Type} {c d : Cursor} {r : Option (Step α c)} {q : Option (Step α d)}
    (k : α → (e : Cursor) → Read β e) (h : SameStep r q) :
    SameStep (r.map fun t => t.thenRead (k t.value t.cursor)) (q.map fun t => t.thenRead (k t.value t.cursor)) := by
  rcases h.elim with ⟨rfl, rfl⟩ | ⟨t, u, rfl, rfl, hvalue, hcursor⟩
  · rfl
  · obtain ⟨⟨value, e, _⟩, _⟩ := t
    obtain ⟨⟨_, _, _⟩, _⟩ := u
    subst hvalue hcursor
    rfl

theorem next?_since (c : Cursor) (last : Option Span) : SameStep (c.since last).next? c.next? := by
  obtain ⟨rest, before, findings⟩ := c
  cases rest with
  | nil => rfl
  | cons t rest => by_cases hkind : t.kind = .eof <;> simp [SameStep, since, next?, hkind]

theorem type?_since (c : Cursor) (last : Option Span) : SameStep (c.since last).type? c.type? := by
  unfold type?
  rcases (c.next?_since last).elim with ⟨ht, hu⟩ | ⟨t, u, ht, hu, hvalue, hcursor⟩
  · rw [ht, hu]
    rfl
  · obtain ⟨⟨token, d, _⟩, _⟩ := t
    obtain ⟨⟨_, _, _⟩, _⟩ := u
    subst hvalue hcursor
    rw [ht, hu]
    cases hk : token.kind with
    | keyword word => cases word <;> simp only [hk] <;> rfl
    | _ => simp only [hk]; rfl

/-- The next declaration does not depend on the token before it. -/
theorem decl?_since (c : Cursor) (last : Option Span) : SameStep (c.since last).decl? c.decl? := by
  have hstruct : (c.since last).startsStruct = c.startsStruct := rfl
  unfold decl?
  rw [hstruct]
  split
  · exact (c.next?_since last).thenRead fun word e => e.structDecl word.span
  · exact (c.type?_since last).thenRead fun type e => e.afterType c.here type

/-- Nor do the declarations up to the end. -/
theorem decls_since (c : Cursor) (last : Option Span) : (c.since last).decls.value = c.decls.value ∧
    (c.since last).decls.cursor.findings = c.decls.cursor.findings := by
  rw [decls, decls]
  rcases (c.next?_since last).elim with ⟨ht, hu⟩ | ⟨t, u, ht, hu, hvalue, hcursor⟩
  · rw [ht, hu]
    exact ⟨rfl, rfl⟩
  · rcases (c.decl?_since last).elim with ⟨hd, he⟩ | ⟨d, e, hd, he, hvalue', hcursor'⟩
    · obtain ⟨⟨token, d, _⟩, _⟩ := t
      obtain ⟨⟨_, _, _⟩, _⟩ := u
      subst hvalue hcursor
      simp only [ht, hu, hd, he]
      exact ⟨rfl, rfl⟩
    · obtain ⟨⟨decl, d, _⟩, _⟩ := d
      obtain ⟨⟨_, _, _⟩, _⟩ := e
      subst hvalue' hcursor'
      simp only [ht, hu, hd, he]
      exact ⟨rfl, rfl⟩

end Cursor

/-! ## Declarations one after the other -/

/-- The kinds of tokens without an end among them come first. -/
theorem Token.kinds_append {front : List Token} (h : TokenKind.eof ∉ front.map Token.kind) (more : List Token) :
    kinds (front ++ more) = front.map Token.kind ++ kinds more := by
  rw [kinds, List.map_append, List.takeWhile_append_of_pos]
  · rfl
  · intro k hk
    exact decide_eq_true fun e => h (e ▸ hk)

theorem Token.eq_nil_of_kinds {tokens : List Token} (h : TokenKind.eof ∉ tokens.map Token.kind)
    (hkinds : kinds tokens = []) : tokens = [] := by
  have happend := kinds_append h []
  rw [List.append_nil, hkinds] at happend
  exact List.map_eq_nil_iff.1 (List.append_eq_nil_iff.1 happend.symm).1

namespace Cursor

/-- Whether a declaration begins as a struct is seen in its own tokens. -/
theorem startsStruct_of_derives {c d : Cursor} {ks more more' : List TokenKind} {decl : Decl}
    (h : DerivesDecl ks decl) (hc : c.kinds = ks ++ more) (hd : d.kinds = ks ++ more') :
    d.startsStruct = c.startsStruct := by
  rcases h with ⟨⟨⟨name, htype⟩⟩⟩ | ⟨name, htype, hformals, hbody⟩ | ⟨name, hfields⟩
  · rw [List.append_assoc, List.append_assoc] at hc hd
    rw [Bool.eq_false_iff.2 (startsStruct_of_type htype hc), Bool.eq_false_iff.2 (startsStruct_of_type htype hd)]
  · rw [List.append_assoc, List.append_assoc] at hc hd
    rw [Bool.eq_false_iff.2 (startsStruct_of_type htype hc), Bool.eq_false_iff.2 (startsStruct_of_type htype hd)]
  · rw [c.startsStruct_iff.2 ⟨name, _, hc⟩, d.startsStruct_iff.2 ⟨name, _, hd⟩]

/-- A derived declaration is read in the same way whatever tokens follow. -/
theorem decl?_append {ks : List TokenKind} {decl : Decl} (h : DerivesDecl ks decl) {front : List Token}
    (hkinds : front.map Token.kind = ks) (hend : TokenKind.eof ∉ ks) : ∃ value : Decl, ∀ tail : List Token,
      ∃ step last, (⟨front ++ tail, none, []⟩ : Cursor).decl? = some step ∧ step.value = value ∧
        step.cursor = ⟨tail, last, []⟩ := by
  subst hkinds
  have hkinds (tail : List Token) : (⟨front ++ tail, none, []⟩ : Cursor).kinds =
      front.map Token.kind ++ Token.kinds tail := Token.kinds_append hend tail
  have hfront : (⟨front, none, []⟩ : Cursor).kinds = front.map Token.kind ++ [] := by
    have := hkinds []
    rwa [List.append_nil] at this
  obtain ⟨step, hstep, hexact⟩ := decl?_exact h hfront
  have hrest : step.cursor.rest = [] := by
    refine Token.eq_nil_of_kinds (fun hmem => hend ?_) hexact.kinds
    exact (step.suffix.map Token.kind).subset hmem
  refine ⟨step.value.relabel { span := id }, fun tail => ?_⟩
  let seam : Seam := ⟨id, fun _ _ => rfl, [], tail⟩
  have htwin : seam.Twin ⟨front, none, []⟩ ⟨front ++ tail, none, []⟩ := by
    refine ⟨⟨front, (List.append_nil _).symm, ?_⟩, rfl, rfl⟩
    exact congrArg (· ++ tail) (List.map_id front).symm
  have hclear : seam.Clear ⟨front, none, []⟩ := by
    obtain ⟨k, ls, hks⟩ := decl_ne_nil h
    refine .inl (List.length_pos_of_ne_nil ?_)
    rintro rfl
    cases hks
  obtain ⟨step', hstep', hagree⟩ := htwin.decl?_eq_some hclear (startsStruct_of_derives h hfront (hkinds tail))
    (.inr ⟨rfl, Nat.le_of_eq (congrArg List.length hexact.quiet)⟩) hstep
  obtain ⟨behind, hbehind, hbehind'⟩ := hagree.cursor.rest
  have hfindings := hagree.cursor.findings
  obtain ⟨rfl, -⟩ := List.append_eq_nil_iff.1 (hbehind.symm.trans hrest)
  refine ⟨step', step'.cursor.last, hstep', hagree.value, ?_⟩
  rw [hexact.quiet] at hfindings
  show (⟨step'.cursor.rest, step'.cursor.last, step'.cursor.findings⟩ : Cursor) = _
  rw [hbehind', hfindings]
  rfl

/-- A declaration that is read is the first one. -/
theorem decls_of_decl? {c : Cursor} {step : Step Decl c} (h : c.decl? = some step) :
    c.decls.value = step.value :: step.cursor.decls.value ∧
      c.decls.cursor.findings = step.cursor.decls.cursor.findings := by
  rw [decls]
  cases ht : c.next? with
  | none =>
    have hnone : c.decl? = none := by
      unfold decl? type?
      rw [ht]
      split <;> rfl
    rw [hnone] at h
    cases h
  | some t =>
    simp only [h]
    exact ⟨rfl, rfl⟩

/-- What is read of tokens that derive declarations depends on nothing behind them. -/
theorem decls_append {ks : List TokenKind} {ds : List Decl} (h : DerivesAll DerivesDecl ks ds)
    {front : List Token} (hkinds : front.map Token.kind = ks) (hend : TokenKind.eof ∉ ks) :
    ∃ values : List Decl, ∀ tail : List Token,
      (⟨front ++ tail, none, []⟩ : Cursor).decls.value = values ++ (⟨tail, none, []⟩ : Cursor).decls.value ∧
      (⟨front ++ tail, none, []⟩ : Cursor).decls.cursor.findings =
        (⟨tail, none, []⟩ : Cursor).decls.cursor.findings := by
  induction h generalizing front with
  | nil =>
    obtain rfl := List.map_eq_nil_iff.1 hkinds
    exact ⟨[], fun tail => ⟨rfl, rfl⟩⟩
  | @cons ks decl ls ds hfirst _ ih =>
    obtain ⟨first, more, rfl, hfirstKinds, hmoreKinds⟩ := List.map_eq_append_iff.1 hkinds
    obtain ⟨value, hvalue⟩ := decl?_append hfirst hfirstKinds fun hmem => hend (List.mem_append_left _ hmem)
    obtain ⟨values, hvalues⟩ := ih hmoreKinds fun hmem => hend (List.mem_append_right _ hmem)
    refine ⟨value :: values, fun tail => ?_⟩
    obtain ⟨step, last, hstep, rfl, hcursor⟩ := hvalue (more ++ tail)
    obtain ⟨hmoreValue, hmoreFindings⟩ := hvalues tail
    obtain ⟨hsinceValue, hsinceFindings⟩ := (⟨more ++ tail, none, []⟩ : Cursor).decls_since last
    obtain ⟨hstepValue, hstepFindings⟩ := decls_of_decl? hstep
    have hsince : step.cursor = since ⟨more ++ tail, none, []⟩ last := hcursor
    rw [List.append_assoc, hstepValue, hstepFindings, hsince, hsinceValue, hsinceFindings, hmoreValue, hmoreFindings]
    exact ⟨rfl, rfl⟩

end Cursor

/-! ## Two texts and a newline -/

namespace Reading

/-- Everything that is noticed between the tokens is an error. -/
theorem findings_eq_nil {source : String} (h : (parse source).report.hasErrors = false) :
    (ofTokens (Scan.ofSource source).tokens).findings = [] := by
  refine List.eq_nil_iff_forall_not_mem.2 fun finding hmem => ?_
  have hreport : finding.toError SyntaxIssue.message ∈ (parse source).report :=
    List.mem_append_right _ (List.mem_map_of_mem hmem)
  have hnot := List.any_eq_false.1 h _ hreport
  exact hnot (decide_eq_true rfl)

/-- What is read of the words of a text without errors depends on nothing behind them. -/
theorem exists_decls {source : String} (h : (parse source).report.hasErrors = false) :
    ∃ values : List Decl, ∀ tail : List Token,
      (ofTokens ((Scan.ofSource source).words ++ tail)).program.decls = values ++ (ofTokens tail).program.decls ∧
      (ofTokens ((Scan.ofSource source).words ++ tail)).findings = (ofTokens tail).findings := by
  have hend : TokenKind.eof ∉ (Scan.ofSource source).words.map Token.kind := by
    intro hmem
    obtain ⟨t, ht, hkind⟩ := List.mem_map.1 hmem
    exact of_decide_eq_true (List.mem_filter.1 ht).2 hkind
  have hderives := (reads_iff_derives (Scan.ofSource source).tokens _).1 ⟨findings_eq_nil h, rfl⟩
  have hlast (p : Position) : Token.kinds [Scan.endToken p] = [] := rfl
  rw [Scan.tokens_eq_words, Token.kinds_append hend, hlast, List.append_nil] at hderives
  obtain ⟨values, hvalues⟩ := Cursor.decls_append hderives rfl hend
  exact ⟨values, fun tail => ⟨(hvalues tail).1, congrArg List.reverse (hvalues tail).2⟩⟩

theorem decls_end (p : Position) : (ofTokens [Scan.endToken p]).program.decls = [] := by
  have hnone : (⟨[Scan.endToken p], none, []⟩ : Cursor).next? = none := Cursor.next?_eq_none rfl
  rw [ofTokens, Cursor.decls, hnone]
  rfl

/-- Tokens that stand elsewhere are read in the same way, whatever comes behind their end. -/
theorem ofTokens_mapSpan_append {f : Span → Span}
    (hf : ∀ span other, f (span.merge other) = (f span).merge (f other)) (front : List Token) {last : Token}
    (hlast : last.kind = .eof) (more more' : List Token) :
    (ofTokens (front.map (Token.mapSpan f) ++ last.mapSpan f :: more')).program.decls =
      (ofTokens (front ++ last :: more)).program.decls.map (Decl.relabel { span := f }) ∧
    (ofTokens (front.map (Token.mapSpan f) ++ last.mapSpan f :: more')).findings =
      (ofTokens (front ++ last :: more)).findings.map (Finding.mapSpan f) := by
  let seam : Seam := ⟨f, hf, last :: more, last.mapSpan f :: more'⟩
  have htwin : seam.Twin ⟨front ++ last :: more, none, []⟩
      ⟨front.map (Token.mapSpan f) ++ last.mapSpan f :: more', none, []⟩ := ⟨⟨front, rfl, rfl⟩, rfl, rfl⟩
  have hdecls := htwin.decls ⟨last, more, more', hlast, rfl, rfl⟩
  refine ⟨hdecls.value, ?_⟩
  rw [ofTokens, ofTokens, List.map_reverse, ← hdecls.cursor.findings]

theorem ofTokens_mapSpan {f : Span → Span} (hf : ∀ span other, f (span.merge other) = (f span).merge (f other))
    (front : List Token) {last : Token} (hlast : last.kind = .eof) :
    (ofTokens ((front ++ [last]).map (Token.mapSpan f))).program.decls =
      (ofTokens (front ++ [last])).program.decls.map (Decl.relabel { span := f }) ∧
    (ofTokens ((front ++ [last]).map (Token.mapSpan f))).findings =
      (ofTokens (front ++ [last])).findings.map (Finding.mapSpan f) := by
  rw [List.map_append]
  exact ofTokens_mapSpan_append hf front hlast [] []

/-- A text that stands elsewhere is read in the same way. -/
theorem ofTokens_moved (d : Displacement) (source : String) :
    (ofTokens ((Scan.ofSource source).tokens.map (Token.mapSpan (Span.move d)))).program.decls =
      (ofTokens (Scan.ofSource source).tokens).program.decls.map (Decl.relabel { span := Span.move d }) ∧
    (ofTokens ((Scan.ofSource source).tokens.map (Token.mapSpan (Span.move d)))).findings =
      (ofTokens (Scan.ofSource source).tokens).findings.map (Finding.mapSpan (Span.move d)) := by
  rw [Scan.tokens_eq_words]
  exact ofTokens_mapSpan (Span.merge_move d) _ rfl

end Reading

/-- The tree of a text that goes on behind a newline. -/
theorem Parsed.decls_newline {a : String} (ha : (parse a).report.hasErrors = false) (b : String) :
    (parse (a ++ "\n" ++ b)).program.decls = (parse a).program.decls ++
      (parse b).program.decls.map (Decl.relabel { span := Span.move (.behind a) }) := by
  obtain ⟨values, hvalues⟩ := Reading.exists_decls ha
  have hfirst : (parse a).program.decls = values := by
    have hend := (hvalues [Scan.endToken (({} : Position).past a.toList)]).1
    rwa [← Scan.tokens_eq_words, Reading.decls_end, List.append_nil] at hend
  rw [hfirst]
  show (Reading.ofTokens (Scan.ofSource (a ++ "\n" ++ b)).tokens).program.decls = _
  rw [Scan.tokens_newline, (hvalues _).1, (Reading.ofTokens_moved (.behind a) b).1]
  rfl

/-- The diagnostics of a text that goes on behind a newline. -/
theorem Parsed.report_newline {a : String} (ha : (parse a).report.hasErrors = false) (b : String) :
    (parse (a ++ "\n" ++ b)).report = (parse a).report ++
      (parse b).report.map (Diagnostic.mapSpan (Span.move (.behind a))) := by
  obtain ⟨values, hvalues⟩ := Reading.exists_decls ha
  have hfindings : (Reading.ofTokens (Scan.ofSource (a ++ "\n" ++ b)).tokens).findings =
      (Reading.ofTokens (Scan.ofSource b).tokens).findings.map (Finding.mapSpan (Span.move (.behind a))) := by
    rw [Scan.tokens_newline, (hvalues _).2, (Reading.ofTokens_moved (.behind a) b).2]
  have hfirst : (parse a).report = (Scan.ofSource a).report := by
    show _ ++ List.map _ _ = _
    rw [Reading.findings_eq_nil ha]
    exact List.append_nil _
  rw [hfirst]
  show Scan.report _ ++ List.map _ _ = _ ++ List.map _ (Scan.report _ ++ List.map _ _)
  rw [hfindings, Scan.report_newline, List.map_append, List.append_assoc, List.map_map, List.map_map]
  rfl

/-- A text that goes on behind a newline is parsed like its two parts if the first one has no errors: first
the declarations of the one and then those of the other, moved by the bytes and lines in front of it, and so
with the diagnostics. -/
theorem parse_newline (a b : String) (ha : (parse a).report.hasErrors = false) :
    (parse (a ++ "\n" ++ b)).program.decls = (parse a).program.decls ++
      (parse b).program.decls.map (Decl.relabel { span := Span.move (.behind a) }) ∧
    (parse (a ++ "\n" ++ b)).report = (parse a).report ++
      (parse b).report.map (Diagnostic.mapSpan (Span.move (.behind a))) :=
  ⟨Parsed.decls_newline ha b, Parsed.report_newline ha b⟩

/-- A number that is too large is no error, and what begins with an operator does not go on with the text in
front of it. -/
theorem broken_line_parse :
    (parse "int f() { return 3000000000; }").report.hasErrors = false ∧
      (parse "+ 1; bool b").report.hasErrors = true ∧
      (parse ("int f() { return 3000000000; }" ++ "\n" ++ "+ 1; bool b")).report =
        (parse "int f() { return 3000000000; }").report ++ (parse "+ 1; bool b").report.map
          (Diagnostic.mapSpan (Span.move (.behind "int f() { return 3000000000; }"))) := by
  have hfirst : (parse "int f() { return 3000000000; }").report.hasErrors = false := by decide +kernel
  exact ⟨hfirst, by decide +kernel, (parse_newline _ "+ 1; bool b" hfirst).2⟩

end Namescope
