import Namescope.Proofs.Reading.Joined
import Namescope.Proofs.Reading.ProgramPlaces
/-!
# Reading up to the end

A token list is read up to its first end token, and what comes behind that does not matter. The cursor never
leaves the list, and findings are noted in the order of the tokens.
-/
namespace Namescope

/-- The tokens before the first end token. -/
def Token.beforeEnd (tokens : List Token) : List Token := tokens.takeWhile (·.kind ≠ .eof)

/-- The first end token and all behind it. -/
def Token.fromEnd (tokens : List Token) : List Token := tokens.dropWhile (·.kind ≠ .eof)

theorem Token.beforeEnd_append {ts : List Token} (h : ∀ t ∈ ts, t.kind ≠ .eof) (more : List Token) :
    beforeEnd (ts ++ more) = ts ++ beforeEnd more :=
  List.takeWhile_append_of_pos fun t ht => decide_eq_true (h t ht)

theorem Token.fromEnd_append {ts : List Token} (h : ∀ t ∈ ts, t.kind ≠ .eof) (more : List Token) :
    fromEnd (ts ++ more) = fromEnd more :=
  List.dropWhile_append_of_pos fun t ht => decide_eq_true (h t ht)

/-- At the end there is nothing, or an end token. -/
theorem Token.beforeEnd_of_kinds {tokens : List Token} (h : kinds tokens = []) :
    beforeEnd tokens = [] ∧ fromEnd tokens = tokens := by
  cases tokens with
  | nil => exact ⟨rfl, rfl⟩
  | cons t more =>
    have hkind : t.kind = .eof := by
      by_contra hkind
      simp [kinds, hkind] at h
    simp [beforeEnd, fromEnd, hkind]

theorem Token.kind_of_fromEnd {tokens more : List Token} {last : Token} (h : fromEnd tokens = last :: more) :
    last.kind = .eof := by
  have hhead := List.head?_dropWhile_not (fun t : Token => decide (t.kind ≠ .eof)) tokens
  rw [show tokens.dropWhile (·.kind ≠ .eof) = last :: more from h] at hhead
  simpa using hhead

/-- If there is an end token the tokens before it are not all. -/
theorem Token.length_beforeEnd_lt {tokens : List Token} (h : ∃ t ∈ tokens, t.kind = .eof) :
    (beforeEnd tokens).length < tokens.length := by
  obtain ⟨t, ht, hkind⟩ := h
  refine Nat.lt_of_le_of_ne (List.takeWhile_prefix _).length_le fun hlength => ?_
  have hall : beforeEnd tokens = tokens := (List.takeWhile_prefix _).eq_of_length hlength
  rw [← hall] at ht
  exact of_decide_eq_true (List.all_eq_true.1 List.all_takeWhile t ht) hkind

namespace Reading

/-- Before any token of a list. -/
def atStart (tokens : List Token) : Cursor := ⟨tokens, none, []⟩

/-- How a token list is read. -/
structure UpToEnd (tokens : List Token) : Prop where
  /-- The tokens before the first end token are taken, all of them and no other. -/
  run : (atStart tokens).Goes (Token.beforeEnd tokens) (atStart tokens).decls.cursor
  /-- The cursor stops in front of the first end token. -/
  stop : (atStart tokens).decls.cursor.rest = Token.fromEnd tokens
  /-- Wherever the cursor gets to, it has taken some first tokens of the list, none of them an end token; the
  last of these is behind it, and what is left goes on with a token unless the list is empty. -/
  inside : ∀ ts d, (atStart tokens).Goes ts d → ts <+: Token.beforeEnd tokens ∧ tokens = ts ++ d.rest ∧
    d.last = ts.getLast?.map Token.span ∧ (d.rest = [] → tokens = [])
  /-- A list that goes on in another way behind the first end token is read in the same way. -/
  behind : ∀ last more, Token.fromEnd tokens = last :: more → ∀ others,
    ofTokens (Token.beforeEnd tokens ++ last :: others) = ofTokens tokens
  /-- Each diagnostic stands at a token of the list, none of them at one before that of the diagnostic before
  it, and none behind the first end token. -/
  inOrder : ∃ places : List Nat, places.Pairwise (· ≤ ·) ∧ (∀ p ∈ places, p ≤ (Token.beforeEnd tokens).length) ∧
    (ofTokens tokens).report.map (fun d => some d.span) = places.map fun p => tokens[p]?.map Token.span

/-- What comes behind an end token does not matter. -/
theorem ofTokens_append_end (front : List Token) {last : Token} (hlast : last.kind = .eof)
    (more others : List Token) : ofTokens (front ++ last :: others) = ofTokens (front ++ last :: more) := by
  have hsame : Token.mapSpan id = id := rfl
  -- both are what the second one is when it is read once more
  have hothers := ofTokens_mapSpan_append (f := id) (fun _ _ => rfl) front hlast more others
  have hmore := ofTokens_mapSpan_append (f := id) (fun _ _ => rfl) front hlast more more
  rw [hsame, List.map_id] at hothers hmore
  have hdecls := hothers.1.trans hmore.1.symm
  have hfindings := hothers.2.trans hmore.2.symm
  rw [ofTokens, ofTokens, Reading.mk.injEq, Program.mk.injEq]
  exact ⟨hdecls, hfindings⟩

variable (tokens : List Token)

/-- Reading takes the tokens before the first end token and stops there. If nothing is noted the declarations lie
over these tokens. -/
theorem goes_decls : (atStart tokens).Goes (Token.beforeEnd tokens) (atStart tokens).decls.cursor ∧
    (atStart tokens).decls.cursor.rest = Token.fromEnd tokens ∧
      ((ofTokens tokens).findings = [] → Token.Ordered (Token.beforeEnd tokens) →
        AllOver Decl.LiesOver (Token.beforeEnd tokens) (ofTokens tokens).program.decls) := by
  obtain ⟨ts, hgoes, hover⟩ := (atStart tokens).decls_covers
  have hrest : tokens = ts ++ (atStart tokens).decls.cursor.rest := hgoes.rest
  obtain ⟨hbefore, hfrom⟩ := Token.beforeEnd_of_kinds (atStart tokens).kinds_decls
  have hbeforeEnd : Token.beforeEnd tokens = ts := by
    rw [congrArg Token.beforeEnd hrest, Token.beforeEnd_append hgoes.live, hbefore, List.append_nil]
  have hfromEnd : Token.fromEnd tokens = (atStart tokens).decls.cursor.rest := by
    rw [congrArg Token.fromEnd hrest, Token.fromEnd_append hgoes.live, hfrom]
  rw [hbeforeEnd, hfromEnd]
  exact ⟨hgoes, rfl, fun hquiet => hover (List.reverse_eq_nil_iff.1 hquiet)⟩

theorem inside_of_goes (h : tokens = [] ∨ ∃ t ∈ tokens, t.kind = .eof) {ts : List Token} {d : Cursor}
    (hgoes : (atStart tokens).Goes ts d) : ts <+: Token.beforeEnd tokens ∧ tokens = ts ++ d.rest ∧
      d.last = ts.getLast?.map Token.span ∧ (d.rest = [] → tokens = []) := by
  have hrest : tokens = ts ++ d.rest := hgoes.rest
  have htaken : ts <+: Token.beforeEnd tokens := by
    rw [congrArg Token.beforeEnd hrest, Token.beforeEnd_append hgoes.live]
    exact List.prefix_append ..
  refine ⟨htaken, hrest, hgoes.last.trans (Option.or_none ..), fun hnil => ?_⟩
  rcases h with hempty | hend
  · exact hempty
  -- not all tokens can be taken, as the end token is not
  · have hlt := Token.length_beforeEnd_lt hend
    rw [hnil, List.append_nil] at hrest
    rw [hrest] at hlt htaken
    exact absurd htaken.length_le (Nat.not_le_of_lt hlt)

theorem behind_end {last : Token} {more : List Token} (h : Token.fromEnd tokens = last :: more) (others : List Token) :
    ofTokens (Token.beforeEnd tokens ++ last :: others) = ofTokens tokens := by
  have hsplit : Token.beforeEnd tokens ++ Token.fromEnd tokens = tokens := List.takeWhile_append_dropWhile
  rw [ofTokens_append_end _ (Token.kind_of_fromEnd h) more others, ← h, hsplit]

theorem findings_nil : (ofTokens []).findings = [] := by
  rw [ofTokens, Cursor.decls, Cursor.next?_eq_none rfl]
  rfl

theorem report_in_order (h : tokens = [] ∨ ∃ t ∈ tokens, t.kind = .eof) : ∃ places : List Nat,
    places.Pairwise (· ≤ ·) ∧ (∀ p ∈ places, p ≤ (Token.beforeEnd tokens).length) ∧
      (ofTokens tokens).report.map (fun d => some d.span) = places.map fun p => tokens[p]?.map Token.span := by
  rcases h with rfl | hend
  · refine ⟨[], .nil, nofun, ?_⟩
    rw [report, findings_nil]
    rfl
  obtain ⟨notes, places, hnotes, hsorted, hle, hspans⟩ := (goes_decls tokens).1.findings
  refine ⟨places, hsorted, hle, ?_⟩
  have hfindings : (ofTokens tokens).findings = notes := by
    show (atStart tokens).decls.cursor.findings.reverse = notes
    rw [hnotes, List.reverse_append, List.reverse_reverse]
    rfl
  calc (ofTokens tokens).report.map (fun d => some d.span)
    _ = (notes.map Finding.span).map some := by
      rw [report, hfindings, List.map_map, List.map_map]
      rfl
    _ = places.map fun p => some ((tokens[p]?.map Token.span).getD {}) := by
      rw [hspans, List.map_map]
      rfl
    _ = places.map fun p => tokens[p]?.map Token.span := by
      refine List.map_congr_left fun p hp => ?_
      rw [List.getElem?_eq_getElem (Nat.lt_of_le_of_lt (hle p hp) (Token.length_beforeEnd_lt hend))]
      rfl

end Reading

/-- An empty token list, or one with an end token, is read up to the end. -/
theorem read_up_to_end (tokens : List Token) (h : tokens = [] ∨ ∃ t ∈ tokens, t.kind = .eof) :
    Reading.UpToEnd tokens where
  run := (Reading.goes_decls tokens).1
  stop := (Reading.goes_decls tokens).2.1
  inside _ _ := Reading.inside_of_goes tokens h
  behind _ _ hend := Reading.behind_end tokens hend
  inOrder := Reading.report_in_order tokens h

/-- A type at the end lacks a name and a semicolon, both of them at the end token; the brace behind is not read. -/
theorem unfinished_variable_read :
    (∃ t ∈ [⟨.keyword .int, ⟨0, 3, 1, 1⟩⟩, ⟨.eof, ⟨3, 3, 1, 4⟩⟩, (⟨.mark .rbrace, ⟨5, 6, 1, 6⟩⟩ : Token)], t.kind = .eof) ∧
      Reading.UpToEnd [⟨.keyword .int, ⟨0, 3, 1, 1⟩⟩, ⟨.eof, ⟨3, 3, 1, 4⟩⟩, ⟨.mark .rbrace, ⟨5, 6, 1, 6⟩⟩] ∧
      (Reading.ofTokens [⟨.keyword .int, ⟨0, 3, 1, 1⟩⟩, ⟨.eof, ⟨3, 3, 1, 4⟩⟩,
        ⟨.mark .rbrace, ⟨5, 6, 1, 6⟩⟩]).report.map (·.render) =
          ["error: expected identifier (1:4)", "error: expected ';' (1:4)"] :=
  ⟨by decide, read_up_to_end _ (.inr (by decide)), by decide +kernel⟩

end Namescope
