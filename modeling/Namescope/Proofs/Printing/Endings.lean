import Mathlib.Logic.Basic
import Namescope.Proofs.Printing.Words
import Namescope.Proofs.Reading.Grammar
/-!
# Where the tokens of a tree end

A part of a printed program ends where its tokens end, if none follows that would go on with it, such as an opening
parenthesis that makes a call of a name. So the tokens of an expression belong to no other one, spans and
annotations apart, although they cannot always be read back.
-/
namespace Namescope

/-- Takes away all labels but the names. -/
def Relabel.shape : Relabel := Relabel.comp .unplaced .bare

/-! ## Where tokens end -/

/-- The tokens begin with none that goes on with what is in front of them. -/
def Stops (goesOn : TokenKind → Bool) (ks : List TokenKind) : Prop := ∀ k ∈ ks.head?, goesOn k = false

/-- If `ks` and `ls`, each with what can follow it, are the same tokens, then the same follows, and `P` holds. -/
def Settles (goesOn : TokenKind → Bool) (ks ls : List TokenKind) (P : Prop) : Prop :=
  ∀ r s, Stops goesOn r → Stops goesOn s → ks ++ r = ls ++ s → P ∧ r = s

/-- Nothing goes on with what is in front of it. -/
def nothing (_ : TokenKind) : Bool := false

theorem stops_cons {goesOn : TokenKind → Bool} {k : TokenKind} (h : goesOn k = false) (ks : List TokenKind) :
    Stops goesOn (k :: ks) := by
  rintro _ ⟨⟩
  exact h

theorem Stops.mono {p q : TokenKind → Bool} {ks : List TokenKind} (h : Stops p ks)
    (hpq : ∀ k, p k = false → q k = false) : Stops q ks :=
  fun k hk => hpq k (h k hk)

namespace Settles
variable {p q : TokenKind → Bool} {ks ls ks' ls' : List TokenKind} {k l : TokenKind} {P P' : Prop}

theorem symm (h : Settles p ks ls P) : Settles p ls ks P := by
  intro r s hr hs heq
  obtain ⟨hP, rfl⟩ := h s r hs hr heq.symm
  exact ⟨hP, rfl⟩

theorem imp (h : Settles p ks ls P) (hP : P → P') : Settles p ks ls P' :=
  fun r s hr hs heq => (h r s hr hs heq).imp_left hP

/-- Nothing at all follows. -/
theorem of_eq (h : Settles p ks ls P) (heq : ks = ls) : P := by
  have hstops : Stops p [] := by simp [Stops]
  exact (h [] [] hstops hstops (congrArg (· ++ []) heq)).1

theorem nil : Settles p [] [] True := fun _ _ _ _ h => ⟨trivial, h⟩

/-- One part and then another one. -/
theorem append (h : Settles q ks ls P) (h' : Settles p ks' ls' P') (hk : ∀ r, Stops p r → Stops q (ks' ++ r))
    (hl : ∀ r, Stops p r → Stops q (ls' ++ r)) : Settles p (ks ++ ks') (ls ++ ls') (P ∧ P') := by
  intro r s hr hs heq
  rw [List.append_assoc, List.append_assoc] at heq
  obtain ⟨hP, hrest⟩ := h _ _ (hk r hr) (hl s hs) heq
  obtain ⟨hP', hend⟩ := h' r s hr hs hrest
  exact ⟨⟨hP, hP'⟩, hend⟩

/-- Both begin with one token. -/
theorem cons (h : k = l → Settles p ks ls P) : Settles p (k :: ks) (l :: ls) (k = l ∧ P) := by
  intro r s hr hs heq
  obtain ⟨hkl, hrest⟩ := List.cons.inj heq
  obtain ⟨hP, hend⟩ := h hkl r s hr hs hrest
  exact ⟨⟨hkl, hP⟩, hend⟩

/-- Both begin with the same token. -/
theorem same (h : Settles p ks ls P) : Settles p (k :: ks) (k :: ls) P := (cons fun _ => h).imp And.right

/-- They begin with different tokens. -/
theorem of_ne (h : k ≠ l) : Settles p (k :: ks) (l :: ls) P :=
  fun _ _ _ _ heq => absurd (List.cons.inj heq).1 h

/-- One part, a token that does not go on with it, and then the rest. -/
theorem andThen (h : Settles q ks ls P) (h' : Settles p (k :: ks') (l :: ls') P') (hk : q k = false)
    (hl : q l = false) : Settles p (ks ++ k :: ks') (ls ++ l :: ls') (P ∧ P') :=
  h.append h' (fun _ _ => stops_cons hk _) fun _ _ => stops_cons hl _

/-- A part in front of the same token. -/
theorem before (h : Settles q ks ls P) (hk : q k = false) : Settles p (ks ++ [k]) (ls ++ [k]) P :=
  (h.andThen (same nil) hk hk).imp And.left

/-- Parts in front of different tokens. -/
theorem clash (h : Settles q ks ls P) (hne : k ≠ l) (hk : q k = false) (hl : q l = false) :
    Settles p (ks ++ k :: ks') (ls ++ l :: ls') P' :=
  (h.andThen (of_ne hne) hk hl).imp And.right

/-- A part that nothing goes on with, and then another one. -/
theorem followed (h : Settles nothing ks ls P) (h' : Settles p ks' ls' P') :
    Settles p (ks ++ ks') (ls ++ ls') (P ∧ P') :=
  h.append h' (fun _ _ _ _ => rfl) fun _ _ _ _ => rfl

/-- Nothing is in front of what goes on. -/
theorem of_goesOn (h : p l = true) : Settles p [] (l :: ls) P := by
  rintro r s hr - rfl
  have hl := hr l rfl
  rw [h] at hl
  cases hl

end Settles

/-- A list ends in front of what is no item, if nothing goes on with its items. -/
theorem settles_flatMap {α β : Type} {tokens : α → List TokenKind} {f : α → β} {p : TokenKind → Bool}
    (hopens : ∀ a, ∃ k ks, tokens a = k :: ks ∧ p k = true)
    (hitems : ∀ a b, Settles nothing (tokens a) (tokens b) (f a = f b)) (as bs : List α) :
    Settles p (as.flatMap tokens) (bs.flatMap tokens) (as.map f = bs.map f) := by
  have hnil (b : α) (bs : List α) {P : Prop} : Settles p [] ((b :: bs).flatMap tokens) P := by
    obtain ⟨k, ks, hks, hk⟩ := hopens b
    rw [List.flatMap_cons, hks]
    exact .of_goesOn hk
  induction as generalizing bs with
  | nil =>
    cases bs with
    | nil => exact Settles.nil.imp fun _ => rfl
    | cons b bs => exact hnil b bs
  | cons a as ih =>
    cases bs with
    | nil => exact (hnil a as).symm
    | cons b bs =>
      refine .imp (.followed (hitems a b) (ih bs)) ?_
      rintro ⟨hfirst, hmore⟩
      exact congrArg₂ List.cons hfirst hmore

/-! ## Expressions -/

/-- Whether an expression can begin with a token. -/
def TokenKind.opensExpr : TokenKind → Bool
  | .ident _ | .int _ | .string _ | .bool _ | .mark .lparen => true
  | _ => false

/-- An opening parenthesis goes on with a name. -/
def TokenKind.opensArgs (k : TokenKind) : Bool := k = .mark .lparen

section
variable (base : Location) (target value left right operand : Expr) (span : Span)

theorem tokensOf_field (ident : Ident) (resolved : Option String) :
    tokensOf (Location.field base ident resolved).words =
      .mark .lparen :: (tokensOf base.words ++ [.mark .rparen, .mark .dot, .ident ident.name]) := by
  simp [Location.words]

theorem tokensOf_assign : tokensOf (Expr.assign target value span).words =
    .mark .lparen :: (tokensOf target.words ++ .mark .assign :: (tokensOf value.words ++ [.mark .rparen])) := by
  simp [Expr.words]

theorem tokensOf_unary (op : UnaryOp) : tokensOf (Expr.unary op operand span).words =
    .mark .lparen :: .mark op.mark :: (tokensOf operand.words ++ [.mark .rparen]) := by
  simp [Expr.words]

theorem tokensOf_binary (op : BinaryOp) : tokensOf (Expr.binary op left right span).words =
    .mark .lparen :: (tokensOf left.words ++ .mark op.mark :: (tokensOf right.words ++ [.mark .rparen])) := by
  simp [Expr.words]

theorem tokensOf_call (callee : Ident) (args : List Expr) : tokensOf (Expr.call callee args span).words =
    .ident callee.name :: .mark .lparen :: (tokensOf (Expr.argWords args) ++ [.mark .rparen]) := by
  simp [Expr.words, Ident.useWords]

end

theorem Expr.opens (e : Expr) : ∃ k ks, tokensOf e.words = k :: ks ∧ k.opensExpr = true := by
  cases e with
  | literal value => cases value <;> exact ⟨_, _, rfl, rfl⟩
  | place location => cases location <;> exact ⟨_, _, rfl, rfl⟩
  | assign | call | unary | binary => exact ⟨_, _, rfl, rfl⟩

/-- What begins with a token that no expression begins with. -/
theorem Expr.settles_other (e : Expr) {k : TokenKind} (hk : k.opensExpr = false) {p : TokenKind → Bool}
    {ks ls : List TokenKind} {P : Prop} : Settles p (tokensOf e.words ++ ls) (k :: ks) P := by
  obtain ⟨first, more, hfirst, hopens⟩ := e.opens
  rw [hfirst]
  refine .of_ne ?_
  rintro rfl
  rw [hk] at hopens
  cases hopens

theorem UnaryOp.opensExpr_mark (op : UnaryOp) : (TokenKind.mark op.mark).opensExpr = false := by
  cases op <;> rfl

theorem BinaryOp.opensArgs_mark (op : BinaryOp) : (TokenKind.mark op.mark).opensArgs = false := by
  cases op <;> rfl

theorem BinaryOp.mark_ne (op : BinaryOp) :
    TokenKind.mark op.mark ≠ .mark .assign ∧ TokenKind.mark op.mark ≠ .mark .rparen := by
  cases op <;> exact ⟨nofun, nofun⟩

theorem UnaryOp.mark_injective {op op' : UnaryOp} (h : TokenKind.mark op.mark = .mark op'.mark) : op = op' := by
  cases op <;> cases op' <;> first | rfl | cases h

theorem BinaryOp.mark_injective {op op' : BinaryOp} (h : TokenKind.mark op.mark = .mark op'.mark) : op = op' := by
  cases op <;> cases op' <;> first | rfl | cases h

theorem Literal.token_injective {value value' : Literal} (h : value.token = value'.token) : value = value' := by
  cases value <;> cases value' <;> cases h <;> rfl

/-- Names of one shape are one name. -/
theorem Ident.shape_eq {ident ident' : Ident} (h : TokenKind.ident ident.name = .ident ident'.name) :
    ident.relabel .shape = ident'.relabel .shape :=
  congrArg (Ident.mk · {} none) (TokenKind.ident.inj h)

/-- No other expression has the tokens of a location. -/
theorem Location.settles (location : Location) (e : Expr) : Settles TokenKind.opensArgs (tokensOf location.words)
    (tokensOf e.words) ((Expr.place location {}).relabel .shape = e.relabel .shape) := by
  induction location generalizing e with
  | name ident =>
    rcases e with value | ⟨ident' | _⟩ | _ | ⟨callee, args⟩ | _ | _
    · cases value <;> exact .of_ne nofun
    · refine (Settles.cons fun _ => .nil).imp ?_
      rintro ⟨hname, -⟩
      exact congrArg (fun ident => Expr.place (.name ident) {}) (Ident.shape_eq hname)
    · exact .of_ne nofun
    · exact .of_ne nofun
    · rw [tokensOf_call]
      exact (Settles.cons fun _ => .of_goesOn rfl).imp And.right
    · exact .of_ne nofun
    · exact .of_ne nofun
  | field base ident resolved ih =>
    rw [tokensOf_field]
    rcases e with
      value | ⟨_ | ⟨base', ident', resolved'⟩⟩ | ⟨target, value⟩ | _ | ⟨op, operand⟩ | ⟨op, left, right⟩
    · cases value <;> exact .of_ne nofun
    · exact .of_ne nofun
    · rw [Expr.words, tokensOf_field]
      refine .imp (.same (.andThen (ih (.place base' {})) (.same (.same (.cons fun _ => .nil))) rfl rfl)) ?_
      rintro ⟨hbase, hident, -⟩
      have hlocation : base.relabel .shape = base'.relabel .shape := (Expr.place.inj hbase).1
      exact congrArg₂ (fun base ident => Expr.place (.field base ident none) {}) hlocation (Ident.shape_eq hident)
    · rw [tokensOf_assign]
      exact .same (.clash (ih target) nofun rfl rfl)
    · exact .of_ne nofun
    · rw [tokensOf_unary]
      exact ((Expr.place base {}).settles_other op.opensExpr_mark).same
    · rw [tokensOf_binary]
      exact .same (.clash (ih left) op.mark_ne.2.symm rfl op.opensArgs_mark)

theorem Settles.place {e : Expr} {location : Location} {span : Span} : Settles TokenKind.opensArgs (tokensOf e.words)
    (tokensOf (Expr.place location span).words) (e.relabel .shape = (Expr.place location span).relabel .shape) :=
  (location.settles e).symm.imp Eq.symm

/-- What goes on with arguments or begins them. -/
def TokenKind.inArgs (k : TokenKind) : Bool := k.opensExpr || k = .mark .comma

theorem tokensOf_argWords (e : Expr) (es : List Expr) :
    tokensOf (Expr.argWords (e :: es)) = tokensOf e.words ++ tokensOf (Expr.furtherWords es) := by
  simp [Expr.argWords]

theorem tokensOf_furtherWords (e : Expr) (es : List Expr) :
    tokensOf (Expr.furtherWords (e :: es)) = .mark .comma :: (tokensOf e.words ++ tokensOf (Expr.furtherWords es)) := by
  simp [Expr.furtherWords]

theorem Expr.settles_nil (e : Expr) (es : List Expr) {P : Prop} :
    Settles TokenKind.inArgs [] (tokensOf (argWords (e :: es))) P := by
  obtain ⟨k, ks, hks, hk⟩ := e.opens
  rw [tokensOf_argWords, hks]
  exact .of_goesOn (Bool.or_eq_true_iff.2 (.inl hk))

theorem Expr.stops_furtherWords (es : List Expr) (r : List TokenKind) (hr : Stops TokenKind.inArgs r) :
    Stops TokenKind.opensArgs (tokensOf (furtherWords es) ++ r) := by
  cases es with
  | nil =>
    refine hr.mono fun k hk => ?_
    rw [TokenKind.inArgs, Bool.or_eq_false_iff] at hk
    refine decide_eq_false ?_
    rintro rfl
    cases hk.1
  | cons e es =>
    rw [tokensOf_furtherWords]
    exact stops_cons rfl _

mutual

/-- No other expression has the tokens of an expression. -/
theorem Expr.settles : ∀ e e' : Expr,
    Settles TokenKind.opensArgs (tokensOf e.words) (tokensOf e'.words) (e.relabel .shape = e'.relabel .shape)
  | .place location span, e => location.settles e
  | .literal value _, e => by
    cases e with
    | place => exact .place
    | literal value' =>
      refine .imp (.cons fun _ => .nil) ?_
      rintro ⟨hvalue, -⟩
      exact congrArg (Expr.literal · {}) (Literal.token_injective hvalue)
    | assign | call | unary | binary => cases value <;> exact .of_ne nofun
  | .assign target value _, e => by
    rcases e with value' | _ | ⟨target', value'⟩ | _ | ⟨op⟩ | ⟨op, left⟩
    · cases value' <;> exact .of_ne nofun
    · exact .place
    · rw [tokensOf_assign, tokensOf_assign]
      refine .imp (.same (.andThen (target.settles target') (.same (.before (value.settles value') rfl)) rfl rfl)) ?_
      rintro ⟨htarget, hvalue⟩
      exact congrArg₂ (Expr.assign · · {}) htarget hvalue
    · exact .of_ne nofun
    · rw [tokensOf_assign, tokensOf_unary]
      exact (target.settles_other op.opensExpr_mark).same
    · rw [tokensOf_assign, tokensOf_binary]
      exact .same (.clash (target.settles left) op.mark_ne.1.symm rfl op.opensArgs_mark)
  | .call callee args _, e => by
    rcases e with value' | _ | _ | ⟨callee', args'⟩ | _ | _
    · cases value' <;> exact .of_ne nofun
    · exact .place
    · exact .of_ne nofun
    · rw [tokensOf_call, tokensOf_call]
      refine .imp (.cons fun _ => .same (.before (Expr.settles_argWords args args') rfl)) ?_
      rintro ⟨hcallee, hargs⟩
      exact congrArg₂ (Expr.call · · {}) (Ident.shape_eq hcallee) hargs
    · exact .of_ne nofun
    · exact .of_ne nofun
  | .unary op operand _, e => by
    rcases e with value' | _ | ⟨target⟩ | _ | ⟨op', operand'⟩ | ⟨op', left⟩
    · cases value' <;> exact .of_ne nofun
    · exact .place
    · rw [tokensOf_unary, tokensOf_assign]
      exact (target.settles_other op.opensExpr_mark).symm.same
    · exact .of_ne nofun
    · rw [tokensOf_unary, tokensOf_unary]
      refine .imp (.same (.cons fun _ => .before (operand.settles operand') rfl)) ?_
      rintro ⟨hop, hoperand⟩
      exact congrArg₂ (Expr.unary · · {}) (UnaryOp.mark_injective hop) hoperand
    · rw [tokensOf_unary, tokensOf_binary]
      exact (left.settles_other op.opensExpr_mark).symm.same
  | .binary op left right _, e => by
    rcases e with value' | _ | ⟨target⟩ | _ | ⟨op'⟩ | ⟨op', left', right'⟩
    · cases value' <;> exact .of_ne nofun
    · exact .place
    · rw [tokensOf_binary, tokensOf_assign]
      exact .same (.clash (left.settles target) op.mark_ne.1 op.opensArgs_mark rfl)
    · exact .of_ne nofun
    · rw [tokensOf_binary, tokensOf_unary]
      exact (left.settles_other op'.opensExpr_mark).same
    · rw [tokensOf_binary, tokensOf_binary]
      refine .imp (.same (.andThen (left.settles left') (.cons fun _ => .before (right.settles right') rfl)
        op.opensArgs_mark op'.opensArgs_mark)) ?_
      rintro ⟨hleft, hop, hright⟩
      obtain rfl := BinaryOp.mark_injective hop
      exact congrArg₂ (Expr.binary op · · {}) hleft hright

theorem Expr.settles_argWords : ∀ es es' : List Expr, Settles TokenKind.inArgs (tokensOf (argWords es))
    (tokensOf (argWords es')) (relabelAll .shape es = relabelAll .shape es')
  | [], [] => Settles.nil.imp fun _ => rfl
  | [], e :: es => e.settles_nil es
  | e :: es, [] => (e.settles_nil es).symm
  | e :: es, e' :: es' => by
    rw [tokensOf_argWords, tokensOf_argWords]
    refine .imp (.append (e.settles e') (Expr.settles_furtherWords es es') (Expr.stops_furtherWords es)
      (Expr.stops_furtherWords es')) ?_
    rintro ⟨hfirst, hmore⟩
    exact congrArg₂ List.cons hfirst hmore

theorem Expr.settles_furtherWords : ∀ es es' : List Expr, Settles TokenKind.inArgs (tokensOf (furtherWords es))
    (tokensOf (furtherWords es')) (relabelAll .shape es = relabelAll .shape es')
  | [], [] => Settles.nil.imp fun _ => rfl
  | [], _ :: _ => .of_goesOn rfl
  | _ :: _, [] => (Settles.of_goesOn rfl).symm
  | e :: es, e' :: es' => by
    rw [tokensOf_furtherWords, tokensOf_furtherWords]
    refine .imp (.same (.append (e.settles e') (Expr.settles_furtherWords es es') (Expr.stops_furtherWords es)
      (Expr.stops_furtherWords es'))) ?_
    rintro ⟨hfirst, hmore⟩
    exact congrArg₂ List.cons hfirst hmore

end

end Namescope
