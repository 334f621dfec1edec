import Mathlib.Data.List.Chain
import Namescope.Proofs.Printing.Words
import Namescope.Proofs.Reading.Derivations
/-!
# Field accesses in print

A dot of the grammar follows a name. The dot of a printed field access follows a parenthesis, so a program
with a field access is printed as no program.
-/
namespace Namescope

/-! ## Trees with field accesses -/

/-- Whether a location is a field. -/
def Location.hasField : Location → Bool
  | name _ => false
  | field _ _ _ => true

mutual

/-- Whether a field is accessed in an expression. -/
def Expr.hasField : Expr → Bool
  | .literal _ _ => false
  | .place location _ => location.hasField
  | .assign target value _ => target.hasField || value.hasField
  | .call _ args _ => Expr.anyHasField args
  | .unary _ operand _ => operand.hasField
  | .binary _ left right _ => left.hasField || right.hasField

/-- Whether a field is accessed in one of the expressions. -/
def Expr.anyHasField : List Expr → Bool
  | [] => false
  | first :: more => first.hasField || Expr.anyHasField more

end

mutual

/-- Whether a field is accessed in a block. -/
def Block.hasField : Block → Bool
  | .mk _ body _ => Stmt.anyHasField body

/-- Whether a field is accessed in a statement. -/
def Stmt.hasField : Stmt → Bool
  | .assign target value _ => target.hasField || value.hasField
  | .increment value _ | .decrement value _ | .read value _ | .write value _ => value.hasField
  | .ifThen cond body _ | .whileLoop cond body _ | .repeatLoop cond body _ => cond.hasField || body.hasField
  | .ifElse cond yes no _ => cond.hasField || yes.hasField || no.hasField
  | .call _ args _ => Expr.anyHasField args
  | .ret none _ => false
  | .ret (some value) _ => value.hasField

/-- Whether a field is accessed in one of the statements. -/
def Stmt.anyHasField : List Stmt → Bool
  | [] => false
  | first :: more => first.hasField || Stmt.anyHasField more

end

/-- Whether a field is accessed in a declaration. -/
def Decl.hasField : Decl → Bool
  | .variable _ | .struct _ => false
  | .function decl => decl.body.hasField

/-- Whether a field is accessed in a program. -/
def Program.hasField (p : Program) : Bool := p.decls.any Decl.hasField

/-! ### Relabelled trees -/

theorem Location.hasField_relabel (f : Relabel) (location : Location) :
    (location.relabel f).hasField = location.hasField := by
  cases location <;> rfl

mutual

theorem Expr.hasField_relabel (f : Relabel) : ∀ e : Expr, (e.relabel f).hasField = e.hasField
  | .literal _ _ => rfl
  | .place location _ => location.hasField_relabel f
  | .assign target value _ | .binary _ target value _ => by
    rw [relabel, hasField, hasField, target.hasField_relabel f, value.hasField_relabel f]
  | .call _ args _ => Expr.anyHasField_relabel f args
  | .unary _ operand _ => operand.hasField_relabel f

theorem Expr.anyHasField_relabel (f : Relabel) : ∀ es : List Expr, anyHasField (relabelAll f es) = anyHasField es
  | [] => rfl
  | first :: more => by
    rw [relabelAll, anyHasField, anyHasField, first.hasField_relabel f, Expr.anyHasField_relabel f more]

end

mutual

theorem Block.hasField_relabel (f : Relabel) : ∀ b : Block, (b.relabel f).hasField = b.hasField
  | .mk _ body _ => Stmt.anyHasField_relabel f body

theorem Stmt.hasField_relabel (f : Relabel) : ∀ s : Stmt, (s.relabel f).hasField = s.hasField
  | .assign target value _ => by
    rw [Stmt.relabel, Stmt.hasField, Stmt.hasField, target.hasField_relabel f, value.hasField_relabel f]
  | .increment value _ | .decrement value _ | .read value _ | .write value _ => value.hasField_relabel f
  | .ifThen cond body _ | .whileLoop cond body _ | .repeatLoop cond body _ => by
    rw [Stmt.relabel, Stmt.hasField, Stmt.hasField, cond.hasField_relabel f, body.hasField_relabel f]
  | .ifElse cond yes no _ => by
    rw [Stmt.relabel, Stmt.hasField, Stmt.hasField, cond.hasField_relabel f, yes.hasField_relabel f,
      no.hasField_relabel f]
  | .call _ args _ => Expr.anyHasField_relabel f args
  | .ret none _ => rfl
  | .ret (some value) _ => value.hasField_relabel f

theorem Stmt.anyHasField_relabel (f : Relabel) : ∀ ss : List Stmt,
    Stmt.anyHasField (Stmt.relabelAll f ss) = Stmt.anyHasField ss
  | [] => rfl
  | first :: more => by
    rw [Stmt.relabelAll, Stmt.anyHasField, Stmt.anyHasField, first.hasField_relabel f,
      Stmt.anyHasField_relabel f more]

end

/-- Other labels make no field access. -/
theorem Program.hasField_relabel (f : Relabel) (p : Program) : (p.relabel f).hasField = p.hasField := by
  have hdecl : ∀ d : Decl, (d.relabel f).hasField = d.hasField := by
    rintro (_ | d | _)
    · rfl
    · exact d.body.hasField_relabel f
    · rfl
  simp only [hasField, relabel, List.any_map, Function.comp_def, hdecl]

/-! ## Dots of the grammar -/

/-- If a dot comes next, a name stands here. -/
def TokenKind.goesBefore (k next : TokenKind) : Prop := next = .mark .dot → ∃ name, k = .ident name

/-- Every dot follows a name. -/
structure DotsFollowNames (ks : List TokenKind) : Prop where
  first : ks.head? ≠ some (.mark .dot)
  chain : ks.IsChain TokenKind.goesBefore

theorem dotsFollowNames_nil : DotsFollowNames [] := ⟨nofun, .nil⟩

theorem DotsFollowNames.append {ks ls : List TokenKind} (hks : DotsFollowNames ks) (hls : DotsFollowNames ls) :
    DotsFollowNames (ks ++ ls) := by
  refine ⟨?_, List.isChain_append.2 ⟨hks.chain, hls.chain, fun k _ next hnext hdot => ?_⟩⟩
  · cases ks with
    | nil => exact hls.first
    | cons => exact hks.first
  · exact absurd (hdot ▸ hnext) hls.first

section
variable {k l : TokenKind} {ks ls : List TokenKind}

theorem dotsFollowNames_one (hk : k ≠ .mark .dot := by nofun) : DotsFollowNames [k] :=
  ⟨fun e => hk (Option.some.inj e), .singleton k⟩

theorem DotsFollowNames.cons (h : DotsFollowNames ks) (hk : k ≠ .mark .dot := by nofun) : DotsFollowNames (k :: ks) :=
  (dotsFollowNames_one hk).append h

theorem DotsFollowNames.concat (h : DotsFollowNames ks) (hk : k ≠ .mark .dot := by nofun) :
    DotsFollowNames (ks ++ [k]) :=
  h.append (dotsFollowNames_one hk)

theorem DotsFollowNames.join (hks : DotsFollowNames ks) (hls : DotsFollowNames ls)
    (hk : k ≠ .mark .dot := by nofun) : DotsFollowNames (ks ++ k :: ls) :=
  hks.append (hls.cons hk)

end

theorem DerivesLocation.dots {ks location} (h : DerivesLocation ks location) :
    DotsFollowNames ks ∧ ∃ name, ks.getLast? = some (.ident name) := by
  induction h with
  | name name => exact ⟨dotsFollowNames_one, name, rfl⟩
  | field last h ih =>
    obtain ⟨hdots, name, hname⟩ := ih
    refine ⟨⟨(h.starts.append _).head?_ne rfl, ?_⟩, last, by simp⟩
    refine List.isChain_append.2 ⟨hdots.chain, .cons_cons nofun (.singleton _), fun k hk next _ _ => ⟨name, ?_⟩⟩
    rw [hname] at hk
    exact (Option.some.inj hk).symm

theorem DerivesTarget.dots {ks location} (h : DerivesTarget ks location) : DotsFollowNames ks := by
  induction h with
  | location h => exact h.dots.1
  | parens _ ih => exact ih.cons.concat

mutual

theorem DerivesExpr.dots {ks e} : DerivesExpr ks e → DotsFollowNames ks
  | .level h => h.dots
  | .assign htarget hvalue => htarget.dots.join hvalue.dots

theorem DerivesLevel.dots {l ks e} : DerivesLevel l ks e → DotsFollowNames ks
  | .operand h => h.dots
  | .joined op _ hleft hright => hleft.dots.join hright.dots (by cases op <;> nofun)
  | .compared op _ hleft hright => hleft.dots.join hright.dots (by cases op <;> nofun)

theorem DerivesOperand.dots {l ks e} : DerivesOperand l ks e → DotsFollowNames ks
  | .or h | .and h | .comparison h | .sum h => h.dots
  | .product h => h.dots

theorem DerivesUnary.dots {ks e} : DerivesUnary ks e → DotsFollowNames ks
  | .atom h => h.dots
  | .op op h => h.dots.cons (by cases op <;> nofun)

theorem DerivesAtom.dots {ks e} : DerivesAtom ks e → DotsFollowNames ks
  | .literal value => dotsFollowNames_one (by cases value <;> nofun)
  | .place h => h.dots.1
  | .parens h => h.dots.cons.concat
  | .call _ h => h.dots.cons.concat.cons

theorem DerivesArgs.dots {ks es} : DerivesArgs ks es → DotsFollowNames ks
  | .none => dotsFollowNames_nil
  | .some h => h.dots

theorem DerivesExprs.dots {ks es} : DerivesExprs ks es → DotsFollowNames ks
  | .last h => h.dots
  | .cons h hmore => h.dots.join hmore.dots

end

theorem DerivesType.dots {ks type} (h : DerivesType ks type) : DotsFollowNames ks := by
  cases h with
  | struct => exact dotsFollowNames_nil.cons.cons
  | _ => exact dotsFollowNames_one

theorem DerivesFormal.dots {ks b} (h : DerivesFormal ks b) : DotsFollowNames ks := by
  cases h with
  | mk _ h => exact h.dots.concat

theorem DerivesVariable.dots {ks b} (h : DerivesVariable ks b) : DotsFollowNames ks := by
  cases h with
  | mk h => exact h.dots.concat

theorem DerivesAll.dots {α : Type} {derives : List TokenKind → α → Prop} {ks : List TokenKind} {as : List α}
    (h : DerivesAll derives ks as) (hdots : ∀ ks a, derives ks a → DotsFollowNames ks) : DotsFollowNames ks := by
  induction h with
  | nil => exact dotsFollowNames_nil
  | cons hfirst _ ih => exact (hdots _ _ hfirst).append ih

theorem DerivesFormals.dots {ks bs} (h : DerivesFormals ks bs) : DotsFollowNames ks := by
  induction h with
  | last h => exact h.dots
  | cons h _ ih => exact h.dots.join ih

theorem DerivesSignature.dots {ks bs} (h : DerivesSignature ks bs) : DotsFollowNames ks := by
  cases h with
  | none => exact dotsFollowNames_nil
  | some h => exact h.dots

theorem DerivesCondition.dots {ks e} (h : DerivesCondition ks e) : DotsFollowNames ks := by
  cases h with
  | mk h => exact h.dots.cons.concat

theorem DerivesSimple.dots {ks s} (h : DerivesSimple ks s) : DotsFollowNames ks := by
  cases h with
  | assign hplace hvalue => exact hplace.dots.1.join hvalue.dots
  | increment h | decrement h => exact h.dots.1.concat
  | read h => exact h.dots.1.cons.cons
  | write h => exact h.dots.cons.cons
  | call _ h => exact h.dots.cons.concat.cons
  | ret => exact dotsFollowNames_one
  | retValue h => exact h.dots.cons

mutual

theorem DerivesBlock.dots {ks b} : DerivesBlock ks b → DotsFollowNames ks
  | .mk hlocals hbody =>
    ((hlocals.dots fun _ _ h => h.dots).append hbody.dots).concat.cons

theorem DerivesStmts.dots {ks ss} : DerivesStmts ks ss → DotsFollowNames ks
  | .nil => dotsFollowNames_nil
  | .cons hfirst hmore => hfirst.dots.append hmore.dots

theorem DerivesStmt.dots {ks s} : DerivesStmt ks s → DotsFollowNames ks
  | .simple h => h.dots.concat
  | .ifThen hcond hbody | .whileLoop hcond hbody | .repeatLoop hcond hbody =>
    (hcond.dots.append hbody.dots).cons
  | .ifElse hcond hyes hno => ((hcond.dots.append hyes.dots).join hno.dots).cons

end

theorem DerivesDecl.dots {ks d} (h : DerivesDecl ks d) : DotsFollowNames ks := by
  rcases h with h | ⟨name, htype, hsignature, hbody⟩ | ⟨name, hfields⟩
  · exact h.dots
  · exact (htype.dots.join hsignature.dots.cons).join hbody.dots
  · have hfields := (hfields.dots fun _ _ h => h.dots).cons (k := .mark .lbrace)
    exact (hfields.cons (k := .ident name)).cons.append dotsFollowNames_nil.cons.cons

theorem DerivesProgram.dots {ks p} (h : DerivesProgram ks p) : DotsFollowNames ks :=
  DerivesAll.dots h fun _ _ h => h.dots

/-! ## Dots in print -/

/-- Every dot among the tokens of the words follows a name. -/
def Dotted (ws : List Word) : Prop := (tokensOf ws).IsChain TokenKind.goesBefore

section
variable {w : Word} {ws vs : List Word}

theorem Dotted.left (h : Dotted (ws ++ vs)) : Dotted ws := by
  rw [Dotted, tokensOf_append] at h
  exact h.left_of_append

theorem Dotted.right (h : Dotted (ws ++ vs)) : Dotted vs := by
  rw [Dotted, tokensOf_append] at h
  exact h.right_of_append

theorem Dotted.tail (h : Dotted (w :: ws)) : Dotted ws := by
  rw [← List.singleton_append] at h
  exact h.right

end

theorem Dotted.location {location : Location} (h : Dotted location.words) : location.hasField = false := by
  cases location with
  | name => rfl
  | field base ident resolved =>
    have hdots : Dotted [.mark .rparen, .mark .dot, ident.word, .note (.type resolved)] := h.right
    obtain ⟨hdot, -⟩ := List.isChain_cons_cons.1 hdots
    obtain ⟨name, hname⟩ := hdot rfl
    cases hname

mutual

theorem Dotted.expr : ∀ {e : Expr}, Dotted e.words → e.hasField = false
  | .literal _ _, _ => rfl
  | .place _ _, h => h.location
  | .assign _ _ _, h => by rw [Expr.hasField, Dotted.expr h.left.left.left.tail, Dotted.expr h.left.right]; rfl
  | .call _ _ _, h => by rw [Expr.hasField, Dotted.args h.left.right.tail]
  | .unary _ _ _, h => by rw [Expr.hasField, Dotted.expr h.left.tail.tail]
  | .binary _ _ _ _, h => by rw [Expr.hasField, Dotted.expr h.left.left.left.tail, Dotted.expr h.left.right]; rfl

theorem Dotted.args : ∀ {es : List Expr}, Dotted (Expr.argWords es) → Expr.anyHasField es = false
  | [], _ => rfl
  | _ :: _, h => by rw [Expr.anyHasField, Dotted.expr h.left, Dotted.furtherArgs h.right]; rfl

theorem Dotted.furtherArgs : ∀ {es : List Expr}, Dotted (Expr.furtherWords es) → Expr.anyHasField es = false
  | [], _ => rfl
  | _ :: _, h => by rw [Expr.anyHasField, Dotted.expr h.left.tail.tail, Dotted.furtherArgs h.right]; rfl

end

mutual

theorem Dotted.block : ∀ {b : Block} {indent : Nat}, Dotted (b.words indent) → b.hasField = false
  | .mk _ _ _, _, h => Dotted.stmts h.right

theorem Dotted.stmt : ∀ {s : Stmt} {indent : Nat}, Dotted (s.words indent) → s.hasField = false
  | .assign _ _ _, _, h => by
    rw [Stmt.hasField, Dotted.expr h.left.tail.left.left, Dotted.expr h.left.tail.right]; rfl
  | .increment _ _, _, h | .decrement _ _, _, h => by rw [Stmt.hasField, Dotted.expr h.left.tail.left]
  | .read _ _, _, h | .write _ _, _, h => by rw [Stmt.hasField, Dotted.expr h.left.tail.right]
  | .ifThen _ _ _, _, h | .whileLoop _ _ _, _, h | .repeatLoop _ _ _, _, h => by
    rw [Stmt.hasField, Dotted.expr h.left.left.left.right, Dotted.block h.left.right]; rfl
  | .ifElse _ _ _ _, _, h => by
    rw [Stmt.hasField, Dotted.expr h.left.left.left.left.left.left.right, Dotted.block h.left.left.left.left.right,
      Dotted.block h.left.right]; rfl
  | .call _ _ _, _, h => by rw [Stmt.hasField, Dotted.args h.left.tail.left.right.tail]
  | .ret none _, _, _ => rfl
  | .ret (some _) _, _, h => by rw [Stmt.hasField, Dotted.expr h.left.tail.right]

theorem Dotted.stmts : ∀ {ss : List Stmt} {indent : Nat}, Dotted (Stmt.listWords indent ss) →
    Stmt.anyHasField ss = false
  | [], _, _ => rfl
  | _ :: _, _, h => by rw [Stmt.anyHasField, Dotted.stmt h.left, Dotted.stmts h.right]; rfl

end

theorem Dotted.decl {d : Decl} (h : Dotted d.words) : d.hasField = false := by
  rcases d with b | d | d
  · rfl
  · exact Dotted.block h.left.right
  · rfl

theorem Dotted.program {p : Program} (h : Dotted p.words) : p.hasField = false := by
  obtain ⟨decls⟩ := p
  induction decls with
  | nil => rfl
  | cons d decls ih =>
    have hd : d.hasField = false := Dotted.decl h.left
    have hdecls : decls.any Decl.hasField = false := ih h.right
    rw [Program.hasField, List.any_cons, hd, hdecls]
    rfl

/-- The tokens of a printed program with a field access derive no program. -/
theorem Program.hasField_of_derives {p q : Program} (h : DerivesProgram (tokensOf p.words) q) : p.hasField = false :=
  Dotted.program h.dots.chain

end Namescope
