import Namescope.Proofs.Printing.Fields
/-!
# Words of derived trees

The words of a derived tree are written with the names and constants of the tokens it is derived from. If
the tree accesses no field, its words derive it again.
-/
namespace Namescope

@[simp] theorem Ident.unplaced_name (name : String) : (Ident.unplaced name).name = name := rfl

/-! ## Names and constants come from the tokens -/

theorem DerivesLocation.written {ks location} (h : DerivesLocation ks location) (hks : ∀ k ∈ ks, Writable k) :
    Written location.words := by
  induction h with
  | name name => simpa [Location.words, Ident.useWords] using hks
  | field name _ ih =>
    simp only [List.forall_mem_append, List.forall_mem_cons] at hks
    simp [Location.words, ih hks.1, hks.2.2.1]

theorem DerivesTarget.written {ks location} (h : DerivesTarget ks location) (hks : ∀ k ∈ ks, Writable k) :
    Written location.words := by
  induction h with
  | location h => exact h.written hks
  | parens _ ih =>
    simp only [List.cons_append, List.forall_mem_cons, List.forall_mem_append] at hks
    exact ih hks.2.1

theorem written_argWords (es : List Expr) : Written (Expr.argWords es) ↔ Written (Expr.furtherWords es) := by
  cases es <;> simp [Expr.argWords, Expr.furtherWords]

mutual

theorem DerivesExpr.written {ks e} : DerivesExpr ks e → (∀ k ∈ ks, Writable k) → Written e.words
  | .level h, hks => h.written hks
  | .assign htarget hvalue, hks => by
    simp only [List.forall_mem_append, List.forall_mem_cons] at hks
    simp [Expr.words, htarget.written hks.1, hvalue.written hks.2.2]

theorem DerivesLevel.written {l ks e} : DerivesLevel l ks e → (∀ k ∈ ks, Writable k) → Written e.words
  | .operand h, hks => h.written hks
  | .joined _ _ hleft hright, hks | .compared _ _ hleft hright, hks => by
    simp only [List.forall_mem_append, List.forall_mem_cons] at hks
    simp [Expr.words, hleft.written hks.1, hright.written hks.2.2]

theorem DerivesOperand.written {l ks e} : DerivesOperand l ks e → (∀ k ∈ ks, Writable k) → Written e.words
  | .or h, hks | .and h, hks | .comparison h, hks | .sum h, hks => h.written hks
  | .product h, hks => h.written hks

theorem DerivesUnary.written {ks e} : DerivesUnary ks e → (∀ k ∈ ks, Writable k) → Written e.words
  | .atom h, hks => h.written hks
  | .op op h, hks => by simp [Expr.words, h.written (List.forall_mem_cons.1 hks).2]

theorem DerivesAtom.written {ks e} : DerivesAtom ks e → (∀ k ∈ ks, Writable k) → Written e.words
  | .literal value, hks => by simpa [Expr.words] using hks
  | .place h, hks => h.written hks
  | .parens h, hks => by
    simp only [List.cons_append, List.forall_mem_cons, List.forall_mem_append] at hks
    exact h.written hks.2.1
  | .call name h, hks => by
    simp only [List.cons_append, List.forall_mem_cons, List.forall_mem_append] at hks
    simp [Expr.words, Ident.useWords, written_argWords, hks.1, h.written hks.2.2.1]

theorem DerivesArgs.written {ks es} : DerivesArgs ks es → (∀ k ∈ ks, Writable k) → Written (Expr.furtherWords es)
  | .none, _ => written_nil
  | .some h, hks => h.written hks

theorem DerivesExprs.written {ks es} : DerivesExprs ks es → (∀ k ∈ ks, Writable k) →
    Written (Expr.furtherWords es)
  | .last h, hks => by simp [Expr.furtherWords, h.written hks]
  | .cons h hmore, hks => by
    simp only [List.forall_mem_cons, List.forall_mem_append] at hks
    simp [Expr.furtherWords, h.written hks.1, hmore.written hks.2.2]

end

theorem DerivesFormal.written {ks b} (h : DerivesFormal ks b) (hks : ∀ k ∈ ks, Writable k) : Written b.words := by
  cases h with
  | mk name htype =>
    simp only [List.forall_mem_append, List.forall_mem_cons] at hks
    cases htype with
    | struct type =>
      have htype := hks.1 (.ident type) (List.mem_cons_of_mem _ List.mem_cons_self)
      simp [Binding.words, TypeRef.words, hks.2.1, htype]
    | _ => simp [Binding.words, TypeRef.words, hks.2.1]

theorem DerivesVariable.written {ks b} (h : DerivesVariable ks b) (hks : ∀ k ∈ ks, Writable k) (indent : Nat) :
    Written (b.lineWords indent) := by
  cases h with
  | mk hformal =>
    rw [List.forall_mem_append] at hks
    simp [Binding.lineWords, hformal.written hks.1]

theorem DerivesAll.forall {α : Type} {derives : List TokenKind → α → Prop} {ks : List TokenKind} {as : List α}
    (h : DerivesAll derives ks as) (hks : ∀ k ∈ ks, Writable k) {p : α → Prop}
    (hp : ∀ ks a, derives ks a → (∀ k ∈ ks, Writable k) → p a) : ∀ a ∈ as, p a := by
  induction h with
  | nil => exact nofun
  | cons hfirst _ ih =>
    rw [List.forall_mem_append] at hks
    exact List.forall_mem_cons.2 ⟨hp _ _ hfirst hks.1, ih hks.2⟩

theorem DerivesFormals.written {ks bs} (h : DerivesFormals ks bs) (hks : ∀ k ∈ ks, Writable k) :
    ∀ b ∈ bs, Written b.words := by
  induction h with
  | last h => simpa using h.written hks
  | cons h _ ih =>
    simp only [List.forall_mem_append, List.forall_mem_cons] at hks
    exact List.forall_mem_cons.2 ⟨h.written hks.1, ih hks.2.2⟩

theorem DerivesSignature.written {ks bs} (h : DerivesSignature ks bs) (hks : ∀ k ∈ ks, Writable k) :
    Written (formalWords bs) := by
  have hall : ∀ b ∈ bs, Written b.words := by
    cases h with
    | none => exact nofun
    | some h => exact h.written hks
  cases bs with
  | nil => exact written_nil
  | cons => simpa [formalWords] using hall

theorem DerivesCondition.written {ks e} (h : DerivesCondition ks e) (hks : ∀ k ∈ ks, Writable k)
    (indent : Nat) (word : Keyword) : Written (headWords indent word e) := by
  cases h with
  | mk h =>
    simp only [List.cons_append, List.forall_mem_cons, List.forall_mem_append] at hks
    simp [headWords, h.written hks.2.1]

theorem DerivesSimple.written {ks s} (h : DerivesSimple ks s) (hks : ∀ k ∈ ks, Writable k) (indent : Nat) :
    Written (s.words indent) := by
  cases h with
  | assign hplace hvalue =>
    simp only [List.forall_mem_append, List.forall_mem_cons] at hks
    simp [Stmt.words, lineWords, Expr.words, hplace.written hks.1, hvalue.written hks.2.2]
  | increment h | decrement h =>
    rw [List.forall_mem_append] at hks
    simp [Stmt.words, lineWords, Expr.words, h.written hks.1]
  | read h | write h =>
    simp only [List.forall_mem_cons] at hks
    simp [Stmt.words, lineWords, Expr.words, h.written hks.2.2]
  | call name h =>
    simp only [List.cons_append, List.forall_mem_cons, List.forall_mem_append] at hks
    simp [Stmt.words, lineWords, Ident.useWords, written_argWords, hks.1, h.written hks.2.2.1]
  | ret => simp [Stmt.words, lineWords]
  | retValue h => simp [Stmt.words, lineWords, h.written (List.forall_mem_cons.1 hks).2]

@[simp] theorem written_closeWords (indent : Nat) : Written (closeWords indent) := by
  simp [closeWords]

mutual

theorem DerivesBlock.written {ks b} : DerivesBlock ks b → (∀ k ∈ ks, Writable k) → ∀ indent : Nat,
    Written (b.words indent)
  | .mk hlocals hbody, hks, indent => by
    simp only [List.forall_mem_append, List.forall_mem_cons] at hks
    have hwritten := hlocals.forall hks.2.1.1 fun _ _ h hks => h.written hks indent
    simpa [Block.words, hbody.written hks.2.1.2] using hwritten

theorem DerivesStmts.written {ks ss} : DerivesStmts ks ss → (∀ k ∈ ks, Writable k) → ∀ indent : Nat,
    Written (Stmt.listWords indent ss)
  | .nil, _, _ => written_nil
  | .cons hfirst hmore, hks, indent => by
    rw [List.forall_mem_append] at hks
    simp [Stmt.listWords, hfirst.written hks.1, hmore.written hks.2]

theorem DerivesStmt.written {ks s} : DerivesStmt ks s → (∀ k ∈ ks, Writable k) → ∀ indent : Nat,
    Written (s.words indent)
  | .simple h, hks, indent => h.written (List.forall_mem_append.1 hks).1 indent
  | .ifThen hcond hbody, hks, indent | .whileLoop hcond hbody, hks, indent
  | .repeatLoop hcond hbody, hks, indent => by
    simp only [List.forall_mem_append, List.forall_mem_cons] at hks
    simp [Stmt.words, hcond.written hks.2.1, hbody.written hks.2.2]
  | .ifElse hcond hyes hno, hks, indent => by
    simp only [List.forall_mem_append, List.forall_mem_cons] at hks
    simp [Stmt.words, hcond.written hks.2.1.1, hyes.written hks.2.1.2, hno.written hks.2.2.2]

end

theorem DerivesDecl.written {ks d} (h : DerivesDecl ks d) (hks : ∀ k ∈ ks, Writable k) : Written d.words := by
  rcases h with h | ⟨name, htype, hsignature, hbody⟩ | ⟨name, hfields⟩
  · exact h.written hks 0
  · simp only [List.cons_append, List.append_assoc, List.forall_mem_cons, List.forall_mem_append] at hks
    have htype := (DerivesFormal.mk name htype).written
      (List.forall_mem_append.2 ⟨hks.1, List.forall_mem_singleton.2 hks.2.1⟩)
    have hresult := (written_append.1 htype).1
    simp [Decl.words, hresult, hks.2.1, hsignature.written hks.2.2.2.1, hbody.written hks.2.2.2.2.2]
  · simp only [List.cons_append, List.forall_mem_cons, List.forall_mem_append] at hks
    have hwritten := hfields.forall hks.2.2.2.1 fun _ _ h hks => h.written hks indentStep
    simpa [Decl.words, hks.2.1] using hwritten

/-- The tokens of a printed program can be written if those it is read from can. -/
theorem DerivesProgram.written {ks p} (h : DerivesProgram ks p) (hks : ∀ k ∈ ks, Writable k) : Written p.words :=
  written_flatMap.2 (DerivesAll.forall h hks fun _ _ h hks => h.written hks)

/-! ## Words derive the tree -/

theorem DerivesLevel.expr {l : OperatorLevel} {ks : List TokenKind} {e : Expr} (h : DerivesLevel l ks e) :
    DerivesExpr ks e := by
  have hand (h : DerivesLevel .and ks e) : DerivesExpr ks e := .level (.operand (.or h))
  have hcomparison (h : DerivesLevel .comparison ks e) : DerivesExpr ks e := hand (.operand (.and h))
  have hsum (h : DerivesLevel .sum ks e) : DerivesExpr ks e := hcomparison (.operand (.comparison h))
  cases l with
  | or => exact .level h
  | and => exact hand h
  | comparison => exact hcomparison h
  | sum => exact hsum h
  | product => exact hsum (.operand (.sum h))

theorem DerivesAtom.operand {ks : List TokenKind} {e : Expr} (h : DerivesAtom ks e) (l : OperatorLevel) :
    DerivesOperand l ks e := by
  cases l with
  | or => exact .or (h.level .and)
  | and => exact .and (h.level .comparison)
  | comparison => exact .comparison (h.level .sum)
  | sum => exact .sum (h.level .product)
  | product => exact .product (.atom h)

/-- Atoms joined by an operator, in parentheses. -/
theorem DerivesAtom.binary {ks ls : List TokenKind} {left right : Expr} (op : BinaryOp)
    (hleft : DerivesAtom ks left) (hright : DerivesAtom ls right) :
    DerivesAtom (.mark .lparen :: (ks ++ .mark op.mark :: ls) ++ [.mark .rparen]) (.binary op left right {}) :=
  .parens (Joined.binary op (.inl ⟨rfl, hleft.operand op.level⟩) rfl (hright.operand op.level)).expr

theorem DerivesLocation.again {ks location} (h : DerivesLocation ks location) (hfree : location.hasField = false) :
    DerivesLocation (tokensOf location.words) location := by
  cases h with
  | name name => exact .name name
  | field => cases hfree

theorem DerivesTarget.again {ks location} (h : DerivesTarget ks location) (hfree : location.hasField = false) :
    DerivesLocation (tokensOf location.words) location := by
  induction h with
  | location h => exact h.again hfree
  | parens _ ih => exact ih hfree

mutual

/-- An expression in print is an atom: a name, a constant, a call or in parentheses. -/
theorem DerivesExpr.again {ks e} : DerivesExpr ks e → e.hasField = false → DerivesAtom (tokensOf e.words) e
  | .level h, hfree => h.again hfree
  | .assign htarget hvalue, hfree => by
    simp only [Expr.hasField, Bool.or_eq_false_iff] at hfree
    have h := DerivesExpr.assign (.location (htarget.again hfree.1)) (hvalue.again hfree.2).expr
    simpa [Expr.words] using DerivesAtom.parens h

theorem DerivesLevel.again {l ks e} : DerivesLevel l ks e → e.hasField = false → DerivesAtom (tokensOf e.words) e
  | .operand h, hfree => h.again hfree
  | .joined op _ hleft hright, hfree | .compared op _ hleft hright, hfree => by
    simp only [Expr.hasField, Bool.or_eq_false_iff] at hfree
    simpa [Expr.words] using (hleft.again hfree.1).binary op (hright.again hfree.2)

theorem DerivesOperand.again {l ks e} : DerivesOperand l ks e → e.hasField = false →
    DerivesAtom (tokensOf e.words) e
  | .or h, hfree | .and h, hfree | .comparison h, hfree | .sum h, hfree => h.again hfree
  | .product h, hfree => h.again hfree

theorem DerivesUnary.again {ks e} : DerivesUnary ks e → e.hasField = false → DerivesAtom (tokensOf e.words) e
  | .atom h, hfree => h.again hfree
  | .op op h, hfree => by
    have h : DerivesLevel .product _ _ := .operand (.product (.op op (.atom (h.again hfree))))
    simpa [Expr.words] using DerivesAtom.parens h.expr

theorem DerivesAtom.again {ks e} : DerivesAtom ks e → e.hasField = false → DerivesAtom (tokensOf e.words) e
  | .literal value, _ => .literal value
  | .place h, hfree => .place (h.again hfree)
  | .parens h, hfree => h.again hfree
  | .call name h, hfree => by simpa [Expr.words, Ident.useWords] using DerivesAtom.call name (h.again hfree)

theorem DerivesArgs.again {ks es} : DerivesArgs ks es → Expr.anyHasField es = false →
    DerivesArgs (tokensOf (Expr.argWords es)) es
  | .none, _ => .none
  | .some h, hfree => .some (h.again hfree)

theorem DerivesExprs.again {ks es} : DerivesExprs ks es → Expr.anyHasField es = false →
    DerivesExprs (tokensOf (Expr.argWords es)) es
  | .last h, hfree => by
    simp only [Expr.anyHasField, Bool.or_eq_false_iff] at hfree
    simpa [Expr.argWords, Expr.furtherWords] using DerivesExprs.last (h.again hfree.1).expr
  | @DerivesExprs.cons _ _ _ (next :: more) h hmore, hfree => by
    simp only [Expr.anyHasField, Bool.or_eq_false_iff] at hfree
    have hmore := hmore.again (by simpa [Expr.anyHasField] using hfree.2)
    simpa [Expr.argWords, Expr.furtherWords] using (DerivesExprs.cons (h.again hfree.1).expr hmore)

end

theorem DerivesType.again {ks type} (h : DerivesType ks type) : DerivesType (tokensOf type.words) type := by
  cases h with
  | int => exact .int
  | bool => exact .bool
  | void => exact .void
  | struct name => exact .struct name

theorem DerivesFormal.again {ks b} (h : DerivesFormal ks b) : DerivesFormal (tokensOf b.words) b := by
  cases h with
  | mk name htype => simpa [Binding.words] using DerivesFormal.mk name htype.again

theorem DerivesVariable.again {ks b} (h : DerivesVariable ks b) (indent : Nat) :
    DerivesVariable (tokensOf (b.lineWords indent)) b := by
  cases h with
  | mk h => simpa [Binding.lineWords] using DerivesVariable.mk h.again

theorem DerivesAll.again {α : Type} {derives : List TokenKind → α → Prop} {ks : List TokenKind} {as : List α}
    (h : DerivesAll derives ks as) {words : α → List Word}
    (hwords : ∀ a ∈ as, ∀ ks, derives ks a → derives (tokensOf (words a)) a) :
    DerivesAll derives (tokensOf (as.flatMap words)) as := by
  induction h with
  | nil => exact .nil
  | cons hfirst _ ih =>
    obtain ⟨hwords, hmore⟩ := List.forall_mem_cons.1 hwords
    rw [List.flatMap_cons, tokensOf_append]
    exact .cons (hwords _ hfirst) (ih hmore)

theorem DerivesFormals.again {ks bs} (h : DerivesFormals ks bs) : DerivesFormals (tokensOf (formalWords bs)) bs := by
  induction h with
  | last h => simpa [formalWords] using DerivesFormals.last h.again
  | @cons _ _ _ bs h hmore ih =>
    cases bs with
    | nil => cases hmore
    | cons next more => simpa [formalWords] using DerivesFormals.cons h.again ih

theorem DerivesSignature.again {ks bs} (h : DerivesSignature ks bs) :
    DerivesSignature (tokensOf (formalWords bs)) bs := by
  cases h with
  | none => exact .none
  | some h => exact .some h.again

theorem DerivesCondition.again {ks e} (h : DerivesCondition ks e) (hfree : e.hasField = false) :
    DerivesCondition (.mark .lparen :: tokensOf e.words ++ [.mark .rparen]) e := by
  cases h with
  | mk h => exact .mk (h.again hfree).expr

theorem DerivesSimple.again {ks s} (h : DerivesSimple ks s) (hfree : s.hasField = false) (indent : Nat) :
    DerivesStmt (tokensOf (s.words indent)) s := by
  cases h with
  | assign hplace hvalue =>
    simp only [Stmt.hasField, Bool.or_eq_false_iff] at hfree
    have h := DerivesSimple.assign (hplace.again hfree.1) (hvalue.again hfree.2).expr
    simpa [Stmt.words, lineWords, Expr.words] using DerivesStmt.simple h
  | increment h =>
    simpa [Stmt.words, lineWords, Expr.words] using DerivesStmt.simple (.increment (h.again hfree))
  | decrement h =>
    simpa [Stmt.words, lineWords, Expr.words] using DerivesStmt.simple (.decrement (h.again hfree))
  | read h => simpa [Stmt.words, lineWords, Expr.words] using DerivesStmt.simple (.read (h.again hfree))
  | write h => simpa [Stmt.words, lineWords, Expr.words] using DerivesStmt.simple (.write (h.again hfree).expr)
  | call name h =>
    simpa [Stmt.words, lineWords, Ident.useWords] using DerivesStmt.simple (.call name (h.again hfree))
  | ret => simpa [Stmt.words, lineWords] using DerivesStmt.simple .ret
  | retValue h => simpa [Stmt.words, lineWords] using DerivesStmt.simple (.retValue (h.again hfree).expr)

mutual

theorem DerivesBlock.again {ks b} : DerivesBlock ks b → b.hasField = false → ∀ indent : Nat,
    DerivesBlock (.mark .lbrace :: (tokensOf (b.words indent) ++ [.mark .rbrace])) b
  | .mk hlocals hbody, hfree, indent => by
    have hlocals := hlocals.again fun _ _ _ h => h.again indent
    simpa [Block.words] using DerivesBlock.mk hlocals (hbody.again hfree indent)

theorem DerivesStmts.again {ks ss} : DerivesStmts ks ss → Stmt.anyHasField ss = false → ∀ indent : Nat,
    DerivesStmts (tokensOf (Stmt.listWords indent ss)) ss
  | .nil, _, _ => .nil
  | .cons hfirst hmore, hfree, indent => by
    simp only [Stmt.anyHasField, Bool.or_eq_false_iff] at hfree
    rw [Stmt.listWords, tokensOf_append]
    exact .cons (hfirst.again hfree.1 indent) (hmore.again hfree.2 indent)

theorem DerivesStmt.again {ks s} : DerivesStmt ks s → s.hasField = false → ∀ indent : Nat,
    DerivesStmt (tokensOf (s.words indent)) s
  | .simple h, hfree, indent => h.again hfree indent
  | .ifThen hcond hbody, hfree, indent => by
    simp only [Stmt.hasField, Bool.or_eq_false_iff] at hfree
    have h := DerivesStmt.ifThen (hcond.again hfree.1) (hbody.again hfree.2 (indent + indentStep))
    simpa [Stmt.words, headWords, closeWords] using h
  | .whileLoop hcond hbody, hfree, indent => by
    simp only [Stmt.hasField, Bool.or_eq_false_iff] at hfree
    have h := DerivesStmt.whileLoop (hcond.again hfree.1) (hbody.again hfree.2 (indent + indentStep))
    simpa [Stmt.words, headWords, closeWords] using h
  | .repeatLoop hcond hbody, hfree, indent => by
    simp only [Stmt.hasField, Bool.or_eq_false_iff] at hfree
    have h := DerivesStmt.repeatLoop (hcond.again hfree.1) (hbody.again hfree.2 (indent + indentStep))
    simpa [Stmt.words, headWords, closeWords] using h
  | .ifElse hcond hyes hno, hfree, indent => by
    simp only [Stmt.hasField, Bool.or_eq_false_iff] at hfree
    have h := DerivesStmt.ifElse (hcond.again hfree.1.1) (hyes.again hfree.1.2 (indent + indentStep))
      (hno.again hfree.2 (indent + indentStep))
    simpa [Stmt.words, headWords, closeWords] using h

end

theorem DerivesDecl.again {ks d} (h : DerivesDecl ks d) (hfree : d.hasField = false) :
    DerivesDecl (tokensOf d.words) d := by
  rcases h with h | ⟨name, htype, hsignature, hbody⟩ | ⟨name, hfields⟩
  · exact .variable (h.again 0)
  · have h := DerivesDecl.function name htype.again hsignature.again (hbody.again hfree indentStep)
    simpa [Decl.words] using h
  · have h := DerivesDecl.struct name (hfields.again fun _ _ _ h => h.again indentStep)
    simpa [Decl.words] using h

/-- The tokens of a printed program without field accesses derive the program. -/
theorem DerivesProgram.again {ks p} (h : DerivesProgram ks p) (hfree : p.hasField = false) :
    DerivesProgram (tokensOf p.words) p :=
  DerivesAll.again h fun d hd _ h => h.again (Bool.eq_false_iff.2 (List.any_eq_false.1 hfree d hd))

end Namescope
