import Namescope.Proofs.Reading.Grammar
/-!
# Facts about derivations

How operands are joined, that a target is a location in parentheses, which tokens an expression begins
with, and which tokens go on with it.
-/
namespace Namescope

/-! ## Operands and operators -/

theorem DerivesOperand.ofTighter {l m : OperatorLevel} {ks : List TokenKind} {e : Expr}
    (h : l.tighter? = some m) (he : DerivesLevel m ks e) : DerivesOperand l ks e := by
  cases l <;> cases h
  · exact .or he
  · exact .and he
  · exact .comparison he
  · exact .sum he

theorem DerivesOperand.ofUnary {l : OperatorLevel} {ks : List TokenKind} {e : Expr}
    (h : l.tighter? = none) (he : DerivesUnary ks e) : DerivesOperand l ks e := by
  cases l <;> cases h
  exact .product he

/-- Operands joined so far by operators of a level; without any there is one operand. -/
def Joined (l : OperatorLevel) (again : Bool) (ks : List TokenKind) (e : Expr) : Prop :=
  (again = false ∧ DerivesOperand l ks e) ∨ (again = true ∧ DerivesLevel l ks e)

theorem Joined.level {l : OperatorLevel} {again : Bool} {ks : List TokenKind} {e : Expr}
    (h : Joined l again ks e) : DerivesLevel l ks e := by
  rcases h with ⟨-, h⟩ | ⟨-, h⟩
  · exact .operand h
  · exact h

/-- One more operator and operand, unless it would be a second comparison. -/
theorem Joined.binary {again : Bool} {ks ls : List TokenKind} {left right : Expr} (op : BinaryOp)
    (h : Joined op.level again ks left) (hagain : (again && decide (op.level = .comparison)) = false)
    (hright : DerivesOperand op.level ls right) :
    DerivesLevel op.level (ks ++ .mark op.mark :: ls) (.binary op left right {}) := by
  by_cases hlevel : op.level = .comparison
  · rcases h with ⟨-, h⟩ | ⟨rfl, -⟩
    · rw [hlevel] at h hright ⊢
      exact .compared op hlevel h hright
    · simp [hlevel] at hagain
  · exact .joined op hlevel h.level hright

/-! ## Targets -/

mutual

/-- A location is derived in no other way than in parentheses. -/
theorem DerivesExpr.target {ks e} : DerivesExpr ks e → ∀ {location span}, e = .place location span →
    DerivesTarget ks location
  | .level h, _, _, he => h.target he

theorem DerivesLevel.target {l ks e} : DerivesLevel l ks e → ∀ {location span}, e = .place location span →
    DerivesTarget ks location
  | .operand h, _, _, he => h.target he

theorem DerivesOperand.target {l ks e} : DerivesOperand l ks e →
    ∀ {location span}, e = .place location span → DerivesTarget ks location
  | .or h, _, _, he | .and h, _, _, he | .comparison h, _, _, he | .sum h, _, _, he => h.target he
  | .product h, _, _, he => h.target he

theorem DerivesUnary.target {ks e} : DerivesUnary ks e → ∀ {location span}, e = .place location span →
    DerivesTarget ks location
  | .atom h, _, _, he => h.target he

theorem DerivesAtom.target {ks e} : DerivesAtom ks e → ∀ {location span}, e = .place location span →
    DerivesTarget ks location
  | .place h, _, _, he => by
    cases he
    exact .location h
  | .parens h, _, _, he => .parens (h.target he)

end

/-! ## What may follow -/

/-- How loosely a token binds what stands in front of it. -/
def TokenKind.looseness : TokenKind → Nat
  | .mark .dot | .mark .lparen => 0
  | .mark .star | .mark .slash => 1
  | .mark .plus | .mark .minus => 2
  | .mark .eqEq | .mark .notEq | .mark .lt | .mark .gt | .mark .ltEq | .mark .gtEq => 3
  | .mark .andAnd => 4
  | .mark .orOr => 5
  | .mark .assign => 6
  | _ => 7

/-- What follows binds more loosely than `n`. -/
def Follows (n : Nat) (more : List TokenKind) : Prop := ∀ k ∈ more.head?, n < k.looseness

theorem Follows.mono {m n : Nat} {more : List TokenKind} (h : Follows n more) (hmn : m ≤ n) : Follows m more :=
  fun k hk => Nat.lt_of_le_of_lt hmn (h k hk)

theorem Follows.head?_ne {n : Nat} {more : List TokenKind} (h : Follows n more) {k : TokenKind}
    (hk : k.looseness ≤ n) : more.head? ≠ some k :=
  fun hhead => Nat.not_lt_of_le hk (h k hhead)

theorem follows_cons {n : Nat} {k : TokenKind} {more : List TokenKind} (h : n < k.looseness) :
    Follows n (k :: more) := by
  rintro _ ⟨⟩
  exact h

theorem BinaryOp.looseness_mark (op : BinaryOp) : (TokenKind.mark op.mark).looseness = op.level.rank + 1 := by
  cases op <;> rfl

/-! ## Atoms are expressions -/

theorem DerivesAtom.level {ks : List TokenKind} {e : Expr} (h : DerivesAtom ks e) (l : OperatorLevel) :
    DerivesLevel l ks e := by
  have hproduct := DerivesLevel.operand (.product (.atom h))
  have hsum := DerivesLevel.operand (.sum hproduct)
  have hcomparison := DerivesLevel.operand (.comparison hsum)
  have hand := DerivesLevel.operand (.and hcomparison)
  cases l with
  | product => exact hproduct
  | sum => exact hsum
  | comparison => exact hcomparison
  | and => exact hand
  | or => exact .operand (.or hand)

theorem DerivesAtom.expr {ks : List TokenKind} {e : Expr} (h : DerivesAtom ks e) : DerivesExpr ks e :=
  .level (h.level .or)

theorem DerivesTarget.atom {ks : List TokenKind} {location : Location} (h : DerivesTarget ks location) :
    DerivesAtom ks (.place location {}) := by
  induction h with
  | location h => exact .place h
  | parens _ ih => exact .parens ih.expr

/-- The tokens that an expression can begin with. -/
def TokenKind.startsExpr : TokenKind → Bool
  | .ident _ | .int _ | .string _ | .bool _ | .mark .lparen | .mark .minus | .mark .bang => true
  | _ => false

/-- A token that an expression can begin with stands first. -/
def StartsExpr (ks : List TokenKind) : Prop := ∃ k ls, ks = k :: ls ∧ k.startsExpr = true

theorem StartsExpr.append {ks : List TokenKind} (h : StartsExpr ks) (ls : List TokenKind) :
    StartsExpr (ks ++ ls) := by
  obtain ⟨k, front, rfl, hk⟩ := h
  exact ⟨k, front ++ ls, rfl, hk⟩

theorem StartsExpr.head?_ne {ks : List TokenKind} (h : StartsExpr ks) {k : TokenKind}
    (hk : k.startsExpr = false) : ks.head? ≠ some k := by
  obtain ⟨first, ls, rfl, hfirst⟩ := h
  rintro ⟨⟩
  rw [hk] at hfirst
  cases hfirst

theorem DerivesLocation.starts {ks location} (h : DerivesLocation ks location) : StartsExpr ks := by
  induction h with
  | name name => exact ⟨_, [], rfl, rfl⟩
  | field _ _ ih => exact ih.append _

theorem DerivesTarget.starts {ks location} (h : DerivesTarget ks location) : StartsExpr ks := by
  induction h with
  | location h => exact h.starts
  | parens => exact ⟨_, _, rfl, rfl⟩

mutual

theorem DerivesExpr.starts {ks e} : DerivesExpr ks e → StartsExpr ks
  | .level h => h.starts
  | .assign h _ => h.starts.append _

theorem DerivesLevel.starts {l ks e} : DerivesLevel l ks e → StartsExpr ks
  | .operand h => h.starts
  | .joined _ _ h _ => h.starts.append _
  | .compared _ _ h _ => h.starts.append _

theorem DerivesOperand.starts {l ks e} : DerivesOperand l ks e → StartsExpr ks
  | .or h | .and h | .comparison h | .sum h => h.starts
  | .product h => h.starts

theorem DerivesUnary.starts {ks e} : DerivesUnary ks e → StartsExpr ks
  | .atom h => h.starts
  | .op op _ => ⟨_, _, rfl, by cases op <;> rfl⟩

theorem DerivesAtom.starts {ks e} : DerivesAtom ks e → StartsExpr ks
  | .literal value => ⟨_, _, rfl, by cases value <;> rfl⟩
  | .place h => h.starts
  | .parens _ | .call _ _ => ⟨_, _, rfl, rfl⟩

end

theorem DerivesExprs.starts {ks es} (h : DerivesExprs ks es) : StartsExpr ks := by
  cases h with
  | last h => exact h.starts
  | cons h => exact h.starts.append _

/-- A location begins with its first name, which no parenthesis follows. -/
theorem DerivesLocation.exists_cons {ks : List TokenKind} {location : Location}
    (h : DerivesLocation ks location) : ∃ name ls, ks = .ident name :: ls ∧
      ∀ more : List TokenKind, more.head? ≠ some (.mark .lparen) → (ls ++ more).head? ≠ some (.mark .lparen) := by
  induction h with
  | name name => exact ⟨name, [], rfl, fun _ hmore => hmore⟩
  | @field _ _ last _ ih =>
    obtain ⟨name, ls, rfl, hls⟩ := ih
    refine ⟨name, ls ++ [.mark .dot, .ident last], rfl, fun more _ => ?_⟩
    rw [List.append_assoc]
    exact hls _ nofun

/-- An atom does not begin with a prefix operator. -/
theorem DerivesAtom.exists_cons {ks : List TokenKind} {e : Expr} (h : DerivesAtom ks e) :
    ∃ k ls, ks = k :: ls ∧ ∀ op : UnaryOp, k ≠ .mark op.mark := by
  cases h with
  | literal value => exact ⟨_, _, rfl, by cases value <;> exact nofun⟩
  | place hlocation =>
    obtain ⟨name, ls, rfl, -⟩ := hlocation.exists_cons
    exact ⟨_, _, rfl, nofun⟩
  | parens => exact ⟨_, _, rfl, fun op => by cases op <;> exact nofun⟩
  | call => exact ⟨_, _, rfl, nofun⟩

end Namescope
