import Namescope.Proofs.Tree.Relabel
import Namescope.Reading.Program
import Namescope.Tree.Words
/-!
# The grammar

Which token kinds stand for which tree, said by rules alone. The levels of binary operators are written
out, so that no token list has two trees. The trees of the grammar stand nowhere: all their spans are
empty, and nothing in them is resolved.
-/
namespace Namescope

/-! ## Trees that stand nowhere -/

/-- Takes away where the parts of a tree stand. -/
def Relabel.unplaced : Relabel := { span := fun _ => {} }

/-- A name that stands nowhere. -/
def Ident.unplaced (name : String) : Ident := ⟨name, {}, none⟩

/-- The level of a binary operator. -/
def BinaryOp.level : BinaryOp → OperatorLevel
  | or => .or
  | and => .and
  | eq | notEq | lt | gt | ltEq | gtEq => .comparison
  | add | sub => .sum
  | mul | div => .product

/-! ## Expressions -/

/-- A name and the fields after it. -/
inductive DerivesLocation : List TokenKind → Location → Prop
  | name (name : String) : DerivesLocation [.ident name] (.name (.unplaced name))
  | field {ks base} (name : String) : DerivesLocation ks base →
      DerivesLocation (ks ++ [.mark .dot, .ident name]) (.field base (.unplaced name) none)

/-- What can be assigned to: a location in zero or more parentheses. -/
inductive DerivesTarget : List TokenKind → Location → Prop
  | location {ks location} : DerivesLocation ks location → DerivesTarget ks location
  | parens {ks location} : DerivesTarget ks location →
      DerivesTarget (.mark .lparen :: ks ++ [.mark .rparen]) location

mutual

/-- Expressions: assignment binds loosest and to the right. -/
inductive DerivesExpr : List TokenKind → Expr → Prop
  | level {ks e} : DerivesLevel .or ks e → DerivesExpr ks e
  | assign {ks location ls value} : DerivesTarget ks location → DerivesExpr ls value →
      DerivesExpr (ks ++ .mark .assign :: ls) (.assign (.place location {}) value {})

/-- Operands joined by the operators of a level. All bind to the left but comparisons, of which there is
one at most. -/
inductive DerivesLevel : OperatorLevel → List TokenKind → Expr → Prop
  | operand {l ks e} : DerivesOperand l ks e → DerivesLevel l ks e
  | joined {ks left ls right} (op : BinaryOp) : op.level ≠ .comparison →
      DerivesLevel op.level ks left → DerivesOperand op.level ls right →
      DerivesLevel op.level (ks ++ .mark op.mark :: ls) (.binary op left right {})
  | compared {ks left ls right} (op : BinaryOp) : op.level = .comparison →
      DerivesOperand .comparison ks left → DerivesOperand .comparison ls right →
      DerivesLevel .comparison (ks ++ .mark op.mark :: ls) (.binary op left right {})

/-- The operands of a level are the expressions of the next tighter one. -/
inductive DerivesOperand : OperatorLevel → List TokenKind → Expr → Prop
  | or {ks e} : DerivesLevel .and ks e → DerivesOperand .or ks e
  | and {ks e} : DerivesLevel .comparison ks e → DerivesOperand .and ks e
  | comparison {ks e} : DerivesLevel .sum ks e → DerivesOperand .comparison ks e
  | sum {ks e} : DerivesLevel .product ks e → DerivesOperand .sum ks e
  | product {ks e} : DerivesUnary ks e → DerivesOperand .product ks e

/-- Prefix operators bind tightest. -/
inductive DerivesUnary : List TokenKind → Expr → Prop
  | atom {ks e} : DerivesAtom ks e → DerivesUnary ks e
  | op {ks e} (op : UnaryOp) : DerivesUnary ks e → DerivesUnary (.mark op.mark :: ks) (.unary op e {})

/-- Constants, locations, expressions in parentheses and calls. -/
inductive DerivesAtom : List TokenKind → Expr → Prop
  | literal (value : Literal) : DerivesAtom [value.token] (.literal value {})
  | place {ks location} : DerivesLocation ks location → DerivesAtom ks (.place location {})
  | parens {ks e} : DerivesExpr ks e → DerivesAtom (.mark .lparen :: ks ++ [.mark .rparen]) e
  | call {ks args} (name : String) : DerivesArgs ks args →
      DerivesAtom (.ident name :: .mark .lparen :: ks ++ [.mark .rparen]) (.call (.unplaced name) args {})

/-- The arguments of a call. -/
inductive DerivesArgs : List TokenKind → List Expr → Prop
  | none : DerivesArgs [] []
  | some {ks es} : DerivesExprs ks es → DerivesArgs ks es

/-- Expressions separated by commas. -/
inductive DerivesExprs : List TokenKind → List Expr → Prop
  | last {ks e} : DerivesExpr ks e → DerivesExprs ks [e]
  | cons {ks e ls es} : DerivesExpr ks e → DerivesExprs ls es →
      DerivesExprs (ks ++ .mark .comma :: ls) (e :: es)

end

/-! ## Types and variables -/

/-- Types. -/
inductive DerivesType : List TokenKind → TypeRef → Prop
  | int : DerivesType [.keyword .int] ⟨.int, {}⟩
  | bool : DerivesType [.keyword .bool] ⟨.bool, {}⟩
  | void : DerivesType [.keyword .void] ⟨.void, {}⟩
  | struct (name : String) : DerivesType [.keyword .struct, .ident name] ⟨.struct (.unplaced name), {}⟩

/-- A type and a name. -/
inductive DerivesFormal : List TokenKind → Binding → Prop
  | mk {ks type} (name : String) : DerivesType ks type →
      DerivesFormal (ks ++ [.ident name]) ⟨type, .unplaced name, {}⟩

/-- A type, a name and a semicolon. -/
inductive DerivesVariable : List TokenKind → Binding → Prop
  | mk {ks binding} : DerivesFormal ks binding → DerivesVariable (ks ++ [.mark .semicolon]) binding

/-- Any number of things, one after the other. -/
inductive DerivesAll {α : Type} (derives : List TokenKind → α → Prop) : List TokenKind → List α → Prop
  | nil : DerivesAll derives [] []
  | cons {ks a ls as} : derives ks a → DerivesAll derives ls as → DerivesAll derives (ks ++ ls) (a :: as)

/-- Formals separated by commas. -/
inductive DerivesFormals : List TokenKind → List Binding → Prop
  | last {ks b} : DerivesFormal ks b → DerivesFormals ks [b]
  | cons {ks b ls bs} : DerivesFormal ks b → DerivesFormals ls bs →
      DerivesFormals (ks ++ .mark .comma :: ls) (b :: bs)

/-- What stands between the parentheses of a function. -/
inductive DerivesSignature : List TokenKind → List Binding → Prop
  | none : DerivesSignature [] []
  | some {ks bs} : DerivesFormals ks bs → DerivesSignature ks bs

/-! ## Statements -/

/-- An expression in parentheses. -/
inductive DerivesCondition : List TokenKind → Expr → Prop
  | mk {ks e} : DerivesExpr ks e → DerivesCondition (.mark .lparen :: ks ++ [.mark .rparen]) e

/-- A statement that ends with a semicolon, without the semicolon. -/
inductive DerivesSimple : List TokenKind → Stmt → Prop
  | assign {ks location ls value} : DerivesLocation ks location → DerivesExpr ls value →
      DerivesSimple (ks ++ .mark .assign :: ls) (.assign (.place location {}) value {})
  | increment {ks location} : DerivesLocation ks location →
      DerivesSimple (ks ++ [.mark .plusPlus]) (.increment (.place location {}) {})
  | decrement {ks location} : DerivesLocation ks location →
      DerivesSimple (ks ++ [.mark .minusMinus]) (.decrement (.place location {}) {})
  | read {ks location} : DerivesLocation ks location →
      DerivesSimple (.keyword .cin :: .mark .shiftRight :: ks) (.read (.place location {}) {})
  | write {ks value} : DerivesExpr ks value →
      DerivesSimple (.keyword .cout :: .mark .shiftLeft :: ks) (.write value {})
  | call {ks args} (name : String) : DerivesArgs ks args →
      DerivesSimple (.ident name :: .mark .lparen :: ks ++ [.mark .rparen]) (.call (.unplaced name) args {})
  | ret : DerivesSimple [.keyword .returnWord] (.ret none {})
  | retValue {ks value} : DerivesExpr ks value →
      DerivesSimple (.keyword .returnWord :: ks) (.ret (some value) {})

mutual

/-- Local variables and then statements, in braces. -/
inductive DerivesBlock : List TokenKind → Block → Prop
  | mk {ks locals ls body} : DerivesAll DerivesVariable ks locals → DerivesStmts ls body →
      DerivesBlock (.mark .lbrace :: (ks ++ ls ++ [.mark .rbrace])) (.mk locals body {})

/-- Statements one after the other. -/
inductive DerivesStmts : List TokenKind → List Stmt → Prop
  | nil : DerivesStmts [] []
  | cons {ks first ls more} : DerivesStmt ks first → DerivesStmts ls more →
      DerivesStmts (ks ++ ls) (first :: more)

/-- Statements. -/
inductive DerivesStmt : List TokenKind → Stmt → Prop
  | simple {ks s} : DerivesSimple ks s → DerivesStmt (ks ++ [.mark .semicolon]) s
  | ifThen {ks cond ls yes} : DerivesCondition ks cond → DerivesBlock ls yes →
      DerivesStmt (.keyword .ifWord :: (ks ++ ls)) (.ifThen cond yes {})
  | ifElse {ks cond ls yes ms no} : DerivesCondition ks cond → DerivesBlock ls yes → DerivesBlock ms no →
      DerivesStmt (.keyword .ifWord :: (ks ++ ls ++ .keyword .elseWord :: ms)) (.ifElse cond yes no {})
  | whileLoop {ks cond ls body} : DerivesCondition ks cond → DerivesBlock ls body →
      DerivesStmt (.keyword .whileWord :: (ks ++ ls)) (.whileLoop cond body {})
  | repeatLoop {ks cond ls body} : DerivesCondition ks cond → DerivesBlock ls body →
      DerivesStmt (.keyword .repeatWord :: (ks ++ ls)) (.repeatLoop cond body {})

end

/-! ## Declarations -/

/-- Declarations: a struct is defined where a brace follows its name. -/
inductive DerivesDecl : List TokenKind → Decl → Prop
  | variable {ks binding} : DerivesVariable ks binding → DerivesDecl ks (.variable binding)
  | function {ks result ls formals ms body} (name : String) : DerivesType ks result →
      DerivesSignature ls formals → DerivesBlock ms body →
      DerivesDecl (ks ++ .ident name :: .mark .lparen :: ls ++ .mark .rparen :: ms)
        (.function ⟨result, .unplaced name, formals, body, {}⟩)
  | struct {ks fields} (name : String) : DerivesAll DerivesVariable ks fields →
      DerivesDecl (.keyword .struct :: .ident name :: .mark .lbrace :: ks ++ [.mark .rbrace, .mark .semicolon])
        (.struct ⟨.unplaced name, fields, {}⟩)

/-- A program is declarations up to the end. -/
def DerivesProgram (ks : List TokenKind) (p : Program) : Prop := DerivesAll DerivesDecl ks p.decls

end Namescope
