import Namescope.Token.Basic
/-!
# Program trees

A program is a list of declarations; a block holds local variables and then statements. Every
identifier can carry the symbol it was resolved to, and every field access the type it yields.
-/
namespace Namescope

/-- The number of a symbol in a symbol table. The program keeps it in four bytes, which tell `2 ^ 32` symbols apart;
here numbers have no bound, and what is said about them is meant for tables of fewer symbols than that. -/
structure SymbolId where
  index : Nat
  deriving DecidableEq

/-- An occurrence of a name. -/
structure Ident where
  name : String
  span : Span
  sym : Option SymbolId := none
  deriving DecidableEq

/-- A type as written. -/
inductive TypeKind where
  | int | bool | void
  | struct (name : Ident)
  deriving DecidableEq

/-- A type and where it is written. -/
structure TypeRef where
  kind : TypeKind
  span : Span
  deriving DecidableEq

/-- A type and the name it is given to: a variable, a formal or a field. -/
structure Binding where
  type : TypeRef
  name : Ident
  span : Span
  deriving DecidableEq

/-- A constant. A string keeps its quotes and escapes as written. -/
inductive Literal where
  | int (value : Int)
  | string (raw : String)
  | bool (value : Bool)
  deriving DecidableEq

/-- A name, or a field of a location; `resolved` is the type that the field was found to have. -/
inductive Location where
  | name (ident : Ident)
  | field (base : Location) (ident : Ident) (resolved : Option String)
  deriving DecidableEq

namespace Location

/-- From the first name of the chain to its last. -/
def span : Location → Span
  | name ident => ident.span
  | field base ident _ => base.span.merge ident.span

end Location

/-- Operators with one operand. -/
inductive UnaryOp where
  | neg | not
  deriving DecidableEq

/-- The mark of a unary operator. -/
def UnaryOp.mark : UnaryOp → Mark
  | neg => .minus
  | not => .bang

/-- Operators with two operands. -/
inductive BinaryOp where
  | add | sub | mul | div | and | or | eq | notEq | lt | gt | ltEq | gtEq
  deriving DecidableEq

/-- The mark of a binary operator. -/
def BinaryOp.mark : BinaryOp → Mark
  | add => .plus
  | sub => .minus
  | mul => .star
  | div => .slash
  | and => .andAnd
  | or => .orOr
  | eq => .eqEq
  | notEq => .notEq
  | lt => .lt
  | gt => .gt
  | ltEq => .ltEq
  | gtEq => .gtEq

/-- Expressions. -/
inductive Expr where
  | literal (value : Literal) (span : Span)
  | place (location : Location) (span : Span)
  | assign (target value : Expr) (span : Span)
  | call (callee : Ident) (args : List Expr) (span : Span)
  | unary (op : UnaryOp) (operand : Expr) (span : Span)
  | binary (op : BinaryOp) (left right : Expr) (span : Span)

namespace Expr

/-- Where an expression stands, the parentheses around it included. -/
def span : Expr → Span
  | literal _ span | place _ span | assign _ _ span | call _ _ span | unary _ _ span
  | binary _ _ _ span => span

/-- The expression at another span. -/
def withSpan (span : Span) : Expr → Expr
  | literal value _ => literal value span
  | place location _ => place location span
  | assign target value _ => assign target value span
  | call callee args _ => call callee args span
  | unary op operand _ => unary op operand span
  | binary op left right _ => binary op left right span

/-- Whether a value can be assigned to the expression. -/
def isLocation : Expr → Bool
  | place _ _ => true
  | _ => false

end Expr

mutual

/-- Local variables and the statements that see them. -/
inductive Block where
  | mk (locals : List Binding) (body : List Stmt) (span : Span)

/-- Statements. -/
inductive Stmt where
  | assign (target value : Expr) (span : Span)
  | increment (target : Expr) (span : Span)
  | decrement (target : Expr) (span : Span)
  | read (target : Expr) (span : Span)
  | write (value : Expr) (span : Span)
  | ifThen (cond : Expr) (yes : Block) (span : Span)
  | ifElse (cond : Expr) (yes no : Block) (span : Span)
  | whileLoop (cond : Expr) (body : Block) (span : Span)
  | repeatLoop (cond : Expr) (body : Block) (span : Span)
  | call (callee : Ident) (args : List Expr) (span : Span)
  | ret (value : Option Expr) (span : Span)

end

namespace Block

/-- The local variables of a block. -/
def locals : Block → List Binding
  | mk locals _ _ => locals

/-- The statements of a block. -/
def body : Block → List Stmt
  | mk _ body _ => body

/-- From the opening brace of a block to the closing one. -/
def span : Block → Span
  | mk _ _ span => span

end Block

/-- A function and its body. -/
structure FunctionDecl where
  result : TypeRef
  name : Ident
  formals : List Binding
  body : Block
  span : Span

/-- A struct type and its fields. -/
structure StructDecl where
  name : Ident
  fields : List Binding
  span : Span
  deriving DecidableEq

/-- What stands at the top of a program. -/
inductive Decl where
  | variable (binding : Binding)
  | function (decl : FunctionDecl)
  | struct (decl : StructDecl)

/-- A whole program. -/
structure Program where
  decls : List Decl

end Namescope
