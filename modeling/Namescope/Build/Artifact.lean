import Namescope.Build.Metadata
import Namescope.Naming.Symbol
/-!
# The program artifact

A resolved program and its symbols as bytes. Every case of a type has a number of four bytes, in the
order of its declaration here, and then its parts.
-/
namespace Namescope

/-- The number of a case. -/
def caseNumber (n : Nat) : Bytes := Bytes.ofNat32 n

namespace Bytes

/-- A span. -/
def ofSpan (span : Span) : Bytes :=
  ofNat64 span.start ++ ofNat64 span.stop ++ ofNat32 span.line ++ ofNat32 span.col

/-- The number of a symbol. -/
def ofSymbolId (id : SymbolId) : Bytes := ofNat32 id.index

/-- An identifier. -/
def ofIdent (ident : Ident) : Bytes :=
  ofString ident.name ++ ofSpan ident.span ++ ofOption ofSymbolId ident.sym

/-- A type. -/
def ofTypeRef (type : TypeRef) : Bytes :=
  (match type.kind with
    | .int => caseNumber 0
    | .bool => caseNumber 1
    | .void => caseNumber 2
    | .struct name => caseNumber 3 ++ ofIdent name) ++ ofSpan type.span

/-- A variable, formal or field. -/
def ofBinding (binding : Binding) : Bytes :=
  ofTypeRef binding.type ++ ofIdent binding.name ++ ofSpan binding.span

/-- A constant. -/
def ofLiteral : Literal → Bytes
  | .int value => caseNumber 0 ++ ofInt32 value
  | .string raw => caseNumber 1 ++ ofString raw
  | .bool value => caseNumber 2 ++ ofBool value

/-- A unary operator. -/
def ofUnaryOp : UnaryOp → Bytes
  | .neg => caseNumber 0
  | .not => caseNumber 1

/-- A binary operator. -/
def ofBinaryOp : BinaryOp → Bytes
  | .add => caseNumber 0
  | .sub => caseNumber 1
  | .mul => caseNumber 2
  | .div => caseNumber 3
  | .and => caseNumber 4
  | .or => caseNumber 5
  | .eq => caseNumber 6
  | .notEq => caseNumber 7
  | .lt => caseNumber 8
  | .gt => caseNumber 9
  | .ltEq => caseNumber 10
  | .gtEq => caseNumber 11

/-- A location with its case number. -/
def ofLocation : Location → Bytes
  | .name ident => caseNumber 0 ++ ofIdent ident
  | .field base ident resolved =>
    caseNumber 1 ++ ofLocation base ++ ofIdent ident ++ ofOption ofString resolved

/-- A location as an expression. -/
def ofPlace : Location → Bytes
  | .name ident => caseNumber 1 ++ ofIdent ident
  | .field base ident resolved =>
    caseNumber 2 ++ ofLocation base ++ ofIdent ident ++ ofOption ofString resolved

mutual

/-- An expression. -/
def ofExpr : Expr → Bytes
  | .literal value span => caseNumber 0 ++ ofLiteral value ++ ofSpan span
  | .place location span => ofPlace location ++ ofSpan span
  | .assign target value span => caseNumber 3 ++ ofExpr target ++ ofExpr value ++ ofSpan span
  | .call callee args span =>
    caseNumber 4 ++ ofIdent callee ++ ofNat64 args.length ++ ofExprs args ++ ofSpan span
  | .unary op operand span => caseNumber 5 ++ ofUnaryOp op ++ ofExpr operand ++ ofSpan span
  | .binary op left right span =>
    caseNumber 6 ++ ofBinaryOp op ++ ofExpr left ++ ofExpr right ++ ofSpan span

/-- Expressions one after the other. -/
def ofExprs : List Expr → Bytes
  | [] => []
  | first :: more => ofExpr first ++ ofExprs more

end

mutual

/-- A block. -/
def ofBlock : Block → Bytes
  | .mk locals body span =>
    ofList ofBinding locals ++ ofNat64 body.length ++ ofStmts body ++ ofSpan span

/-- A statement. -/
def ofStmt : Stmt → Bytes
  | .assign target value span => caseNumber 0 ++ ofExpr target ++ ofExpr value ++ ofSpan span
  | .increment target span => caseNumber 1 ++ ofExpr target ++ ofSpan span
  | .decrement target span => caseNumber 2 ++ ofExpr target ++ ofSpan span
  | .read target span => caseNumber 3 ++ ofExpr target ++ ofSpan span
  | .write value span => caseNumber 4 ++ ofExpr value ++ ofSpan span
  | .ifThen cond yes span => caseNumber 5 ++ ofExpr cond ++ ofBlock yes ++ [0] ++ ofSpan span
  | .ifElse cond yes no span =>
    caseNumber 5 ++ ofExpr cond ++ ofBlock yes ++ 1 :: ofBlock no ++ ofSpan span
  | .whileLoop cond body span => caseNumber 6 ++ ofExpr cond ++ ofBlock body ++ ofSpan span
  | .repeatLoop cond body span => caseNumber 7 ++ ofExpr cond ++ ofBlock body ++ ofSpan span
  | .call callee args span =>
    caseNumber 8 ++ ofIdent callee ++ ofNat64 args.length ++ ofExprs args ++ ofSpan span
  | .ret value span => caseNumber 9 ++ ofOption ofExpr value ++ ofSpan span

/-- Statements one after the other. -/
def ofStmts : List Stmt → Bytes
  | [] => []
  | first :: more => ofStmt first ++ ofStmts more

end

/-- A declaration. -/
def ofDecl : Decl → Bytes
  | .variable binding => caseNumber 0 ++ ofBinding binding
  | .function decl =>
    caseNumber 1 ++ ofTypeRef decl.result ++ ofIdent decl.name ++ ofList ofBinding decl.formals ++
      ofBlock decl.body ++ ofSpan decl.span
  | .struct decl =>
    caseNumber 2 ++ ofIdent decl.name ++ ofList ofBinding decl.fields ++ ofSpan decl.span

/-- A program. -/
def ofProgram (program : Program) : Bytes := ofList ofDecl program.decls

/-- The type of a symbol. -/
def ofTypeName : TypeName → Bytes
  | .int => caseNumber 0
  | .bool => caseNumber 1
  | .void => caseNumber 2
  | .struct name => caseNumber 3 ++ ofString name

/-- A field and its symbol. -/
def ofField (entry : String × SymbolId) : Bytes := ofString entry.1 ++ ofSymbolId entry.2

/-- What a symbol stands for. -/
def ofSymbolKind : SymbolKind → Bytes
  | .scalar type => caseNumber 0 ++ ofTypeName type
  | .function params result => caseNumber 1 ++ ofList ofTypeName params ++ ofTypeName result
  | .struct fields => caseNumber 2 ++ ofList ofField fields.entries

/-- A symbol. -/
def ofSymbol (symbol : Symbol) : Bytes :=
  ofString symbol.name ++ ofSymbolKind symbol.kind ++ ofSpan symbol.span

/-- A symbol table. -/
def ofSymbolTable (table : SymbolTable) : Bytes := ofList ofSymbol table.symbols

end Bytes

/-- A resolved program with its symbols. -/
structure Artifact where
  version : Nat
  program : Program
  table : SymbolTable

/-- An artifact as bytes. -/
def Artifact.encode (a : Artifact) : Bytes :=
  Bytes.ofNat32 a.version ++ Bytes.ofProgram a.program ++ Bytes.ofSymbolTable a.table

end Namescope
