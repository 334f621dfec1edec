import Namescope.Outline.Basic
import Namescope.Text.Quoted
import Namescope.Tree.Basic
/-!
# The outline of a program

Every node of a program tree with all its parts, places and symbols included.
-/
namespace Namescope

/-- A number. -/
def Outline.nat (n : Nat) : Outline := .word (String.ofList (Text.digits n))

/-- A span. -/
def Span.outline (span : Span) : Outline :=
  .record "Span" [("start", .nat span.start), ("end", .nat span.stop), ("line", .nat span.line),
    ("col", .nat span.col)]

/-- The number of a symbol. -/
def SymbolId.outline (id : SymbolId) : Outline := .around "SymbolId" (.nat id.index)

/-- An occurrence of a name. -/
def Ident.outline (ident : Ident) : Outline :=
  .record "Ident" [("name", .word (Text.quoted ident.name)), ("span", ident.span.outline),
    ("sym", .option (ident.sym.map SymbolId.outline))]

/-- A type as written. -/
def TypeKind.outline : TypeKind → Outline
  | int => .word "Int"
  | bool => .word "Bool"
  | void => .word "Void"
  | struct name => .around "Struct" name.outline

/-- A type and where it is written. -/
def TypeRef.outline (type : TypeRef) : Outline :=
  .record "TypeRef" [("kind", type.kind.outline), ("span", type.span.outline)]

/-- A binding that goes by a given name. -/
def Binding.outline (role : String) (binding : Binding) : Outline :=
  .record role [("ty", binding.type.outline), ("name", binding.name.outline), ("span", binding.span.outline)]

/-- A variable or field. -/
def Binding.variableOutline : Binding → Outline := Binding.outline "VarDecl"

/-- A formal. -/
def Binding.formalOutline : Binding → Outline := Binding.outline "FormalDecl"

/-- A constant. -/
def Literal.outline : Literal → Outline
  | int value => .around "Int" (.word (String.ofList (Text.signed value)))
  | string raw => .around "Str" (.word (Text.quoted raw))
  | bool value => .around "Bool" (.word (if value then "true" else "false"))

/-- A location. -/
def Location.outline : Location → Outline
  | name ident => .around "Ident" ident.outline
  | field base ident resolved =>
    .around "Dot" <| .record "DotAccess" [("base", base.outline), ("field", ident.outline),
      ("resolved", .option (resolved.map fun type => .word (Text.quoted type)))]

/-- A unary operator. -/
def UnaryOp.outline : UnaryOp → Outline
  | neg => .word "Neg"
  | not => .word "Not"

/-- A binary operator. -/
def BinaryOp.outline : BinaryOp → Outline
  | add => .word "Add"
  | sub => .word "Sub"
  | mul => .word "Mul"
  | div => .word "Div"
  | and => .word "And"
  | or => .word "Or"
  | eq => .word "Eq"
  | notEq => .word "NotEq"
  | lt => .word "Lt"
  | gt => .word "Gt"
  | ltEq => .word "LtEq"
  | gtEq => .word "GtEq"

/-- A node with its span. -/
def Outline.node (role : String) (kind : Outline) (span : Span) : Outline :=
  .record role [("kind", kind), ("span", span.outline)]

/-- An assignment. -/
def Outline.assignment (target value : Outline) : Outline :=
  .around "Assign" (.record "Assign" [("target", target), ("value", value)])

/-- A call. -/
def Outline.call (callee : Ident) (args : List Outline) : Outline :=
  .around "Call" (.record "Call" [("callee", callee.outline), ("args", .list args)])

mutual

/-- An expression. -/
def Expr.outline : Expr → Outline
  | .literal value span => .node "Expr" (.around "Literal" value.outline) span
  | .place location span => .node "Expr" location.outline span
  | .assign target value span => .node "Expr" (.assignment target.outline value.outline) span
  | .call callee args span => .node "Expr" (.call callee (Expr.outlines args)) span
  | .unary op operand span =>
    .node "Expr" (.record "Unary" [("op", op.outline), ("expr", operand.outline)]) span
  | .binary op left right span =>
    .node "Expr" (.record "Binary" [("op", op.outline), ("left", left.outline), ("right", right.outline)])
      span

/-- Expressions in order. -/
def Expr.outlines : List Expr → List Outline
  | [] => []
  | first :: more => first.outline :: Expr.outlines more

end

/-- An if statement. -/
def Outline.ifStatement (cond yes : Outline) (no : Option Outline) : Outline :=
  .record "If" [("cond", cond), ("then_block", yes), ("else_block", .option no)]

/-- A loop. -/
def Outline.loop (role : String) (cond body : Outline) : Outline :=
  .record role [("cond", cond), ("block", body)]

mutual

/-- A block. -/
def Block.outline : Block → Outline
  | .mk locals body span =>
    .record "Block" [("decls", .list (locals.map Binding.variableOutline)),
      ("stmts", .list (Stmt.outlines body)), ("span", span.outline)]

/-- A statement. -/
def Stmt.outline : Stmt → Outline
  | .assign target value span => .node "Stmt" (.assignment target.outline value.outline) span
  | .increment target span => .node "Stmt" (.around "PostInc" target.outline) span
  | .decrement target span => .node "Stmt" (.around "PostDec" target.outline) span
  | .read target span => .node "Stmt" (.around "Read" target.outline) span
  | .write value span => .node "Stmt" (.around "Write" value.outline) span
  | .ifThen cond yes span => .node "Stmt" (.ifStatement cond.outline yes.outline none) span
  | .ifElse cond yes no span =>
    .node "Stmt" (.ifStatement cond.outline yes.outline (some no.outline)) span
  | .whileLoop cond body span => .node "Stmt" (.loop "While" cond.outline body.outline) span
  | .repeatLoop cond body span => .node "Stmt" (.loop "Repeat" cond.outline body.outline) span
  | .call callee args span => .node "Stmt" (.call callee (Expr.outlines args)) span
  | .ret value span => .node "Stmt" (.around "Return" (.option (value.map Expr.outline))) span

/-- Statements in order. -/
def Stmt.outlines : List Stmt → List Outline
  | [] => []
  | first :: more => first.outline :: Stmt.outlines more

end

/-- A declaration. -/
def Decl.outline : Decl → Outline
  | .variable binding => .around "Var" binding.variableOutline
  | .function decl =>
    .around "Fn" <| .record "FnDecl" [("ret", decl.result.outline), ("name", decl.name.outline),
      ("formals", .list (decl.formals.map Binding.formalOutline)), ("body", decl.body.outline),
      ("span", decl.span.outline)]
  | .struct decl =>
    .around "Struct" <| .record "StructDecl" [("name", decl.name.outline),
      ("fields", .list (decl.fields.map Binding.variableOutline)), ("span", decl.span.outline)]

/-- A program. -/
def Program.outline (program : Program) : Outline :=
  .record "Program" [("decls", .list (program.decls.map Decl.outline))]

/-- The outline of a program as text. -/
def Program.outlineText (program : Program) : String :=
  String.join (program.outline.map (· ++ "\n"))

end Namescope
