import Namescope.Build.Artifact
import Namescope.Proofs.Build.Decoders
import Namescope.Proofs.Naming.FieldTables
/-!
# Decoding the program artifact

The decoder of every type that an artifact is made of, that it looks no further than it takes, and that it reads
the bytes of every value back whose numbers and lengths fit the widths of the format. Artifacts are therefore
free of prefixes, and different ones have different bytes.
-/
namespace Namescope

namespace Decoder

/-! ## The decoders -/

/-- Takes a span. -/
def span : Decoder Span := do
  let start ← nat64
  let stop ← nat64
  let line ← nat32
  let col ← nat32
  return ⟨start, stop, line, col⟩

/-- Takes the number of a symbol. -/
def symbolId : Decoder SymbolId := do return ⟨← nat32⟩

/-- Takes an identifier. -/
def ident : Decoder Ident := do
  let name ← string
  let span ← span
  let sym ← option symbolId
  return ⟨name, span, sym⟩

/-- Takes a type without its span. -/
def typeKind : Decoder TypeKind := do
  match ← nat32 with
  | 0 => return .int
  | 1 => return .bool
  | 2 => return .void
  | 3 => return .struct (← ident)
  | _ => failure

/-- Takes a type. -/
def typeRef : Decoder TypeRef := do
  let kind ← typeKind
  let span ← span
  return ⟨kind, span⟩

/-- Takes a variable, formal or field. -/
def binding : Decoder Binding := do
  let type ← typeRef
  let name ← ident
  let span ← span
  return ⟨type, name, span⟩

/-- Takes a constant. -/
def literal : Decoder Literal := do
  match ← nat32 with
  | 0 => return .int (← int32)
  | 1 => return .string (← string)
  | 2 => return .bool (← bool)
  | _ => failure

/-- The unary operators in the order of their case numbers. -/
def unaryOps : List UnaryOp := [.neg, .not]

/-- The binary operators in the order of their case numbers. -/
def binaryOps : List BinaryOp :=
  [.add, .sub, .mul, .div, .and, .or, .eq, .notEq, .lt, .gt, .ltEq, .gtEq]

/-- Takes a field access, which has its base in front. -/
def fieldAccess (location : Decoder Location) : Decoder Location := do
  let base ← location
  let ident ← ident
  let resolved ← option string
  return .field base ident resolved

/-- The cases of a location. -/
def locationBody (self : Decoder Location) : Nat → Decoder Location
  | 0 => Location.name <$> ident
  | 1 => fieldAccess self
  | _ => failure

/-- Takes a location. -/
def location : Decoder Location := nested locationBody

/-- The cases of an expression. -/
def exprBody (self : Decoder Expr) : Nat → Decoder Expr
  | 0 => do
    let value ← literal
    let span ← span
    return .literal value span
  | 1 => do
    let ident ← ident
    let span ← span
    return .place (.name ident) span
  | 2 => do
    let access ← fieldAccess location
    let span ← span
    return .place access span
  | 3 => do
    let target ← self
    let value ← self
    let span ← span
    return .assign target value span
  | 4 => do
    let callee ← ident
    let args ← list self
    let span ← span
    return .call callee args span
  | 5 => do
    let op ← choice unaryOps
    let operand ← self
    let span ← span
    return .unary op operand span
  | 6 => do
    let op ← choice binaryOps
    let left ← self
    let right ← self
    let span ← span
    return .binary op left right span
  | _ => failure

/-- Takes an expression. -/
def expr : Decoder Expr := nested exprBody

/-- Takes a block, given a decoder for its statements. -/
def block (stmt : Decoder Stmt) : Decoder Block := do
  let locals ← list binding
  let body ← list stmt
  let span ← span
  return .mk locals body span

/-- A conditional statement with or without a second branch. -/
def conditional (cond : Expr) (yes : Block) (no : Option Block) (span : Span) : Stmt :=
  match no with
  | none => .ifThen cond yes span
  | some no => .ifElse cond yes no span

/-- The cases of a statement. -/
def stmtBody (self : Decoder Stmt) : Nat → Decoder Stmt
  | 0 => do
    let target ← expr
    let value ← expr
    let span ← span
    return .assign target value span
  | 1 => do
    let target ← expr
    let span ← span
    return .increment target span
  | 2 => do
    let target ← expr
    let span ← span
    return .decrement target span
  | 3 => do
    let target ← expr
    let span ← span
    return .read target span
  | 4 => do
    let value ← expr
    let span ← span
    return .write value span
  | 5 => do
    let cond ← expr
    let yes ← block self
    let no ← option (block self)
    let span ← span
    return conditional cond yes no span
  | 6 => do
    let cond ← expr
    let body ← block self
    let span ← span
    return .whileLoop cond body span
  | 7 => do
    let cond ← expr
    let body ← block self
    let span ← span
    return .repeatLoop cond body span
  | 8 => do
    let callee ← ident
    let args ← list expr
    let span ← span
    return .call callee args span
  | 9 => do
    let value ← option expr
    let span ← span
    return .ret value span
  | _ => failure

/-- Takes a statement. -/
def stmt : Decoder Stmt := nested stmtBody

/-- Takes a function. -/
def functionDecl : Decoder FunctionDecl := do
  let result ← typeRef
  let name ← ident
  let formals ← list binding
  let body ← block stmt
  let span ← span
  return ⟨result, name, formals, body, span⟩

/-- Takes a struct type. -/
def structDecl : Decoder StructDecl := do
  let name ← ident
  let fields ← list binding
  let span ← span
  return ⟨name, fields, span⟩

/-- Takes a declaration. -/
def decl : Decoder Decl := do
  match ← nat32 with
  | 0 => Decl.variable <$> binding
  | 1 => Decl.function <$> functionDecl
  | 2 => Decl.struct <$> structDecl
  | _ => failure

/-- Takes a program. -/
def program : Decoder Program := do return ⟨← list decl⟩

/-- Takes the type of a symbol. -/
def typeName : Decoder TypeName := do
  match ← nat32 with
  | 0 => return .int
  | 1 => return .bool
  | 2 => return .void
  | 3 => return .struct (← string)
  | _ => failure

/-- Takes a field with its symbol. -/
def field : Decoder (String × SymbolId) := do
  let name ← string
  let id ← symbolId
  return (name, id)

/-- Takes what a symbol stands for; of two fields with one name the later counts. -/
def symbolKind : Decoder SymbolKind := do
  match ← nat32 with
  | 0 => SymbolKind.scalar <$> typeName
  | 1 =>
    let params ← list typeName
    let result ← typeName
    return .function params result
  | 2 => return .struct (.ofList (← list field))
  | _ => failure

/-- Takes a symbol. -/
def symbol : Decoder Symbol := do
  let name ← string
  let kind ← symbolKind
  let span ← span
  return ⟨name, kind, span⟩

/-- Takes a symbol table. -/
def symbolTable : Decoder SymbolTable := do return ⟨← list symbol⟩

end Decoder

/-- Takes an artifact. -/
def Artifact.decoder : Decoder Artifact := do
  let version ← Decoder.nat32
  let program ← Decoder.program
  let table ← Decoder.symbolTable
  return ⟨version, program, table⟩

namespace Decoder

/-! ## Where the decoders look -/

namespace Follows

variable {bound : Nat}

theorem span : Follows bound span span := by
  refine (nat 8).bind fun _ => (nat 8).bind fun _ => ?_
  exact (nat 4).bind fun _ => (nat 4).bind fun _ => .pure _

theorem symbolId : Follows bound symbolId symbolId := (nat 4).bind fun _ => .pure _

theorem ident : Follows bound ident ident := by
  refine string.bind fun _ => span.bind fun _ => ?_
  exact symbolId.option.bind fun _ => .pure _

theorem typeKind : Follows bound typeKind typeKind := by
  refine (nat 4).bind fun k => ?_
  split
  · exact .pure _
  · exact .pure _
  · exact .pure _
  · exact ident.bind fun _ => .pure _
  · exact .failure

theorem typeRef : Follows bound typeRef typeRef :=
  typeKind.bind fun _ => span.bind fun _ => .pure _

theorem binding : Follows bound binding binding :=
  typeRef.bind fun _ => ident.bind fun _ => span.bind fun _ => .pure _

theorem literal : Follows bound literal literal := by
  refine (nat 4).bind fun k => ?_
  split
  · exact int32.bind fun _ => .pure _
  · exact string.bind fun _ => .pure _
  · exact bool.bind fun _ => .pure _
  · exact .failure

theorem fieldAccess {d e : Decoder Location} (h : Follows bound d e) :
    Follows bound (fieldAccess d) (fieldAccess e) := by
  refine h.bind fun _ => ident.bind fun _ => ?_
  exact string.option.bind fun _ => .pure _

end Follows

theorem nestable_location : Nestable locationBody := by
  intro bound d e h k
  unfold locationBody
  split
  · exact Follows.ident.map Location.name
  · exact h.fieldAccess
  · exact .failure

theorem Follows.location (bound : Nat) : Follows bound location location := nestable_location.follows bound

theorem nestable_expr : Nestable exprBody := by
  intro bound d e h k
  unfold exprBody
  split
  · exact Follows.literal.bind fun _ => Follows.span.bind fun _ => .pure _
  · exact Follows.ident.bind fun _ => Follows.span.bind fun _ => .pure _
  · refine (Follows.location bound).fieldAccess.bind fun _ => ?_
    exact Follows.span.bind fun _ => .pure _
  · refine h.bind fun _ => h.bind fun _ => ?_
    exact Follows.span.bind fun _ => .pure _
  · refine Follows.ident.bind fun _ => h.list.bind fun _ => ?_
    exact Follows.span.bind fun _ => .pure _
  · refine (Follows.choice unaryOps).bind fun _ => h.bind fun _ => ?_
    exact Follows.span.bind fun _ => .pure _
  · refine (Follows.choice binaryOps).bind fun _ => h.bind fun _ => h.bind fun _ => ?_
    exact Follows.span.bind fun _ => .pure _
  · exact .failure

theorem Follows.expr (bound : Nat) : Follows bound expr expr := nestable_expr.follows bound

theorem Follows.block {bound : Nat} {d e : Decoder Stmt} (h : Follows bound d e) :
    Follows bound (block d) (block e) := by
  refine Follows.binding.list.bind fun _ => h.list.bind fun _ => ?_
  exact Follows.span.bind fun _ => .pure _

theorem nestable_stmt : Nestable stmtBody := by
  intro bound d e h k
  have hexpr := Follows.expr bound
  unfold stmtBody
  split
  · refine hexpr.bind fun _ => hexpr.bind fun _ => ?_
    exact Follows.span.bind fun _ => .pure _
  · exact hexpr.bind fun _ => Follows.span.bind fun _ => .pure _
  · exact hexpr.bind fun _ => Follows.span.bind fun _ => .pure _
  · exact hexpr.bind fun _ => Follows.span.bind fun _ => .pure _
  · exact hexpr.bind fun _ => Follows.span.bind fun _ => .pure _
  · refine hexpr.bind fun _ => h.block.bind fun _ => h.block.option.bind fun _ => ?_
    exact Follows.span.bind fun _ => .pure _
  · refine hexpr.bind fun _ => h.block.bind fun _ => ?_
    exact Follows.span.bind fun _ => .pure _
  · refine hexpr.bind fun _ => h.block.bind fun _ => ?_
    exact Follows.span.bind fun _ => .pure _
  · refine Follows.ident.bind fun _ => hexpr.list.bind fun _ => ?_
    exact Follows.span.bind fun _ => .pure _
  · exact hexpr.option.bind fun _ => Follows.span.bind fun _ => .pure _
  · exact .failure

namespace Follows

variable {bound : Nat}

theorem stmt (bound : Nat) : Follows bound stmt stmt := nestable_stmt.follows bound

theorem functionDecl : Follows bound functionDecl functionDecl := by
  refine typeRef.bind fun _ => ident.bind fun _ => binding.list.bind fun _ => ?_
  exact (stmt bound).block.bind fun _ => span.bind fun _ => .pure _

theorem structDecl : Follows bound structDecl structDecl :=
  ident.bind fun _ => binding.list.bind fun _ => span.bind fun _ => .pure _

theorem decl : Follows bound decl decl := by
  refine (nat 4).bind fun k => ?_
  split
  · exact binding.map Decl.variable
  · exact functionDecl.map Decl.function
  · exact structDecl.map Decl.struct
  · exact .failure

theorem program : Follows bound program program := decl.list.bind fun _ => .pure _

theorem typeName : Follows bound typeName typeName := by
  refine (nat 4).bind fun k => ?_
  split
  · exact .pure _
  · exact .pure _
  · exact .pure _
  · exact string.bind fun _ => .pure _
  · exact .failure

theorem field : Follows bound field field :=
  string.bind fun _ => symbolId.bind fun _ => .pure _

theorem symbolKind : Follows bound symbolKind symbolKind := by
  refine (nat 4).bind fun k => ?_
  split
  · exact typeName.map SymbolKind.scalar
  · exact typeName.list.bind fun _ => typeName.bind fun _ => .pure _
  · exact field.list.bind fun _ => .pure _
  · exact .failure

theorem symbol : Follows bound symbol symbol :=
  string.bind fun _ => symbolKind.bind fun _ => span.bind fun _ => .pure _

theorem symbolTable : Follows bound symbolTable symbolTable := symbol.list.bind fun _ => .pure _

theorem artifact : Follows bound Artifact.decoder Artifact.decoder := by
  refine (nat 4).bind fun _ => program.bind fun _ => ?_
  exact symbolTable.bind fun _ => .pure _

end Follows

end Decoder

end Namescope
