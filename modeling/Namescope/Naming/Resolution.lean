import Namescope.Diagnostic
import Namescope.Naming.ScopeStack
import Namescope.Tree.Words
/-!
# Name resolution

A walk over a program that declares names, finds what each use means and writes the symbols into the
tree. What is wrong with the program is noted and the walk goes on; an internal error would be a broken
invariant of the walk itself.
-/
namespace Namescope

/-- What can be wrong with the names of a program. -/
inductive NameIssue where
  | multiplyDeclared
  | undeclared
  | voidNonFunction
  | invalidStructType
  | invalidField
  | dotNonStruct
  deriving DecidableEq

/-- The text of an issue. -/
def NameIssue.message : NameIssue → String
  | multiplyDeclared => "Multiply declared identifier"
  | undeclared => "Undeclared identifier"
  | voidNonFunction => "Non-function declared void"
  | invalidStructType => "Invalid name of struct type"
  | invalidField => "Invalid struct field name"
  | dotNonStruct => "Dot-access of non-struct type"

/-- A broken invariant of the walk. -/
inductive InternalError where
  | scope (cause : ScopeError)
  | danglingSymbol (id : SymbolId)
  | notAStruct (id : SymbolId)
  | scopeImbalance (expected found : Nat)
  deriving DecidableEq

/-- The text of an internal error. -/
def InternalError.message : InternalError → String
  | scope cause => cause.message
  | danglingSymbol id => "symbol #" ++ String.ofList (Text.digits id.index) ++ " is not in the symbol table"
  | notAStruct id => "symbol #" ++ String.ofList (Text.digits id.index) ++ " was used as a struct type"
  | scopeImbalance expected found =>
    "scope depth " ++ String.ofList (Text.digits found) ++ " after a construct that started at depth " ++
      String.ofList (Text.digits expected)

/-- The opening or closing of a scope, with the depth after it. -/
inductive ScopeEvent where
  | enter (depth : Nat)
  | exit (names : Nat) (depth : Nat)
  deriving DecidableEq

/-- The text of an event for the log. -/
def ScopeEvent.message : ScopeEvent → String
  | enter depth => "enter scope (depth " ++ String.ofList (Text.digits depth) ++ ")"
  | exit names depth =>
    "exit scope with " ++ String.ofList (Text.digits names) ++ " binding(s) (depth " ++
      String.ofList (Text.digits depth) ++ ")"

/-- What the walk carries along: the open scopes, the findings and the events, both in order. -/
structure Resolver where
  scopes : ScopeStack := {}
  findings : List (Finding NameIssue) := []
  events : List ScopeEvent := []
  deriving DecidableEq

/-- A step of the walk. -/
abbrev Resolve := StateT Resolver (Except InternalError)

namespace Resolve

/-- Notes an issue. -/
def note (span : Span) (issue : NameIssue) : Resolve Unit :=
  modify fun r => { r with findings := r.findings ++ [⟨issue, span⟩] }

/-- Notes an issue if the condition holds. -/
def noteIf (condition : Bool) (span : Span) (issue : NameIssue) : Resolve Unit :=
  if condition then note span issue else pure ()

/-- The symbol of an identifier. -/
def symbol (id : SymbolId) : Resolve Symbol := do
  match (← get).scopes.table.get? id with
  | some symbol => pure symbol
  | none => throw (.danglingSymbol id)

/-- What a name means here, in the innermost scope that has it. -/
def find? (cls : NameClass) (name : String) : Resolve (Option SymbolId) := do
  return (← get).scopes.find? cls name

/-- What a name means in the innermost scope. -/
def findLocal? (cls : NameClass) (name : String) : Resolve (Option SymbolId) := do
  return (← get).scopes.findLocal? cls name

/-- The struct type that is visible under a name. -/
def structType? (name : String) : Resolve (Option SymbolId) := do
  match ← find? .struct name with
  | none => return none
  | some id =>
    let symbol ← symbol id
    return if symbol.isStruct then some id else none

/-- Whether the innermost scope has the name in either class. -/
def clashes (name : String) : Resolve Bool := do
  let plain ← findLocal? .plain name
  let struct ← findLocal? .struct name
  return plain.isSome || struct.isSome

/-- Declares a symbol; a name that is taken is noted. -/
def declare (name : Ident) (kind : SymbolKind) : Resolve (Option SymbolId) := do
  let r ← get
  match r.scopes.declare name.name ⟨name.name, kind, name.span⟩ with
  | .ok (id, scopes) =>
    set { r with scopes }
    return some id
  | .error (.duplicateName _) =>
    note name.span .multiplyDeclared
    return none
  | .error cause => throw (.scope cause)

/-- Opens a scope. -/
def enter : Resolve Unit :=
  modify fun r =>
    { r with scopes := r.scopes.enter, events := r.events ++ [ScopeEvent.enter r.scopes.enter.depth] }

/-- Leaves the innermost scope. -/
def exit : Resolve Scope := do
  let r ← get
  match r.scopes.exit with
  | .ok (scope, scopes) =>
    set { r with scopes, events := r.events ++ [ScopeEvent.exit scope.size scopes.depth] }
    return scope
  | .error cause => throw (.scope cause)

/-- The number of open scopes. -/
def depth : Resolve Nat := do
  return (← get).scopes.depth

/-- Checks the number of open scopes. -/
def expectDepth (expected : Nat) : Resolve Unit := do
  let found ← depth
  if found = expected then pure () else throw (.scopeImbalance expected found)

/-- Walks over a construct in a scope of its own, which is returned. -/
def inScope {α : Type} (walk : Resolve α) : Resolve (α × Scope) := do
  let before ← depth
  enter
  let result ← walk
  let scope ← exit
  expectDepth before
  return (result, scope)

/-- Walks over the declaration of a variable, formal or field. -/
def binding (b : Binding) : Resolve Binding := do
  match b.type.kind with
  | .void =>
    note b.name.span .voidNonFunction
    let earlier ← findLocal? .plain b.name.name
    noteIf earlier.isSome b.name.span .multiplyDeclared
    return b
  | .struct typeName =>
    match ← structType? typeName.name with
    | none =>
      note typeName.span .invalidStructType
      return b
    | some id =>
      let sym ← declare b.name (.scalar (.struct typeName.name))
      return { b with
        type := { b.type with kind := .struct { typeName with sym := some id } }
        name := { b.name with sym } }
  | _ =>
    match ← findLocal? .struct b.name.name with
    | some _ =>
      note b.name.span .multiplyDeclared
      return b
    | none =>
      let sym ← declare b.name (.scalar (.ofRef b.type))
      return { b with name := { b.name with sym } }

/-- Walks over declarations in order. -/
def bindings : List Binding → Resolve (List Binding)
  | [] => pure []
  | first :: more => do
    let first ← binding first
    let more ← bindings more
    return first :: more

/-- Walks over the use of a variable. -/
def use (ident : Ident) : Resolve Ident := do
  match ← find? .plain ident.name with
  | some id => return { ident with sym := some id }
  | none =>
    note ident.span .undeclared
    return ident

/-- The function that is visible under a name, unless something else is. -/
def function? (name : String) : Resolve (Option SymbolId) := do
  match ← find? .plain name with
  | none => return none
  | some id =>
    let symbol ← symbol id
    return if symbol.isFunction then some id else none

/-- Walks over the name of a called function. -/
def callee (ident : Ident) : Resolve Ident := do
  match ← function? ident.name with
  | some id => return { ident with sym := some id }
  | none =>
    note ident.span .undeclared
    return ident

/-- The struct type that a symbol holds, if it is a variable, formal or field of one. -/
def held? (symbol : Symbol) : Resolve (Option SymbolId) :=
  match symbol.type?.bind TypeName.structName? with
  | some name => structType? name
  | none => pure none

/-- Walks over the first name of a chain of fields; also yields the struct type that it holds. -/
def chainBase (ident : Ident) : Resolve (Ident × Option SymbolId) := do
  match ← find? .plain ident.name with
  | none =>
    note ident.span .undeclared
    return (ident, none)
  | some id =>
    let symbol ← symbol id
    let owner ← held? symbol
    noteIf owner.isNone ident.span .dotNonStruct
    return ({ ident with sym := some id }, owner)

/-- A field as it stands in a chain: whether its owner has it, and the struct type that it holds. -/
structure FieldUse where
  ident : Ident
  resolved : Option String
  known : Bool
  holds : Option SymbolId

/-- Walks over a field of the struct type `owner`. -/
def fieldUse (owner : SymbolId) (ident : Ident) (resolved : Option String) : Resolve FieldUse := do
  let struct ← symbol owner
  match struct.fields? with
  | none => throw (.notAStruct owner)
  | some fields =>
    let known := fields.contains ident.name
    noteIf (!known) ident.span .invalidField
    match fields.get? ident.name with
    | none => return ⟨ident, resolved, known, none⟩
    | some id =>
      let field ← symbol id
      let holds ← held? field
      return ⟨{ ident with sym := some id }, field.type?.map TypeName.display, known, holds⟩

/-- Walks over a location that has a field taken of it; also yields the struct type that it holds. A
failure is noted once, where it happens. -/
def owner : Location → Resolve (Location × Option SymbolId)
  | .name ident => do
    let (ident, holds) ← chainBase ident
    return (.name ident, holds)
  | .field base ident resolved => do
    match ← owner base with
    | (base, none) => return (.field base ident resolved, none)
    | (base, some id) =>
      let field ← fieldUse id ident resolved
      noteIf (field.known && field.holds.isNone) ident.span .dotNonStruct
      return (.field base field.ident field.resolved, field.holds)

/-- Walks over a variable or a chain of fields. -/
def location : Location → Resolve Location
  | .name ident => Location.name <$> use ident
  | .field base ident resolved => do
    match ← owner base with
    | (base, none) => return .field base ident resolved
    | (base, some id) =>
      let field ← fieldUse id ident resolved
      return .field base field.ident field.resolved

mutual

/-- Walks over an expression. -/
def expr : Expr → Resolve Expr
  | .literal value span => pure (.literal value span)
  | .place loc span => do
    let loc ← location loc
    return .place loc span
  | .assign target value span => do
    let target ← expr target
    let value ← expr value
    return .assign target value span
  | .call name args span => do
    let name ← callee name
    let args ← exprs args
    return .call name args span
  | .unary op operand span => do
    let operand ← expr operand
    return .unary op operand span
  | .binary op left right span => do
    let left ← expr left
    let right ← expr right
    return .binary op left right span

/-- Walks over expressions in order. -/
def exprs : List Expr → Resolve (List Expr)
  | [] => pure []
  | first :: more => do
    let first ← expr first
    let more ← exprs more
    return first :: more

end

mutual

/-- Walks over the contents of a block in the innermost scope. -/
def contents : Block → Resolve Block
  | .mk locals body span => do
    let locals ← bindings locals
    let body ← statements body
    return .mk locals body span

/-- Walks over a block in a scope of its own. -/
def block : Block → Resolve Block
  | .mk locals body span => do
    let (result, _) ← inScope do
      let locals ← bindings locals
      let body ← statements body
      return Block.mk locals body span
    return result

/-- Walks over a statement. -/
def statement : Stmt → Resolve Stmt
  | .assign target value span => do
    let target ← expr target
    let value ← expr value
    return .assign target value span
  | .increment target span => do
    let target ← expr target
    return .increment target span
  | .decrement target span => do
    let target ← expr target
    return .decrement target span
  | .read target span => do
    let target ← expr target
    return .read target span
  | .write value span => do
    let value ← expr value
    return .write value span
  | .ifThen cond yes span => do
    let cond ← expr cond
    let yes ← block yes
    return .ifThen cond yes span
  | .ifElse cond yes no span => do
    let cond ← expr cond
    let yes ← block yes
    let no ← block no
    return .ifElse cond yes no span
  | .whileLoop cond body span => do
    let cond ← expr cond
    let body ← block body
    return .whileLoop cond body span
  | .repeatLoop cond body span => do
    let cond ← expr cond
    let body ← block body
    return .repeatLoop cond body span
  | .call name args span => do
    let name ← callee name
    let args ← exprs args
    return .call name args span
  | .ret none span => pure (.ret none span)
  | .ret (some value) span => do
    let value ← expr value
    return .ret (some value) span

/-- Walks over statements in order. -/
def statements : List Stmt → Resolve (List Stmt)
  | [] => pure []
  | first :: more => do
    let first ← statement first
    let more ← statements more
    return first :: more

end

/-- Walks over the result type of a function. -/
def resultType (type : TypeRef) : Resolve TypeRef := do
  match type.kind with
  | .struct name =>
    match ← structType? name.name with
    | some id => return { type with kind := .struct { name with sym := some id } }
    | none =>
      note name.span .invalidStructType
      return type
  | _ => return type

/-- Walks over the name of a function, which must be new to its scope. -/
def functionName (f : FunctionDecl) : Resolve Ident := do
  match ← clashes f.name.name with
  | true =>
    note f.name.span .multiplyDeclared
    return f.name
  | false =>
    let params := f.formals.map fun formal => TypeName.ofRef formal.type
    let sym ← declare f.name (.function params (.ofRef f.result))
    return { f.name with sym }

/-- Walks over a function: its name is declared first, so the body can call it; formals and body share
one scope. -/
def function (f : FunctionDecl) : Resolve FunctionDecl := do
  let result ← resultType f.result
  let name ← functionName f
  let ((formals, body), _) ← inScope do
    let formals ← bindings f.formals
    let body ← contents f.body
    return (formals, body)
  return { f with result, name, formals, body }

/-- Walks over a struct: the fields have a scope of their own, and the type is declared after them. A
struct whose name is taken is passed over. -/
def struct (s : StructDecl) : Resolve StructDecl := do
  match ← clashes s.name.name with
  | true =>
    note s.name.span .multiplyDeclared
    return s
  | false =>
    let (fields, scope) ← inScope (bindings s.fields)
    let sym ← declare s.name (.struct scope.fieldTable)
    return { s with name := { s.name with sym }, fields }

/-- Walks over a declaration at the top of a program. -/
def decl : Decl → Resolve Decl
  | .variable b => Decl.variable <$> binding b
  | .function f => Decl.function <$> function f
  | .struct s => Decl.struct <$> struct s

/-- Walks over declarations, after each of which as many scopes are open as before all of them. -/
def decls (depth : Nat) : List Decl → Resolve (List Decl)
  | [] => pure []
  | first :: more => do
    let first ← decl first
    expectDepth depth
    let more ← decls depth more
    return first :: more

/-- Walks over a program. -/
def program (p : Program) : Resolve Program := do
  let before ← depth
  let decls ← decls before p.decls
  return ⟨decls⟩

end Resolve

/-- The result of name resolution: the tree with its symbols, and what was noted. -/
structure Analysis where
  program : Program
  table : SymbolTable
  findings : List (Finding NameIssue)
  events : List ScopeEvent

namespace Analysis

/-- The findings as diagnostics. -/
def report (analysis : Analysis) : Report :=
  analysis.findings.map (Finding.toError NameIssue.message)

/-- One line that sums the analysis up. -/
def summary (analysis : Analysis) : String :=
  "name analysis: " ++ String.ofList (Text.digits analysis.program.decls.length) ++ " declaration(s), " ++
    String.ofList (Text.digits analysis.table.size) ++ " symbol(s), " ++
    String.ofList (Text.digits analysis.findings.length) ++ " diagnostic(s)"

end Analysis

/-- Resolves the names of a whole program. -/
def analyze (p : Program) : Except InternalError Analysis := do
  let (program, r) ← (Resolve.program p).run {}
  return ⟨program, r.scopes.table, r.findings, r.events⟩

namespace Program

/-- How a note reads next to the symbols of a table: in parentheses, or not at all. -/
def noteText (table : SymbolTable) : Note → List Char
  | .symbol id => ((id.bind table.get?).map fun s => '(' :: s.display.toList ++ [')']).getD []
  | .type name => (name.map fun t => '(' :: t.toList ++ [')']).getD []

/-- The text of a program with annotations. -/
def printAnnotated (table : SymbolTable) (program : Program) : String :=
  program.text (noteText table)

end Program

end Namescope
