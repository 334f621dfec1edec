import Namescope.Naming.Symbol
/-!
# Nested scopes

A stack of scopes over one symbol table. Plain names and struct types are kept apart, so a variable
and a type of one name do not meet. The global scope lies at the bottom and is never left.
-/
namespace Namescope

/-- The two classes of names that a scope keeps apart. -/
inductive NameClass where
  | plain | struct
  deriving DecidableEq

/-- The class that a symbol is declared in. -/
def Symbol.nameClass (symbol : Symbol) : NameClass :=
  match symbol.kind with
  | .struct _ => .struct
  | _ => .plain

/-- The names of one scope, the newest first, each once in its class. -/
structure Scope where
  plain : List (String × SymbolId) := []
  structs : List (String × SymbolId) := []
  deriving DecidableEq

namespace Scope

/-- The names of a class. -/
def names (scope : Scope) : NameClass → List (String × SymbolId)
  | .plain => scope.plain
  | .struct => scope.structs

/-- The symbol that a name of a class stands for in this scope. -/
def find? (scope : Scope) (cls : NameClass) (name : String) : Option SymbolId :=
  (scope.names cls).lookup name

/-- Adds a name. -/
def bind (scope : Scope) (cls : NameClass) (name : String) (id : SymbolId) : Scope :=
  match cls with
  | .plain => { scope with plain := (name, id) :: scope.plain }
  | .struct => { scope with structs := (name, id) :: scope.structs }

/-- How many names there are. -/
def size (scope : Scope) : Nat := scope.plain.length + scope.structs.length

/-- The plain names as fields of a struct. -/
def fieldTable (scope : Scope) : FieldTable := .ofList scope.plain

end Scope

/-- Why an operation on the stack is refused. -/
inductive ScopeError where
  | nothingToExit
  | duplicateName (name : String)
  deriving DecidableEq

/-- The text of a refusal. -/
def ScopeError.message : ScopeError → String
  | nothingToExit => "scope stack holds no removable scope"
  | duplicateName name => "duplicate name in scope: " ++ name

/-- The innermost scope, those around it from the inside out, and all symbols declared so far. -/
structure ScopeStack where
  table : SymbolTable := {}
  innermost : Scope := {}
  outer : List Scope := []
  deriving DecidableEq

namespace ScopeStack

/-- The scopes from the inside out. -/
def scopes (stack : ScopeStack) : List Scope := stack.innermost :: stack.outer

/-- How many scopes are open, the global one included. -/
def depth (stack : ScopeStack) : Nat := stack.scopes.length

/-- Opens a scope inside the innermost one. -/
def enter (stack : ScopeStack) : ScopeStack :=
  { stack with innermost := {}, outer := stack.innermost :: stack.outer }

/-- Leaves the innermost scope, which is returned. -/
def exit (stack : ScopeStack) : Except ScopeError (Scope × ScopeStack) :=
  match stack.outer with
  | [] => .error .nothingToExit
  | next :: outer => .ok (stack.innermost, { stack with innermost := next, outer })

/-- The symbol of a name in the innermost scope. -/
def findLocal? (stack : ScopeStack) (cls : NameClass) (name : String) : Option SymbolId :=
  stack.innermost.find? cls name

/-- The symbol of a name in the innermost scope that has it. -/
def find? (stack : ScopeStack) (cls : NameClass) (name : String) : Option SymbolId :=
  stack.scopes.findSome? (·.find? cls name)

/-- Declares a name in the innermost scope, unless that has the name in the class of the symbol. -/
def declare (stack : ScopeStack) (name : String) (symbol : Symbol) :
    Except ScopeError (SymbolId × ScopeStack) :=
  match stack.findLocal? symbol.nameClass name with
  | some _ => .error (.duplicateName name)
  | none =>
    let id := stack.table.nextId
    .ok (id, { stack with
      table := stack.table.push symbol
      innermost := stack.innermost.bind symbol.nameClass name id })

end ScopeStack

end Namescope
