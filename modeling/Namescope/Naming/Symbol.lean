import Namescope.Tree.Basic
/-!
# Symbols

What a declared name means, and the table of all symbols, which only grows, so an identifier written
into the tree stays valid. The fields of a struct are kept in the order of their names.
-/
namespace Namescope

/-- The type that a declaration names. -/
inductive TypeName where
  | int | bool | void
  | struct (name : String)
  deriving DecidableEq

namespace TypeName

/-- The type as written, without places. -/
def ofRef (type : TypeRef) : TypeName :=
  match type.kind with
  | .int => int
  | .bool => bool
  | .void => void
  | .struct name => struct name.name

/-- The name of a struct type. -/
def structName? : TypeName → Option String
  | struct name => some name
  | _ => none

/-- The type as annotations show it: a struct by its bare name. -/
def display : TypeName → String
  | int => "int"
  | bool => "bool"
  | void => "void"
  | struct name => name

end TypeName

/-- The fields of a struct: each name once, in ascending order, with the symbol of the field. -/
structure FieldTable where
  entries : List (String × SymbolId)
  sorted : entries.Pairwise fun a b => a.1 < b.1
  deriving DecidableEq

namespace FieldTable

/-- No fields. -/
def empty : FieldTable := ⟨[], .nil⟩

/-- The symbol of a field. -/
def get? (table : FieldTable) (name : String) : Option SymbolId :=
  table.entries.lookup name

/-- Whether there is a field of this name. -/
def contains (table : FieldTable) (name : String) : Bool :=
  (table.get? name).isSome

/-- How many fields there are. -/
def size (table : FieldTable) : Nat := table.entries.length

/-- Puts an entry at its place; an entry of the same name gives way. -/
def insertEntry (name : String) (id : SymbolId) : List (String × SymbolId) → List (String × SymbolId)
  | [] => [(name, id)]
  | (key, value) :: rest =>
    if name < key then (name, id) :: (key, value) :: rest
    else if name = key then (name, id) :: rest
    else (key, value) :: insertEntry name id rest

theorem mem_of_mem_insertEntry {name : String} {id : SymbolId} {entries : List (String × SymbolId)}
    {e : String × SymbolId} (h : e ∈ insertEntry name id entries) : e = (name, id) ∨ e ∈ entries := by
  fun_induction insertEntry name id entries with
  | case1 => simpa using h
  | case2 => simpa using h
  | case3 => rcases List.mem_cons.1 h with h | h <;> simp [h]
  | case4 key value rest _ _ ih =>
    rcases List.mem_cons.1 h with h | h
    · simp [h]
    · rcases ih h with h | h <;> simp [h]

theorem insertEntry_sorted {name : String} {id : SymbolId} {entries : List (String × SymbolId)}
    (h : entries.Pairwise fun a b => a.1 < b.1) :
    (insertEntry name id entries).Pairwise fun a b => a.1 < b.1 := by
  fun_induction insertEntry name id entries with
  | case1 => simp
  | case2 key value rest hlt =>
    refine .cons (fun e he => ?_) h
    rcases List.mem_cons.1 he with rfl | he
    · exact hlt
    · exact String.lt_trans hlt (List.rel_of_pairwise_cons h he)
  | case3 value rest _ =>
    exact .cons (fun e he => List.rel_of_pairwise_cons h he) h.of_cons
  | case4 key value rest hlt hne ih =>
    refine .cons (fun e he => ?_) (ih h.of_cons)
    rcases mem_of_mem_insertEntry he with rfl | he
    · have hle : key ≤ name := String.not_lt.1 hlt
      exact Std.lt_of_le_of_ne hle (Ne.symm hne)
    · exact List.rel_of_pairwise_cons h he

/-- Adds a field; a field of the same name gives way. -/
def insert (table : FieldTable) (name : String) (id : SymbolId) : FieldTable :=
  ⟨insertEntry name id table.entries, insertEntry_sorted table.sorted⟩

/-- The table of a list of fields; of two with one name the later counts. -/
def ofList (entries : List (String × SymbolId)) : FieldTable :=
  entries.foldl (fun table entry => table.insert entry.1 entry.2) empty

end FieldTable

/-- What a name stands for. A variable, formal or field of a struct type holds the name of that type. -/
inductive SymbolKind where
  | scalar (type : TypeName)
  | function (params : List TypeName) (result : TypeName)
  | struct (fields : FieldTable)
  deriving DecidableEq

/-- A declared name. -/
structure Symbol where
  name : String
  kind : SymbolKind
  span : Span
  deriving DecidableEq

namespace Symbol

/-- Whether the symbol is a function. -/
def isFunction (symbol : Symbol) : Bool :=
  match symbol.kind with
  | .function _ _ => true
  | _ => false

/-- Whether the symbol is a struct type. -/
def isStruct (symbol : Symbol) : Bool :=
  match symbol.kind with
  | .struct _ => true
  | _ => false

/-- The declared type of a variable, formal or field. -/
def type? (symbol : Symbol) : Option TypeName :=
  match symbol.kind with
  | .scalar type => some type
  | _ => none

/-- The fields of a struct type. -/
def fields? (symbol : Symbol) : Option FieldTable :=
  match symbol.kind with
  | .struct fields => some fields
  | _ => none

/-- The symbol as annotations show it: `int`, `Point`, `int,bool->void`, `struct`. -/
def display (symbol : Symbol) : String :=
  match symbol.kind with
  | .scalar type => type.display
  | .function params result =>
    String.intercalate "," (params.map TypeName.display) ++ "->" ++ result.display
  | .struct _ => "struct"

end Symbol

/-- All symbols in the order in which they were declared. -/
structure SymbolTable where
  symbols : List Symbol := []
  deriving DecidableEq

namespace SymbolTable

/-- How many symbols there are. -/
def size (table : SymbolTable) : Nat := table.symbols.length

/-- The symbol of an identifier. -/
def get? (table : SymbolTable) (id : SymbolId) : Option Symbol := table.symbols[id.index]?

/-- The identifier that the next symbol will have. -/
def nextId (table : SymbolTable) : SymbolId := ⟨table.size⟩

/-- Adds a symbol, whose identifier is `nextId`. -/
def push (table : SymbolTable) (symbol : Symbol) : SymbolTable := ⟨table.symbols ++ [symbol]⟩

end SymbolTable

end Namescope
