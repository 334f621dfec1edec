import Namescope.Tree.Basic
/-!
# A program as words

A printed program is a list of words: tokens, the gaps between them, and notes, the places where a use
of a name may be annotated. Every operator and every assignment inside an expression stands in
parentheses, and so does the base of a field access. Declarations carry no notes.
-/
namespace Namescope

/-- What a use of a name was resolved to, or a field access found to yield. -/
inductive Note where
  | symbol (id : Option SymbolId)
  | type (name : Option String)
  deriving DecidableEq

/-- A part of a printed program. -/
inductive Word where
  | token (kind : TokenKind)
  | gap (text : List Char)
  | note (note : Note)
  deriving DecidableEq

namespace Word

/-- A mark as a word. -/
def mark (m : Mark) : Word := token (.mark m)

/-- A keyword as a word. -/
def keyword (k : Keyword) : Word := token (.keyword k)

/-- One space. -/
def space : Word := gap [' ']

/-- The end of a line. -/
def newline : Word := gap ['\n']

/-- The spaces in front of a line. -/
def pad (indent : Nat) : Word := gap (List.replicate indent ' ')

/-- The characters of a word, where a note reads as `annotate` says. -/
def text (annotate : Note → List Char) : Word → List Char
  | token kind => kind.spelling
  | gap text => text
  | note n => annotate n

end Word

/-- How much deeper the lines of a block stand. -/
def indentStep : Nat := 4

/-- The token of a constant. -/
def Literal.token : Literal → TokenKind
  | int value => .int value
  | string raw => .string raw
  | bool value => .bool value

/-- A name without a note. -/
def Ident.word (ident : Ident) : Word := .token (.ident ident.name)

/-- A use of a name, which may be annotated. -/
def Ident.useWords (ident : Ident) : List Word := [ident.word, .note (.symbol ident.sym)]

/-- A location; the base of each field stands in parentheses. -/
def Location.words : Location → List Word
  | name ident => ident.useWords
  | field base ident resolved =>
    .mark .lparen :: base.words ++ [.mark .rparen, .mark .dot, ident.word, .note (.type resolved)]

mutual

/-- An expression. -/
def Expr.words : Expr → List Word
  | .literal value _ => [.token value.token]
  | .place location _ => location.words
  | .assign target value _ =>
    .mark .lparen :: target.words ++ [.space, .mark .assign, .space] ++ value.words ++ [.mark .rparen]
  | .call callee args _ =>
    callee.useWords ++ .mark .lparen :: Expr.argWords args ++ [.mark .rparen]
  | .unary op operand _ => .mark .lparen :: .mark op.mark :: operand.words ++ [.mark .rparen]
  | .binary op left right _ =>
    .mark .lparen :: left.words ++ [.space, .mark op.mark, .space] ++ right.words ++ [.mark .rparen]

/-- Arguments, separated by commas. -/
def Expr.argWords : List Expr → List Word
  | [] => []
  | first :: more => first.words ++ Expr.furtherWords more

/-- Further arguments, each after a comma. -/
def Expr.furtherWords : List Expr → List Word
  | [] => []
  | next :: more => .mark .comma :: .space :: next.words ++ Expr.furtherWords more

end

/-- A type. -/
def TypeRef.words (type : TypeRef) : List Word :=
  match type.kind with
  | .int => [.keyword .int]
  | .bool => [.keyword .bool]
  | .void => [.keyword .void]
  | .struct name => [.keyword .struct, .space, name.word]

/-- A type and a name. -/
def Binding.words (binding : Binding) : List Word :=
  binding.type.words ++ [.space, binding.name.word]

/-- A variable or field on a line of its own. -/
def Binding.lineWords (indent : Nat) (binding : Binding) : List Word :=
  .pad indent :: binding.words ++ [.mark .semicolon, .newline]

/-- A simple statement on a line of its own. -/
def lineWords (indent : Nat) (words : List Word) : List Word :=
  .pad indent :: words ++ [.mark .semicolon, .newline]

/-- The line that opens a compound statement with a condition. -/
def headWords (indent : Nat) (word : Keyword) (cond : Expr) : List Word :=
  [.pad indent, .keyword word, .space, .mark .lparen] ++ cond.words ++
    [.mark .rparen, .space, .mark .lbrace, .newline]

/-- The line that closes a compound statement. -/
def closeWords (indent : Nat) : List Word :=
  [.pad indent, .mark .rbrace, .newline]

mutual

/-- The lines inside a block. -/
def Block.words (indent : Nat) : Block → List Word
  | .mk locals body _ => locals.flatMap (Binding.lineWords indent) ++ Stmt.listWords indent body

/-- A statement on its lines. -/
def Stmt.words (indent : Nat) : Stmt → List Word
  | .assign target value _ =>
    lineWords indent (target.words ++ [.space, .mark .assign, .space] ++ value.words)
  | .increment target _ => lineWords indent (target.words ++ [.mark .plusPlus])
  | .decrement target _ => lineWords indent (target.words ++ [.mark .minusMinus])
  | .read target _ =>
    lineWords indent ([.keyword .cin, .space, .mark .shiftRight, .space] ++ target.words)
  | .write value _ =>
    lineWords indent ([.keyword .cout, .space, .mark .shiftLeft, .space] ++ value.words)
  | .ifThen cond yes _ =>
    headWords indent .ifWord cond ++ Block.words (indent + indentStep) yes ++ closeWords indent
  | .ifElse cond yes no _ =>
    headWords indent .ifWord cond ++ Block.words (indent + indentStep) yes ++ closeWords indent ++
      [.pad indent, .keyword .elseWord, .space, .mark .lbrace, .newline] ++
      Block.words (indent + indentStep) no ++ closeWords indent
  | .whileLoop cond body _ =>
    headWords indent .whileWord cond ++ Block.words (indent + indentStep) body ++ closeWords indent
  | .repeatLoop cond body _ =>
    headWords indent .repeatWord cond ++ Block.words (indent + indentStep) body ++ closeWords indent
  | .call callee args _ =>
    lineWords indent (callee.useWords ++ .mark .lparen :: Expr.argWords args ++ [.mark .rparen])
  | .ret none _ => lineWords indent [.keyword .returnWord]
  | .ret (some value) _ => lineWords indent ([.keyword .returnWord, .space] ++ value.words)

/-- Statements one after the other. -/
def Stmt.listWords (indent : Nat) : List Stmt → List Word
  | [] => []
  | first :: more => Stmt.words indent first ++ Stmt.listWords indent more

end

/-- Formals, separated by commas. -/
def formalWords : List Binding → List Word
  | [] => []
  | first :: more =>
    first.words ++ more.flatMap fun next => .mark .comma :: .space :: next.words

/-- A declaration. An empty line follows a function or a struct. -/
def Decl.words : Decl → List Word
  | .variable binding => binding.lineWords 0
  | .function decl =>
    decl.result.words ++ [.space, decl.name.word, .mark .lparen] ++ formalWords decl.formals ++
      [.mark .rparen, .space, .mark .lbrace, .newline] ++ decl.body.words indentStep ++
      [.mark .rbrace, .newline, .newline]
  | .struct decl =>
    [.keyword .struct, .space, decl.name.word, .mark .lbrace, .newline] ++
      decl.fields.flatMap (Binding.lineWords indentStep) ++
      [.mark .rbrace, .mark .semicolon, .newline, .newline]

/-- A program. -/
def Program.words (program : Program) : List Word :=
  program.decls.flatMap Decl.words

/-- The text of a program, where a note reads as `annotate` says. -/
def Program.text (annotate : Note → List Char) (program : Program) : String :=
  String.ofList (program.words.flatMap (Word.text annotate))

/-- The text of a program without annotations. -/
def Program.print (program : Program) : String :=
  program.text fun _ => []

end Namescope
