import Namescope.Reading.Statement
import Namescope.Token.Scan
/-!
# Reading a program

A program is declarations up to the end of the tokens. After a failure between declarations reading
goes on behind the next semicolon or closing brace.
-/
namespace Namescope

namespace Cursor

/-- Whether a struct definition begins here, and not a declaration with a struct type. -/
def startsStruct (c : Cursor) : Bool :=
  match c.rest with
  | ⟨.keyword .struct, _⟩ :: ⟨.ident _, _⟩ :: ⟨.mark .lbrace, _⟩ :: _ => true
  | _ => false

/-- Reads the fields of a struct up to the closing brace or the end. -/
def fieldDecls (c : Cursor) : Read (List Binding) c :=
  match c.next? with
  | none => c.stay []
  | some t =>
    if t.value.kind = .mark .rbrace then c.stay []
    else match c.binding? with
      | some first =>
        let more := first.cursor.fieldDecls
        (more.widen first.suffix).give (first.value :: more.value)
      | none =>
        let next := ((t.cursor.noteAt t.value.span .fieldExpected).resumeInBlock t.value).afterNote
        next.cursor.fieldDecls.widen (next.suffix.trans t.suffix)
termination_by c.rest.length
decreasing_by
  · exact first.shorter
  · exact Nat.lt_of_le_of_lt next.length_le t.shorter

/-- Reads a struct definition from the name on. -/
def structDecl (c : Cursor) (start : Span) : Read Decl c :=
  let name := c.ident
  let opening := name.cursor.expect .lbrace
  let fields := opening.cursor.fieldDecls
  let close := fields.cursor.expect .rbrace
  let stop := close.cursor.expect .semicolon
  (stop.widen (close.suffix.trans (fields.suffix.trans (opening.suffix.trans name.suffix)))).give
    (.struct ⟨name.value, fields.value, start.merge stop.cursor.lastSpan⟩)

/-- Reads formals separated by commas; where no type begins the list ends, and that is noted. -/
def formalList (c : Cursor) : Read (List Binding) c :=
  match c.formal? with
  | none => ((c.note .typeExpected).stay []).afterNote
  | some first =>
    match first.cursor.accept .comma with
    | none => first.give [first.value]
    | some comma =>
      let more := comma.cursor.formalList
      (more.widen (comma.suffix.trans first.suffix)).give (first.value :: more.value)
termination_by c.rest.length
decreasing_by exact Nat.lt_trans comma.shorter first.shorter

/-- Reads a function from its formals on, after the opening parenthesis. -/
def functionDecl (c : Cursor) (start : Span) (result : TypeRef) (name : Ident) : Read Decl c :=
  let formals := if c.isAt .rparen then c.stay [] else c.formalList
  let close := formals.cursor.expect .rparen
  let body := close.cursor.block
  (body.widen (close.suffix.trans formals.suffix)).give
    (.function ⟨result, name, formals.value, body.value, start.merge body.cursor.lastSpan⟩)

/-- Reads a function or a variable from its name on; `start` is the span of the type before it. -/
def afterType (c : Cursor) (start : Span) (type : TypeRef) : Read Decl c :=
  let name := c.ident
  match name.cursor.accept .lparen with
  | some paren =>
    (paren.cursor.functionDecl start type name.value).widen (paren.suffix.trans name.suffix)
  | none =>
    let close := name.cursor.expect .semicolon
    (close.give (.variable ⟨type, name.value, start.merge close.cursor.lastSpan⟩)).widen name.suffix

/-- Reads a declaration, if one begins here. -/
def decl? (c : Cursor) : Option (Step Decl c) :=
  if c.startsStruct then
    c.next?.map fun word => word.thenRead (word.cursor.structDecl word.value.span)
  else
    c.type?.map fun type => type.thenRead (type.cursor.afterType c.here type.value)

/-- Reads declarations up to the end. -/
def decls (c : Cursor) : Read (List Decl) c :=
  match c.next? with
  | none => c.stay []
  | some t =>
    match c.decl? with
    | some first =>
      let more := first.cursor.decls
      (more.widen first.suffix).give (first.value :: more.value)
    | none =>
      let next := ((t.cursor.noteAt t.value.span .declarationExpected).resumeAtTop t.value).afterNote
      next.cursor.decls.widen (next.suffix.trans t.suffix)
termination_by c.rest.length
decreasing_by
  · exact first.shorter
  · exact Nat.lt_of_le_of_lt next.length_le t.shorter

end Cursor

/-- A program tree and what was noticed while it was read. -/
structure Reading where
  program : Program
  findings : List (Finding SyntaxIssue)

namespace Reading

/-- Reads a token list as a program. -/
def ofTokens (tokens : List Token) : Reading :=
  let decls := Cursor.decls ⟨tokens, none, []⟩
  ⟨⟨decls.value⟩, decls.cursor.findings.reverse⟩

/-- The findings as diagnostics. -/
def report (reading : Reading) : Report :=
  reading.findings.map (Finding.toError SyntaxIssue.message)

end Reading

/-- A source text read as a program: the tree and all diagnostics, those of the characters first. -/
structure Parsed where
  program : Program
  report : Report

/-- Scans and reads a source text. -/
def parse (source : String) : Parsed :=
  let scan := Scan.ofSource source
  let reading := Reading.ofTokens scan.tokens
  ⟨reading.program, scan.report.extend reading.report⟩

end Namescope
