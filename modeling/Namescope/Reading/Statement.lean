import Namescope.Reading.Expression
/-!
# Reading statements and blocks

A block is local variables and then statements. A statement is known by its first token. After a
failure inside a block reading goes on behind the next semicolon or in front of the next closing brace.
-/
namespace Namescope

namespace Cursor

/-- Reads a type, if one begins here. -/
def type? (c : Cursor) : Option (Step TypeRef c) :=
  match c.next? with
  | none => none
  | some t =>
    match t.value.kind with
    | .keyword .int => some (t.replace ⟨.int, t.value.span⟩)
    | .keyword .bool => some (t.replace ⟨.bool, t.value.span⟩)
    | .keyword .void => some (t.replace ⟨.void, t.value.span⟩)
    | .keyword .struct =>
      let name := t.cursor.ident
      some (t.thenRead (name.give ⟨.struct name.value, t.value.span.merge name.cursor.lastSpan⟩))
    | _ => none

/-- Reads a type and a name, if a type begins here. -/
def formal? (c : Cursor) : Option (Step Binding c) :=
  c.type?.map fun type =>
    let name := type.cursor.ident
    (name.give ⟨type.value, name.value, c.here.merge name.cursor.lastSpan⟩).after type
      (List.suffix_refl _)

/-- Reads a type, a name and a semicolon, if a type begins here. -/
def binding? (c : Cursor) : Option (Step Binding c) :=
  c.type?.map fun type =>
    let name := type.cursor.ident
    let close := name.cursor.expect .semicolon
    (close.give ⟨type.value, name.value, c.here.merge close.cursor.lastSpan⟩).after type name.suffix

/-- Reads the local variables at the head of a block. -/
def locals (c : Cursor) : Read (List Binding) c :=
  match c.binding? with
  | none => c.stay []
  | some first =>
    let more := first.cursor.locals
    (more.widen first.suffix).give (first.value :: more.value)
termination_by c.rest.length
decreasing_by exact first.shorter

/-- Reads a condition in parentheses. -/
def condition (c : Cursor) : Read Expr c :=
  let paren := c.expect .lparen
  let cond := paren.cursor.expr
  let close := cond.cursor.expect .rparen
  (close.widen (cond.suffix.trans paren.suffix)).give cond.value

/-- Reads the semicolon of a statement that begins at `start`. -/
def finish (c : Cursor) (start : Span) (statement : Span → Stmt) : Read (Option Stmt) c :=
  let close := c.expect .semicolon
  close.give (some (statement (start.merge close.cursor.lastSpan)))

/-- Goes on after a statement that failed with the given issue at the next token. -/
def abandon (c : Cursor) (issue : SyntaxIssue) : Read (Option Stmt) c :=
  (c.note issue).skipInBlock.afterNote.give none

/-- Reads a call, an assignment or a step by one, after the name it begins with. -/
def nameStatement (c : Cursor) (name : Ident) : Read (Option Stmt) c :=
  match c.accept .lparen with
  | some paren =>
    let args := paren.cursor.args
    (args.cursor.finish name.span (.call name args.value)).widen (args.suffix.trans paren.suffix)
  | none =>
    let target := c.location name
    match target.cursor.accept .assign with
    | some sign =>
      let value := sign.cursor.expr
      (value.cursor.finish name.span (.assign target.value value.value)).widen
        (value.suffix.trans (sign.suffix.trans target.suffix))
    | none =>
      match target.cursor.accept .plusPlus with
      | some sign =>
        (sign.cursor.finish name.span (.increment target.value)).widen
          (sign.suffix.trans target.suffix)
      | none =>
        match target.cursor.accept .minusMinus with
        | some sign =>
          (sign.cursor.finish name.span (.decrement target.value)).widen
            (sign.suffix.trans target.suffix)
        | none => (target.cursor.abandon .assignmentExpected).widen target.suffix

/-- Reads what follows `cin`. -/
def inputStatement (c : Cursor) (start : Span) : Read (Option Stmt) c :=
  let arrow := c.expect .shiftRight
  match arrow.cursor.next? with
  | none => (arrow.cursor.abandon .inputTargetExpected).widen arrow.suffix
  | some t =>
    match t.value.kind with
    | .ident name =>
      let target := t.cursor.location ⟨name, t.value.span, none⟩
      (target.cursor.finish start (.read target.value)).widen
        (target.suffix.trans (t.suffix.trans arrow.suffix))
    | _ => (arrow.cursor.abandon .inputTargetExpected).widen arrow.suffix

/-- Reads what follows `cout`. -/
def outputStatement (c : Cursor) (start : Span) : Read (Option Stmt) c :=
  let arrow := c.expect .shiftLeft
  let value := arrow.cursor.expr
  (value.cursor.finish start (.write value.value)).widen (value.suffix.trans arrow.suffix)

/-- Reads what follows `return`. -/
def returnStatement (c : Cursor) (start : Span) : Read (Option Stmt) c :=
  if c.isAt .semicolon then c.finish start (.ret none)
  else
    let value := c.expr
    (value.cursor.finish start (.ret (some value.value))).widen value.suffix

mutual

/-- Reads a block, its braces included. -/
def block (c : Cursor) : Read Block c :=
  let opening := c.expect .lbrace
  let vars := opening.cursor.locals
  let body := vars.cursor.statements
  let close := body.cursor.expect .rbrace
  (close.widen (body.suffix.trans (vars.suffix.trans opening.suffix))).give
    (.mk vars.value body.value (opening.value.merge close.cursor.lastSpan))
termination_by 3 * c.rest.length + 1
decreasing_by
  have := opening.length_le; have := vars.length_le; simp only [opening, vars] at *; omega

/-- Reads statements up to a closing brace or the end. -/
def statements (c : Cursor) : Read (List Stmt) c :=
  match c.next? with
  | none => c.stay []
  | some t =>
    if t.value.kind = .mark .rbrace then c.stay []
    else
      let first := statement t.value t.cursor
      let more := first.cursor.statements
      (more.widen (first.suffix.trans t.suffix)).give (first.value.toList ++ more.value)
termination_by 3 * c.rest.length
decreasing_by
  · have := t.shorter; omega
  · have := t.shorter; have := first.length_le; simp only [first] at this; omega

/-- Reads the statement whose first token is `t`, or notes that there is none and goes on behind it. -/
def statement (t : Token) (c : Cursor) : Read (Option Stmt) c :=
  match t.kind with
  | .ident name => c.nameStatement ⟨name, t.span, none⟩
  | .keyword .cin => c.inputStatement t.span
  | .keyword .cout => c.outputStatement t.span
  | .keyword .returnWord => c.returnStatement t.span
  | .keyword .ifWord =>
    let cond := c.condition
    let yes := cond.cursor.block
    match yes.cursor.acceptKind (.keyword .elseWord) with
    | none =>
      (yes.widen cond.suffix).give
        (some (.ifThen cond.value yes.value (t.span.merge yes.cursor.lastSpan)))
    | some word =>
      let no := word.cursor.block
      (no.widen (word.suffix.trans (yes.suffix.trans cond.suffix))).give
        (some (.ifElse cond.value yes.value no.value (t.span.merge no.cursor.lastSpan)))
  | .keyword .whileWord =>
    let cond := c.condition
    let body := cond.cursor.block
    (body.widen cond.suffix).give
      (some (.whileLoop cond.value body.value (t.span.merge body.cursor.lastSpan)))
  | .keyword .repeatWord =>
    let cond := c.condition
    let body := cond.cursor.block
    (body.widen cond.suffix).give
      (some (.repeatLoop cond.value body.value (t.span.merge body.cursor.lastSpan)))
  | kind =>
    let issue := if kind.startsType then SyntaxIssue.declarationTooLate else .statementExpected
    ((c.noteAt t.span issue).resumeInBlock t).afterNote.give none
termination_by 3 * c.rest.length + 2
decreasing_by
  · have := cond.length_le; simp only [cond] at *; omega
  · have := cond.length_le; have := word.shorter; have := yes.length_le
    simp only [yes] at *; omega
  · have := cond.length_le; simp only [cond] at *; omega
  · have := cond.length_le; simp only [cond] at *; omega

end

end Cursor

end Namescope
