import Namescope.Reading.Cursor
/-!
# Reading expressions

Assignment binds loosest and to the right; below it are five levels of binary operators that bind to
the left, then prefix operators, then atoms. Reading never fails: where an expression is missing, the
number 0 stands and the place is noted.
-/
namespace Namescope

/-- The levels of binary operators. -/
inductive OperatorLevel where
  | or | and | comparison | sum | product
  deriving DecidableEq

namespace OperatorLevel

/-- How loosely a level binds. -/
def rank : OperatorLevel → Nat
  | or => 4
  | and => 3
  | comparison => 2
  | sum => 1
  | product => 0

/-- The next tighter level of binary operators. -/
def tighter? : OperatorLevel → Option OperatorLevel
  | or => some and
  | and => some comparison
  | comparison => some sum
  | sum => some product
  | product => none

/-- The operator of a level that a mark stands for. -/
def operator? : OperatorLevel → Mark → Option BinaryOp
  | or, .orOr => some .or
  | and, .andAnd => some .and
  | comparison, .eqEq => some .eq
  | comparison, .notEq => some .notEq
  | comparison, .lt => some .lt
  | comparison, .gt => some .gt
  | comparison, .ltEq => some .ltEq
  | comparison, .gtEq => some .gtEq
  | sum, .plus => some .add
  | sum, .minus => some .sub
  | product, .star => some .mul
  | product, .slash => some .div
  | _, _ => none

theorem rank_of_tighter? {l m : OperatorLevel} (h : l.tighter? = some m) : m.rank < l.rank := by
  cases l <;> simp_all [tighter?, rank] <;> subst h <;> decide

end OperatorLevel

/-- The operator that a mark stands for in front of its operand. -/
def UnaryOp.ofMark? : Mark → Option UnaryOp
  | .minus => some .neg
  | .bang => some .not
  | _ => none

namespace Cursor

/-- Takes the next token if it is an operator of the given level. -/
def operator? (c : Cursor) (level : OperatorLevel) : Option (Step BinaryOp c) :=
  match c.next? with
  | none => none
  | some t =>
    match t.value.kind with
    | .mark m => (level.operator? m).map t.replace
    | _ => none

/-- Takes the next token if it is a prefix operator. -/
def prefixOp? (c : Cursor) : Option (Step UnaryOp c) :=
  match c.next? with
  | none => none
  | some t =>
    match t.value.kind with
    | .mark m => (UnaryOp.ofMark? m).map t.replace
    | _ => none

/-- Reads the fields after a location. -/
def fields (location : Location) (c : Cursor) : Read Location c :=
  match c.accept .dot with
  | none => c.stay location
  | some dot =>
    let name := dot.cursor.ident
    (fields (.field location name.value none) name.cursor).widen (name.suffix.trans dot.suffix)
termination_by c.rest.length
decreasing_by exact Nat.lt_of_le_of_lt name.length_le dot.shorter

/-- Reads what follows the first name of a location. -/
def location (c : Cursor) (name : Ident) : Read Expr c :=
  let chain := c.fields (.name name)
  chain.give (.place chain.value (name.span.merge chain.cursor.lastSpan))

mutual

/-- Reads an expression. -/
def expr (c : Cursor) : Read Expr c :=
  let target := c.level .or
  match target.cursor.accept .assign with
  | none => target
  | some sign =>
    let start := sign.cursor.noteIf (!target.value.isLocation) sign.value .targetExpected
    let value := start.expr
    (value.widen (by simpa [start] using sign.suffix.trans target.suffix)).give
      (.assign target.value value.value (target.value.span.merge value.value.span))
termination_by 15 * c.rest.length + 12
decreasing_by
  · simp [OperatorLevel.rank]
  · have := target.length_le; have := sign.shorter; simp; omega

/-- Reads operands joined by the operators of a level. -/
def level (l : OperatorLevel) (c : Cursor) : Read Expr c :=
  let first := c.operand l
  (tail l first.value false first.cursor).widen first.suffix
termination_by 15 * c.rest.length + (2 * l.rank + 3)
decreasing_by
  · omega
  · have := first.length_le; simp only [first] at this; omega

/-- Reads one operand of the operators of a level. -/
def operand (l : OperatorLevel) (c : Cursor) : Read Expr c :=
  match _h : l.tighter? with
  | some tighter => c.level tighter
  | none => c.unary
termination_by 15 * c.rest.length + (2 * l.rank + 2)
decreasing_by
  · have := OperatorLevel.rank_of_tighter? _h; omega
  · omega

/-- Reads further operators of a level and their operands; of comparisons only one is allowed, so
`again` says whether there was one already. -/
def tail (l : OperatorLevel) (left : Expr) (again : Bool) (c : Cursor) : Read Expr c :=
  match c.operator? l with
  | none => c.stay left
  | some op =>
    let start := op.cursor.noteIf (again && l = .comparison) c.here .chainedComparison
    let right := start.operand l
    (tail l (.binary op.value left right.value (left.span.merge right.value.span)) true
      right.cursor).widen (right.suffix.trans (by simpa [start] using op.suffix))
termination_by 15 * c.rest.length
decreasing_by
  · have := op.shorter; have : l.rank ≤ 4 := by cases l <;> decide
    simp; omega
  · have := op.shorter; have := right.length_le; simp [right, start] at this; simp; omega

/-- Reads prefix operators and the atom they stand before. -/
def unary (c : Cursor) : Read Expr c :=
  match c.prefixOp? with
  | none => c.atom
  | some op =>
    let inner := op.cursor.unary
    (inner.widen op.suffix).give (.unary op.value inner.value (c.here.merge inner.value.span))
termination_by 15 * c.rest.length + 1
decreasing_by
  · omega
  · have := op.shorter; omega

/-- Reads a constant, a call, a location or an expression in parentheses. -/
def atom (c : Cursor) : Read Expr c :=
  match c.next? with
  | none => ⟨.literal (.int 0) c.here, c.note .expressionExpected, List.suffix_refl _⟩
  | some t =>
    match t.value.kind with
    | .int value => t.give (.literal (.int value) t.value.span)
    | .string raw => t.give (.literal (.string raw) t.value.span)
    | .bool value => t.give (.literal (.bool value) t.value.span)
    | .mark .lparen =>
      let inner := t.cursor.expr
      let close := inner.cursor.expect .rparen
      (close.widen (inner.suffix.trans t.suffix)).give
        (inner.value.withSpan (t.value.span.merge close.value))
    | .ident name =>
      match t.cursor.accept .lparen with
      | none => (t.cursor.location ⟨name, t.value.span, none⟩).widen t.suffix
      | some paren =>
        let args := paren.cursor.args
        (args.widen (paren.suffix.trans t.suffix)).give
          (.call ⟨name, t.value.span, none⟩ args.value (t.value.span.merge args.cursor.lastSpan))
    | _ => ⟨.literal (.int 0) c.here, c.note .expressionExpected, List.suffix_refl _⟩
termination_by 15 * c.rest.length
decreasing_by
  · have := t.shorter; omega
  · have := t.shorter; have := paren.shorter; omega

/-- Reads arguments up to and with the closing parenthesis. -/
def args (c : Cursor) : Read (List Expr) c :=
  let list := if c.isAt .rparen then c.stay [] else c.exprs
  let close := list.cursor.expect .rparen
  (close.widen list.suffix).give list.value
termination_by 15 * c.rest.length + 14
decreasing_by omega

/-- Reads expressions separated by commas. -/
def exprs (c : Cursor) : Read (List Expr) c :=
  let first := c.expr
  match first.cursor.accept .comma with
  | none => first.give [first.value]
  | some comma =>
    let more := comma.cursor.exprs
    (more.widen (comma.suffix.trans first.suffix)).give (first.value :: more.value)
termination_by 15 * c.rest.length + 13
decreasing_by
  · omega
  · have := first.length_le; have := comma.shorter; omega

end

end Cursor

end Namescope
