import Namescope.Proofs.Naming.Annotations
import Namescope.Proofs.Printing.Lexing
/-!
# Annotations are insertions

With annotations a program is printed as without them, but for what stands behind its identifiers: the symbol of
a variable, callee or base that is used in a statement, and the noted type of a field that is taken. The
identifiers of a printed program come in the order in which the walk over its tree meets them.
-/
namespace Namescope

/-! ## What is inserted, and where -/

/-- A text in parentheses. -/
def parenthesized (text : String) : List Char := '(' :: text.toList ++ [')']

/-- What is inserted behind an identifier. Names that are declared and names of types get nothing. -/
def Occurrence.insertion (table : SymbolTable) (o : Occurrence) : List Char :=
  match o.role with
  | .variable | .callee | .base => ((o.ident.sym.bind table.get?).map fun s => parenthesized s.display).getD []
  | .field => (o.resolved.map parenthesized).getD []
  | .structName | .functionName | .bindingName | .typeName => []

/-- The words without the places for notes. -/
def wordsBetween (ws : List Word) : List Word := ws.filter fun
  | .note _ => false
  | _ => true

/-- The names in the words. -/
def namesIn (ws : List Word) : List String := ws.filterMap fun
  | .token (.ident name) => some name
  | _ => none

/-- The text of words, with the first insertion behind the first name in them and so on. -/
def weave : List (List Char) → List Word → List Char
  | _, [] => []
  | first :: more, .token (.ident name) :: ws => name.toList ++ (first ++ weave more ws)
  | insertions, w :: ws => w.text (fun _ => []) ++ weave insertions ws

@[simp] theorem wordsBetween_append (ws vs : List Word) :
    wordsBetween (ws ++ vs) = wordsBetween ws ++ wordsBetween vs := List.filter_append ..

@[simp] theorem namesIn_append (ws vs : List Word) : namesIn (ws ++ vs) = namesIn ws ++ namesIn vs :=
  List.filterMap_append ..

/-- Notes show only where something is inserted. -/
theorem plainText_wordsBetween (ws : List Word) : plainText (wordsBetween ws) = plainText ws := by
  induction ws with
  | nil => rfl
  | cons w ws ih =>
    cases w with
    | token kind => exact congrArg (kind.spelling ++ ·) ih
    | gap text => exact congrArg (text ++ ·) ih
    | note n => exact ih

/-! ## Words and the identifiers in them -/

/-- Whether a word is neither a name nor a place for a note. -/
def Word.silent : Word → Bool
  | token (.ident _) | note _ => false
  | _ => true

/-- The names in the words are those of the identifiers in order. With the insertions of these the words read as
they are annotated. -/
structure Annotates (table : SymbolTable) (ws : List Word) (os : List Occurrence) : Prop where
  names : namesIn (wordsBetween ws) = os.map fun o => o.ident.name
  text : ∀ insertions vs, weave (os.map (Occurrence.insertion table) ++ insertions) (wordsBetween ws ++ vs) =
    ws.flatMap (Word.text (Program.noteText table)) ++ weave insertions vs

namespace Annotates
variable {table : SymbolTable} {ws vs : List Word} {os us : List Occurrence}

theorem nil : Annotates table [] [] := ⟨rfl, fun _ _ => rfl⟩

theorem append (h : Annotates table ws os) (h' : Annotates table vs us) : Annotates table (ws ++ vs) (os ++ us) where
  names := by rw [wordsBetween_append, namesIn_append, h.names, h'.names, List.map_append]
  text insertions more := by
    rw [wordsBetween_append, List.map_append, List.append_assoc, List.append_assoc, h.text, h'.text,
      List.flatMap_append, List.append_assoc]

theorem of_silent {w : Word} (hw : w.silent = true) : Annotates table [w] [] := by
  rcases w with kind | text | note
  · cases kind with
    | ident name => cases hw
    | _ => exact ⟨rfl, fun insertions vs => by cases insertions <;> simp [weave, wordsBetween, Word.text]⟩
  · exact ⟨rfl, fun insertions vs => by cases insertions <;> simp [weave, wordsBetween, Word.text]⟩
  · cases hw

/-- Punctuation, keywords, constants and gaps have no identifiers in them. -/
theorem silent (h : ws.all Word.silent = true) : Annotates table ws [] := by
  induction ws with
  | nil => exact nil
  | cons w ws ih =>
    rw [List.all_cons, Bool.and_eq_true] at h
    exact (of_silent h.1).append (ih h.2)

theorem after (h : Annotates table vs os) (ws : List Word) (hws : ws.all Word.silent = true) :
    Annotates table (ws ++ vs) os :=
  (silent hws).append h

theorem before (h : Annotates table ws os) (vs : List Word) (hvs : vs.all Word.silent = true) :
    Annotates table (ws ++ vs) os := by
  have hboth := h.append (silent hvs)
  rwa [List.append_nil] at hboth

/-- A name behind which nothing is inserted. -/
theorem name (o : Occurrence) (h : o.insertion table = []) : Annotates table [o.ident.word] [o] where
  names := rfl
  text insertions more := by
    show o.ident.name.toList ++ (o.insertion table ++ weave insertions more) = _
    rw [h]
    simp [Ident.word, Word.text, TokenKind.spelling]

/-- A name with a place for what is inserted behind it. -/
theorem noted (o : Occurrence) (note : Note) (h : o.insertion table = Program.noteText table note) :
    Annotates table [o.ident.word, .note note] [o] where
  names := rfl
  text insertions more := by
    show o.ident.name.toList ++ (o.insertion table ++ weave insertions more) = _
    rw [h]
    simp [Ident.word, Word.text, TokenKind.spelling]

theorem flatMap {α : Type} {words : α → List Word} {occurrences : α → List Occurrence}
    (h : ∀ a, Annotates table (words a) (occurrences a)) (as : List α) :
    Annotates table (as.flatMap words) (as.flatMap occurrences) := by
  induction as with
  | nil => exact nil
  | cons a as ih => exact (h a).append ih

end Annotates

/-! ## Expressions -/

section
variable (table : SymbolTable)

/-- A variable, a callee or a base is annotated with its symbol. -/
theorem Ident.annotates (ident : Ident) {role : Role} (h : role = .variable ∨ role = .callee ∨ role = .base) :
    Annotates table ident.useWords [⟨role, ident, none⟩] := by
  refine .noted ⟨role, ident, none⟩ _ ?_
  rcases h with rfl | rfl | rfl <;> rfl

theorem Location.links_annotates (location : Location) : Annotates table location.words location.links := by
  induction location with
  | name ident => exact ident.annotates table (.inr (.inr rfl))
  | field base ident resolved ih =>
    have hfield : Annotates table [ident.word, .note (.type resolved)] [⟨.field, ident, resolved⟩] :=
      .noted ⟨.field, ident, resolved⟩ _ rfl
    have hall := (ih.after [.mark .lparen] rfl).append (hfield.after [.mark .rparen, .mark .dot] rfl)
    exact hall

theorem Location.annotates (location : Location) : Annotates table location.words location.occurrences := by
  cases location with
  | name ident => exact ident.annotates table (.inl rfl)
  | field base ident resolved => exact links_annotates table _

mutual

/-- The identifiers of an expression are printed in the order in which they are met. -/
theorem Expr.annotates : ∀ e : Expr, Annotates table e.words (e.items.flatMap Item.occurrences)
  | .literal value _ => by
    have hsilent : [Word.token value.token].all Word.silent = true := by cases value <;> rfl
    exact .silent hsilent
  | .place location _ => by
    rw [Expr.items, List.flatMap_singleton]
    exact location.annotates table
  | .assign target value _ => by
    rw [Expr.items, List.flatMap_append]
    exact (((target.annotates.after [.mark .lparen] rfl).before _ rfl).append value.annotates).before _ rfl
  | .call callee args _ => by
    have hcallee := callee.annotates table (.inr (.inl rfl))
    exact (hcallee.append ((Expr.argWords_annotates args).after [.mark .lparen] rfl)).before _ rfl
  | .unary op operand _ => by
    exact (operand.annotates.after [.mark .lparen, .mark op.mark] rfl).before _ rfl
  | .binary op left right _ => by
    rw [Expr.items, List.flatMap_append]
    exact (((left.annotates.after [.mark .lparen] rfl).before _ rfl).append right.annotates).before _ rfl

theorem Expr.argWords_annotates :
    ∀ es : List Expr, Annotates table (argWords es) ((listItems es).flatMap Item.occurrences)
  | [] => .nil
  | first :: more => by
    rw [Expr.listItems, List.flatMap_append]
    exact first.annotates.append (Expr.furtherWords_annotates more)

theorem Expr.furtherWords_annotates :
    ∀ es : List Expr, Annotates table (furtherWords es) ((listItems es).flatMap Item.occurrences)
  | [] => .nil
  | next :: more => by
    rw [Expr.listItems, List.flatMap_append]
    exact (next.annotates.after [.mark .comma, .space] rfl).append (Expr.furtherWords_annotates more)

end

/-! ## Declarations and statements -/

theorem TypeRef.annotates (type : TypeRef) : Annotates table type.words type.occurrences := by
  obtain ⟨kind, span⟩ := type
  cases kind with
  | int | bool | void => exact .silent rfl
  | struct name =>
    exact (Annotates.name ⟨.typeName, name, none⟩ rfl).after [.keyword .struct, .space] rfl

theorem Binding.annotates (b : Binding) : Annotates table b.words b.occurrences :=
  (b.type.annotates table).append ((Annotates.name ⟨.bindingName, b.name, none⟩ rfl).after [.space] rfl)

variable {table} in
theorem Annotates.line {ws : List Word} {os : List Occurrence} (h : Annotates table ws os) (indent : Nat) :
    Annotates table (lineWords indent ws) os :=
  (h.after [.pad indent] rfl).before _ rfl

theorem Binding.lines_annotates (indent : Nat) (bs : List Binding) :
    Annotates table (bs.flatMap (lineWords indent)) (bs.flatMap occurrences) :=
  .flatMap (fun b => (b.annotates table).line indent) bs

theorem Binding.occurrences_visits (bs : List Binding) :
    (Visit.bindings bs).flatMap Visit.occurrences = bs.flatMap occurrences := by
  rw [Visit.bindings, List.flatMap_map]
  rfl

/-- A scope has the identifiers in it. -/
theorem Visit.occurrences_scoped (vs : List Visit) :
    (Visit.scoped vs).flatMap occurrences = vs.flatMap occurrences := by
  rw [Visit.scoped, List.cons_append, List.flatMap_cons, List.flatMap_append]
  exact List.append_nil _

theorem Visit.occurrences_items (items : List Item) :
    (Visit.items items).flatMap occurrences = items.flatMap Item.occurrences := by
  rw [Visit.items, List.flatMap_map]
  rfl

theorem headWords_annotates (indent : Nat) (word : Keyword) (cond : Expr) :
    Annotates table (headWords indent word cond) (cond.items.flatMap Item.occurrences) :=
  ((cond.annotates table).after [.pad indent, .keyword word, .space, .mark .lparen] rfl).before _ rfl

mutual

theorem Block.annotates : ∀ (b : Block) (indent : Nat),
    Annotates table (b.words indent) (b.visits.flatMap Visit.occurrences)
  | .mk locals body _, indent => by
    rw [Block.visits, List.flatMap_append, Binding.occurrences_visits]
    exact (Binding.lines_annotates table indent locals).append (Stmt.listWords_annotates body indent)

/-- The identifiers of a statement are printed in the order in which they are met. -/
theorem Stmt.annotates : ∀ (s : Stmt) (indent : Nat),
    Annotates table (s.words indent) (s.visits.flatMap Visit.occurrences)
  | .assign target value _, indent => by
    rw [Stmt.visits, Visit.occurrences_items, List.flatMap_append]
    exact (((target.annotates table).before _ rfl).append (value.annotates table)).line indent
  | .increment target _, indent | .decrement target _, indent => by
    rw [Stmt.visits, Visit.occurrences_items]
    exact ((target.annotates table).before _ rfl).line indent
  | .read operand _, indent | .write operand _, indent => by
    rw [Stmt.visits, Visit.occurrences_items]
    exact ((operand.annotates table).after _ rfl).line indent
  | .ifThen cond body _, indent | .whileLoop cond body _, indent | .repeatLoop cond body _, indent => by
    rw [Stmt.visits, List.flatMap_append, Visit.occurrences_items, Visit.occurrences_scoped]
    exact ((headWords_annotates table indent _ cond).append (body.annotates _)).before _ rfl
  | .ifElse cond yes no _, indent => by
    rw [Stmt.visits, List.flatMap_append, List.flatMap_append, Visit.occurrences_items, Visit.occurrences_scoped,
      Visit.occurrences_scoped, ← List.append_assoc]
    have hyes := ((headWords_annotates table indent .ifWord cond).append (yes.annotates (indent + indentStep))).before
      (closeWords indent) rfl
    exact ((hyes.before _ rfl).append (no.annotates _)).before _ rfl
  | .call callee args _, indent => by
    have hcallee := callee.annotates table (.inr (.inl rfl))
    have hcall := hcallee.append ((Expr.argWords_annotates table args).after [.mark .lparen] rfl)
    rw [Stmt.visits, Visit.occurrences_items]
    exact (hcall.before _ rfl).line indent
  | .ret none _, _ => .silent rfl
  | .ret (some value) _, indent => by
    rw [Stmt.visits, Visit.occurrences_items]
    exact ((value.annotates table).after _ rfl).line indent

theorem Stmt.listWords_annotates : ∀ (body : List Stmt) (indent : Nat),
    Annotates table (Stmt.listWords indent body) ((Stmt.listVisits body).flatMap Visit.occurrences)
  | [], _ => .nil
  | first :: more, indent => by
    rw [Stmt.listVisits, List.flatMap_append]
    exact (first.annotates indent).append (Stmt.listWords_annotates more indent)

end

theorem formalWords_annotates (formals : List Binding) :
    Annotates table (formalWords formals) (formals.flatMap Binding.occurrences) := by
  cases formals with
  | nil => exact .nil
  | cons first more =>
    have hmore := Annotates.flatMap (fun next : Binding =>
      (next.annotates table).after [.mark .comma, .space] rfl) more
    exact (first.annotates table).append hmore

theorem Decl.annotates (d : Decl) : Annotates table d.words (d.visits.flatMap Visit.occurrences) := by
  rcases d with b | d | d
  · rw [Decl.visits, List.flatMap_singleton]
    exact (b.annotates table).line 0
  · have hname : Annotates table [.space, d.name.word, .mark .lparen] [⟨.functionName, d.name, none⟩] :=
      ((Annotates.name ⟨.functionName, d.name, none⟩ rfl).after [.space] rfl).before [.mark .lparen] rfl
    have hhead := ((d.result.annotates table).append hname).append (formalWords_annotates table d.formals)
    have hall := ((hhead.before [.mark .rparen, .space, .mark .lbrace, .newline] rfl).append
      (d.body.annotates table indentStep)).before [.mark .rbrace, .newline, .newline] rfl
    rw [Decl.visits, List.flatMap_append, Visit.occurrences_scoped, List.flatMap_append, Binding.occurrences_visits,
      ← List.append_assoc]
    exact hall
  · have hname : Annotates table [.keyword .struct, .space, d.name.word, .mark .lbrace, .newline]
        [⟨.structName, d.name, none⟩] :=
      ((Annotates.name ⟨.structName, d.name, none⟩ rfl).after [.keyword .struct, .space] rfl).before
        [.mark .lbrace, .newline] rfl
    rw [Decl.visits, List.flatMap_singleton]
    exact (hname.append (Binding.lines_annotates table indentStep d.fields)).before _ rfl

end

/-- Without annotations a program is printed as its words between the notes. The names in these are those of its
identifiers in order, and with annotations the text is the same but for what is inserted behind them. -/
theorem annotations_inserted (p : Program) (table : SymbolTable) :
    p.print = String.ofList (plainText (wordsBetween p.words)) ∧
      namesIn (wordsBetween p.words) = p.occurrences.map (fun o => o.ident.name) ∧
      p.printAnnotated table =
        String.ofList (weave (p.occurrences.map (Occurrence.insertion table)) (wordsBetween p.words)) := by
  have hall : Annotates table p.words p.occurrences := by
    rw [Program.occurrences, Program.visits, List.flatMap_assoc]
    exact .flatMap (fun d => d.annotates table) p.decls
  refine ⟨?_, hall.names, ?_⟩
  · rw [plainText_wordsBetween]
    rfl
  · have htext := hall.text [] []
    rw [List.append_nil, List.append_nil] at htext
    rw [htext]
    exact congrArg String.ofList (List.append_nil _).symm

end Namescope
