import Namescope.Proofs.Tree.Relabel
import Namescope.Tree.Words
/-!
# The words of a relabelled tree

A tree is printed from its shape and its labels, so a relabelled tree has relabelled words. Names show in
words, symbols and noted types show in notes only, and spans do not show at all.
-/
namespace Namescope

section
variable (f : Relabel)

/-- A note relabelled. -/
def Note.relabel : Note → Note
  | .symbol id => .symbol (f.sym id)
  | .type name => .type (f.resolved name)

/-- A token relabelled. -/
def TokenKind.relabel : TokenKind → TokenKind
  | .ident name => .ident (f.name name)
  | kind => kind

/-- A word relabelled. -/
def Word.relabel : Word → Word
  | .token kind => .token (kind.relabel f)
  | .gap text => .gap text
  | .note n => .note (n.relabel f)

@[simp] theorem Word.relabel_mark (m : Mark) : (mark m).relabel f = mark m := rfl

@[simp] theorem Word.relabel_keyword (k : Keyword) : (keyword k).relabel f = keyword k := rfl

@[simp] theorem Word.relabel_space : space.relabel f = space := rfl

@[simp] theorem Word.relabel_newline : newline.relabel f = newline := rfl

@[simp] theorem Word.relabel_pad (indent : Nat) : (pad indent).relabel f = pad indent := rfl

@[simp] theorem Word.relabel_literal (value : Literal) :
    (token value.token).relabel f = token value.token := by
  cases value <;> rfl

@[simp] theorem Ident.word_relabel (ident : Ident) : (ident.relabel f).word = ident.word.relabel f := rfl

@[simp] theorem Ident.useWords_relabel (ident : Ident) :
    (ident.relabel f).useWords = ident.useWords.map (Word.relabel f) := rfl

theorem Location.words_relabel (l : Location) : (l.relabel f).words = l.words.map (Word.relabel f) := by
  induction l with
  | name => rfl
  | field base ident resolved ih =>
    simp only [relabel, words, ih, List.map_append, List.map_cons, List.map_nil, Ident.word_relabel,
      Word.relabel_mark]
    rfl

mutual

theorem Expr.words_relabel : ∀ e : Expr, (e.relabel f).words = e.words.map (Word.relabel f)
  | .literal value _ => by simp [relabel, words]
  | .place location _ => location.words_relabel f
  | .assign target value _ => by simp [relabel, words, target.words_relabel, value.words_relabel]
  | .call callee args _ => by simp [relabel, words, Expr.argWords_relabel args]
  | .unary op operand _ => by simp [relabel, words, operand.words_relabel]
  | .binary op left right _ => by simp [relabel, words, left.words_relabel, right.words_relabel]

theorem Expr.argWords_relabel :
    ∀ es : List Expr, argWords (relabelAll f es) = (argWords es).map (Word.relabel f)
  | [] => rfl
  | first :: more => by simp [relabelAll, argWords, first.words_relabel, Expr.furtherWords_relabel more]

theorem Expr.furtherWords_relabel :
    ∀ es : List Expr, furtherWords (relabelAll f es) = (furtherWords es).map (Word.relabel f)
  | [] => rfl
  | next :: more => by simp [relabelAll, furtherWords, next.words_relabel, Expr.furtherWords_relabel more]

end

theorem TypeRef.words_relabel (type : TypeRef) : (type.relabel f).words = type.words.map (Word.relabel f) := by
  obtain ⟨kind, span⟩ := type
  cases kind <;> rfl

theorem Binding.words_relabel (b : Binding) : (b.relabel f).words = b.words.map (Word.relabel f) := by
  simp [words, relabel, TypeRef.words_relabel]

theorem Binding.lineWords_relabel (indent : Nat) (b : Binding) :
    (b.relabel f).lineWords indent = (b.lineWords indent).map (Word.relabel f) := by
  simp [lineWords, words_relabel]

/-- Variables or fields on their lines. -/
theorem Binding.flatMap_lineWords_relabel (indent : Nat) (bs : List Binding) :
    (bs.map (Binding.relabel f)).flatMap (lineWords indent) =
      (bs.flatMap (lineWords indent)).map (Word.relabel f) := by
  simp only [List.flatMap_map, List.map_flatMap, lineWords_relabel]

theorem lineWords_relabel (indent : Nat) (ws : List Word) :
    (lineWords indent ws).map (Word.relabel f) = lineWords indent (ws.map (Word.relabel f)) := by
  simp [lineWords]

theorem headWords_relabel (indent : Nat) (word : Keyword) (cond : Expr) :
    headWords indent word (cond.relabel f) = (headWords indent word cond).map (Word.relabel f) := by
  simp [headWords, cond.words_relabel]

theorem closeWords_relabel (indent : Nat) : (closeWords indent).map (Word.relabel f) = closeWords indent := rfl

mutual

theorem Block.words_relabel :
    ∀ (b : Block) (indent : Nat), (b.relabel f).words indent = (b.words indent).map (Word.relabel f)
  | .mk locals body _, indent => by
    simp only [Block.relabel, Block.words, Binding.flatMap_lineWords_relabel, Stmt.listWords_relabel body,
      List.map_append]

theorem Stmt.words_relabel :
    ∀ (s : Stmt) (indent : Nat), (s.relabel f).words indent = (s.words indent).map (Word.relabel f)
  | .assign target value _, indent => by
    simp [Stmt.relabel, Stmt.words, lineWords_relabel, target.words_relabel, value.words_relabel]
  | .increment target _, indent | .decrement target _, indent | .read target _, indent
  | .write target _, indent => by
    simp [Stmt.relabel, Stmt.words, lineWords_relabel, target.words_relabel]
  | .ifThen cond yes _, indent => by
    simp [Stmt.relabel, Stmt.words, headWords_relabel, closeWords_relabel, yes.words_relabel]
  | .ifElse cond yes no _, indent => by
    simp [Stmt.relabel, Stmt.words, headWords_relabel, closeWords_relabel, yes.words_relabel, no.words_relabel]
  | .whileLoop cond body _, indent | .repeatLoop cond body _, indent => by
    simp [Stmt.relabel, Stmt.words, headWords_relabel, closeWords_relabel, body.words_relabel]
  | .call callee args _, indent => by
    simp [Stmt.relabel, Stmt.words, lineWords_relabel, Expr.argWords_relabel]
  | .ret none _, indent => rfl
  | .ret (some value) _, indent => by
    simp [Stmt.relabel, Stmt.words, lineWords_relabel, value.words_relabel]

theorem Stmt.listWords_relabel : ∀ (body : List Stmt) (indent : Nat),
    Stmt.listWords indent (Stmt.relabelAll f body) = (Stmt.listWords indent body).map (Word.relabel f)
  | [], _ => rfl
  | first :: more, indent => by
    simp only [Stmt.relabelAll, Stmt.listWords, first.words_relabel, Stmt.listWords_relabel more,
      List.map_append]

end

theorem formalWords_relabel (bs : List Binding) :
    formalWords (bs.map (Binding.relabel f)) = (formalWords bs).map (Word.relabel f) := by
  cases bs with
  | nil => rfl
  | cons first more =>
    simp [formalWords, List.flatMap_map, List.map_flatMap, Binding.words_relabel]

/-- A declaration is printed from its labels. -/
theorem Decl.words_relabel (d : Decl) : (d.relabel f).words = d.words.map (Word.relabel f) := by
  rcases d with b | d | d
  · exact b.lineWords_relabel f 0
  · simp [relabel, words, FunctionDecl.relabel, TypeRef.words_relabel, formalWords_relabel, Block.words_relabel]
  · simp [relabel, words, StructDecl.relabel, Binding.flatMap_lineWords_relabel]

/-- A program is printed from its labels. -/
theorem Program.words_relabel (p : Program) : (p.relabel f).words = p.words.map (Word.relabel f) := by
  simp only [words, relabel, List.flatMap_map, List.map_flatMap, Decl.words_relabel]

end

/-- What is printed without annotations does not show what name resolution writes. -/
theorem Program.print_bare (p : Program) : p.bare.print = p.print := by
  unfold print text bare
  rw [p.words_relabel, List.flatMap_map]
  congr 2
  funext w
  rcases w with kind | text | note
  · cases kind <;> rfl
  · rfl
  · rfl

end Namescope
