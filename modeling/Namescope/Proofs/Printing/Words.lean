import Namescope.Proofs.Printing.Lexing
import Namescope.Proofs.Tree.Words
/-!
# The words of a program keep apart

The words of a tree do not depend on where it stands, and no token of a printed program runs into the next
one: names and numbers stand in front of blanks and punctuation, and what follows a prefix operator is no
operator.
-/
namespace Namescope

/-! ## Words do not depend on spans -/

theorem Word.relabel_unplaced : Word.relabel .unplaced = id := by
  funext w
  rcases w with kind | text | n
  · cases kind <;> rfl
  · rfl
  · cases n <;> rfl

/-- A program is printed alike wherever its parts stand. -/
theorem Program.words_unplaced (p : Program) : (p.relabel .unplaced).words = p.words := by
  rw [p.words_relabel, Word.relabel_unplaced, List.map_id]

/-! ## What a token ends before -/

/-- A name or a number ends in front of this text. -/
def Closes (rest : List Char) : Prop := ∀ c ∈ rest.head?, inWord c = false

theorem closes_cons {c : Char} {rest : List Char} (h : inWord c = false) : Closes (c :: rest) := by
  rintro _ ⟨⟩
  exact h

@[simp] theorem closes_space (rest : List Char) : Closes (' ' :: rest) := closes_cons (by decide)

@[simp] theorem closes_mark (m : Mark) (rest : List Char) : Closes (m.letters ++ rest) := by
  cases m <;> exact closes_cons (by decide)

/-- The characters that an expression can begin with. -/
def Opens (c : Char) : Prop := startsWord c = true ∨ c.isDigit = true ∨ c = '"' ∨ c = '('

instance (c : Char) : Decidable (Opens c) := inferInstanceAs (Decidable (_ ∨ _ ∨ _ ∨ _))

theorem isDigit_eq_false {c : Char} (h : inWord c = false) : c.isDigit = false := by
  simp only [inWord, Char.isAlphanum, Bool.or_eq_false_iff] at h
  exact h.1.2

/-- The marks that no other mark goes on. -/
def Mark.alone : Mark → Bool
  | plus | minus | slash | bang | assign | lt | gt => false
  | _ => true

theorem Mark.eq_of_alone {m m' : Mark} (h : m.alone = true) (hfront : m.letters <+: m'.letters) : m = m' := by
  have hall : ∀ m ∈ all, m.alone = true → ∀ m' ∈ all, m.letters.isPrefixOf m'.letters = true → m = m' := by
    decide
  exact hall m (mem_all m) h m' (mem_all m') (List.isPrefixOf_iff_prefix.2 hfront)

theorem endsBefore_of_alone {m : Mark} (h : m.alone = true) (c : Char) : (TokenKind.mark m).endsBefore c := by
  refine ⟨fun m' e => ?_, fun e => ?_⟩
  · obtain rfl := Mark.eq_of_alone h ⟨[c], e.symm⟩
    simpa using congrArg List.length e
  · cases m <;> cases h <;> cases e

theorem endsBefore_space (m : Mark) : (TokenKind.mark m).endsBefore ' ' := by
  refine ⟨fun m' e => ?_, fun e => ?_⟩
  · have hlast := congrArg List.getLast? e
    rw [List.getLast?_concat] at hlast
    cases m' <;> simp [Mark.letters] at hlast
  · have hlast := congrArg List.getLast? e
    rw [List.getLast?_concat] at hlast
    cases hlast

theorem endsBefore_of_opens (op : UnaryOp) {c : Char} (hc : Opens c) : (TokenKind.mark op.mark).endsBefore c := by
  refine ⟨fun m' e => ?_, fun e => ?_⟩
  · cases op <;> cases m' <;> simp [Mark.letters, UnaryOp.mark] at e
    all_goals
      subst e
      exact absurd hc (by decide)
  · cases op <;> simp [Mark.letters, UnaryOp.mark] at e

/-! ## Words one after the other -/

section
variable {ws : List Word} {rest : List Char}

@[simp] theorem tokensOf_mark (m : Mark) : tokensOf (.mark m :: ws) = .mark m :: tokensOf ws := rfl

@[simp] theorem tokensOf_keyword (k : Keyword) : tokensOf (.keyword k :: ws) = .keyword k :: tokensOf ws := rfl

@[simp] theorem tokensOf_word (ident : Ident) : tokensOf (ident.word :: ws) = .ident ident.name :: tokensOf ws := rfl

@[simp] theorem tokensOf_space : tokensOf (.space :: ws) = tokensOf ws := rfl

@[simp] theorem tokensOf_newline : tokensOf (.newline :: ws) = tokensOf ws := rfl

@[simp] theorem tokensOf_pad (n : Nat) : tokensOf (.pad n :: ws) = tokensOf ws := rfl

@[simp] theorem written_word (ident : Ident) :
    Written (ident.word :: ws) ↔ Writable (.ident ident.name) ∧ Written ws := written_token _

@[simp] theorem plainText_mark (m : Mark) : plainText (.mark m :: ws) = m.letters ++ plainText ws := rfl

@[simp] theorem plainText_space : plainText (.space :: ws) = ' ' :: plainText ws := rfl

@[simp] theorem spaced_nil : Spaced [] rest := trivial

@[simp] theorem spaced_space : Spaced (.space :: ws) rest ↔ Spaced ws rest :=
  and_iff_right (List.forall_mem_singleton.2 (by decide))

@[simp] theorem spaced_newline : Spaced (.newline :: ws) rest ↔ Spaced ws rest :=
  and_iff_right (List.forall_mem_singleton.2 (by decide))

@[simp] theorem spaced_pad (n : Nat) : Spaced (.pad n :: ws) rest ↔ Spaced ws rest :=
  and_iff_right fun c hc => by rw [List.eq_of_mem_replicate hc]; decide

theorem spaced_alone {m : Mark} (h : m.alone = true) : Spaced (.mark m :: ws) rest ↔ Spaced ws rest :=
  and_iff_right fun c _ => endsBefore_of_alone h c

@[simp] theorem spaced_mark_space (m : Mark) : Spaced (.mark m :: .space :: ws) rest ↔ Spaced ws rest := by
  refine (and_iff_right ?_).trans spaced_space
  rintro _ ⟨⟩
  exact endsBefore_space m

@[simp] theorem spaced_keyword (k : Keyword) :
    Spaced (.keyword k :: ws) rest ↔ Closes (plainText ws ++ rest) ∧ Spaced ws rest := .rfl

@[simp] theorem spaced_word (ident : Ident) :
    Spaced (ident.word :: ws) rest ↔ Closes (plainText ws ++ rest) ∧ Spaced ws rest := .rfl

end

/-! ## Words in front of what closes -/

/-- The words keep apart in front of every text that a name or a number ends before. -/
def Apart (ws : List Word) : Prop := ∀ rest, Closes rest → Spaced ws rest

section
variable {ws vs : List Word}

theorem Apart.before_mark {m : Mark} (h : Apart ws) (hm : m.alone = true) (rest : List Char) :
    Spaced (ws ++ [.mark m]) rest := by
  rw [spaced_append, plainText_mark, List.append_assoc]
  exact ⟨h _ (closes_mark m _), (spaced_alone hm).2 spaced_nil⟩

theorem Apart.parens (h : Apart ws) : Apart (.mark .lparen :: ws ++ [.mark .rparen]) := fun rest _ =>
  (spaced_alone rfl).2 (h.before_mark rfl rest)

theorem Apart.between (hws : Apart ws) (m : Mark) (hvs : Apart vs) :
    Apart (ws ++ [.space, .mark m, .space] ++ vs) := by
  intro rest hrest
  have hmark : Spaced [.space, .mark m, .space] (plainText vs ++ rest) := by simp
  exact spaced_append.2 ⟨spaced_append.2 ⟨hws _ (closes_space _), hmark⟩, hvs rest hrest⟩

theorem Apart.comma (hws : Apart ws) (hvs : Apart vs) : Apart (ws ++ .mark .comma :: .space :: vs) :=
  fun rest hrest =>
    spaced_append.2 ⟨hws _ (closes_mark .comma _), (spaced_mark_space _).2 (hvs rest hrest)⟩

theorem Apart.call (callee : Ident) (h : Apart ws) :
    Apart (callee.useWords ++ .mark .lparen :: ws ++ [.mark .rparen]) := fun rest hrest =>
  (spaced_word callee).2 ⟨closes_mark .lparen _, h.parens rest hrest⟩

theorem Apart.after_mark (m : Mark) (h : Apart ws) : Apart (.mark m :: .space :: ws) := fun rest hrest =>
  (spaced_mark_space m).2 (h rest hrest)

theorem Apart.after_keyword (k : Keyword) (h : Apart ws) : Apart (.keyword k :: .space :: ws) := fun rest hrest =>
  (spaced_keyword k).2 ⟨closes_space (plainText ws ++ rest), spaced_space.2 (h rest hrest)⟩

theorem apart_keyword (k : Keyword) : Apart [.keyword k] := fun _ hrest => ⟨hrest, trivial⟩

theorem Apart.line (indent : Nat) (h : Apart ws) (rest : List Char) : Spaced (lineWords indent ws) rest := by
  have hend : Spaced [.mark .semicolon, .newline] rest := (spaced_alone rfl).2 (spaced_newline.2 spaced_nil)
  exact (spaced_pad indent).2 (spaced_append.2 ⟨h _ (closes_mark .semicolon _), hend⟩)

end

/-! ## Expressions -/

/-- The text of the words begins with what an expression can begin with. -/
def OpensText (ws : List Word) : Prop := ∃ c cs, plainText ws = c :: cs ∧ Opens c

theorem OpensText.append {ws : List Word} (h : OpensText ws) (vs : List Word) : OpensText (ws ++ vs) := by
  obtain ⟨c, cs, htext, hc⟩ := h
  exact ⟨c, cs ++ plainText vs, by rw [plainText_append, htext, List.cons_append], hc⟩

theorem Writable.opensText {name : String} (h : Writable (.ident name)) (ws : List Word) :
    OpensText (.token (.ident name) :: ws) := by
  cases h with
  | ident hname =>
    obtain ⟨c, hc, hstart⟩ := hname.opens
    obtain ⟨cs, hcs⟩ := List.head?_eq_some_iff.1 hc
    exact ⟨c, cs ++ plainText ws, by rw [plainText_token, TokenKind.spelling, hcs, List.cons_append], .inl hstart⟩

/-- A constant begins with a letter, a digit or a quote. -/
theorem Literal.opensText {value : Literal} (h : Writable value.token) : OpensText [.token value.token] := by
  rcases value with value | raw | value
  · cases h with
    | @int n _ =>
      obtain ⟨c, cs, hdigits⟩ := List.exists_cons_of_ne_nil (Text.digits_ne_nil n)
      refine ⟨c, cs, ?_, .inr (.inl (Text.isDigit_of_mem_digits (n := n) ?_))⟩
      · rw [← hdigits]
        exact List.append_nil _
      · rw [hdigits]
        exact List.mem_cons_self
  · cases h with
    | @string units _ =>
      exact ⟨'"', StringUnit.text units ++ ['"'], by simp [TokenKind.spelling, token, StringUnit.quoted], by decide⟩
  · cases value <;> exact ⟨_, _, rfl, by decide⟩

/-- A location begins with a name or a parenthesis. -/
theorem Location.opensText {location : Location} (h : Written location.words) : OpensText location.words := by
  cases location with
  | name ident => exact ((written_word ident).1 h).1.opensText _
  | field base ident resolved => exact ⟨_, _, rfl, by decide⟩

/-- What an expression begins with goes on no operator. -/
theorem Expr.opensText {e : Expr} (h : Written e.words) : OpensText e.words := by
  cases e with
  | literal value => exact Literal.opensText ((written_token _).1 h).1
  | place location => exact Location.opensText h
  | assign | unary | binary => exact ⟨_, _, rfl, by decide⟩
  | call callee => exact ((written_word callee).1 h).1.opensText _

theorem spaced_unary (op : UnaryOp) {ws : List Word} {rest : List Char} (h : OpensText ws) :
    Spaced (.mark op.mark :: ws) rest ↔ Spaced ws rest := by
  obtain ⟨c, cs, htext, hc⟩ := h
  refine and_iff_right ?_
  rw [htext]
  rintro _ ⟨⟩
  exact endsBefore_of_opens op hc

theorem Location.apart (location : Location) : Apart location.words := by
  induction location with
  | name ident => exact fun rest hrest => (spaced_word ident).2 ⟨hrest, trivial⟩
  | field base ident resolved ih =>
    intro rest hrest
    have hfield : Spaced [.mark .dot, ident.word, .note (.type resolved)] rest :=
      (spaced_alone rfl).2 ((spaced_word ident).2 ⟨hrest, trivial⟩)
    have hboth := spaced_append.2 ⟨ih.parens _ (closes_mark .dot _), hfield⟩
    rwa [List.append_assoc] at hboth

theorem Literal.apart (value : Literal) : Apart [.token value.token] := by
  refine fun rest hrest => ⟨fun c hc => ?_, trivial⟩
  cases value with
  | int => exact isDigit_eq_false (hrest c hc)
  | string => trivial
  | bool => exact hrest c hc

mutual

/-- An expression keeps apart in front of a text that a name or a number ends before. -/
theorem Expr.apart : ∀ e : Expr, Written e.words → Apart e.words
  | .literal value _, _ => value.apart
  | .place location _, _ => location.apart
  | .assign target value _, hwritten => by
    obtain ⟨htarget, hvalue⟩ : Written target.words ∧ Written value.words := by
      simpa [Expr.words] using hwritten
    exact ((target.apart htarget).between .assign (value.apart hvalue)).parens
  | .call callee args _, hwritten => by
    obtain ⟨-, hargs⟩ : Writable (.ident callee.name) ∧ Written (argWords args) := by
      simpa [Expr.words, Ident.useWords] using hwritten
    exact .call callee (Expr.argWords_apart args hargs)
  | .unary op operand _, hwritten => by
    have hoperand : Written operand.words := by simpa [Expr.words] using hwritten
    have hopens := (Expr.opensText hoperand).append [.mark .rparen]
    exact fun rest _ => (spaced_alone rfl).2
      ((spaced_unary op hopens).2 ((operand.apart hoperand).before_mark rfl rest))
  | .binary op left right _, hwritten => by
    obtain ⟨hleft, hright⟩ : Written left.words ∧ Written right.words := by simpa [Expr.words] using hwritten
    exact ((left.apart hleft).between op.mark (right.apart hright)).parens

theorem Expr.argWords_apart : ∀ es : List Expr, Written (argWords es) → Apart (argWords es)
  | [], _ => fun _ _ => trivial
  | first :: more, hwritten => by
    rw [argWords, written_append] at hwritten
    exact Expr.furtherWords_apart more hwritten.2 (first.apart hwritten.1)

theorem Expr.furtherWords_apart : ∀ es : List Expr, Written (furtherWords es) →
    ∀ {ws : List Word}, Apart ws → Apart (ws ++ furtherWords es)
  | [], _, _, hws => by rwa [furtherWords, List.append_nil]
  | next :: more, hwritten, ws, hws => by
    obtain ⟨hnext, hmore⟩ : Written next.words ∧ Written (furtherWords more) := by
      simpa [Expr.furtherWords] using hwritten
    have hrest := Expr.furtherWords_apart more hmore (hws.comma (next.apart hnext))
    rwa [List.append_assoc] at hrest

end

/-! ## Declarations and statements -/

theorem TypeRef.apart (type : TypeRef) : Apart type.words := by
  intro rest hrest
  obtain ⟨kind, span⟩ := type
  cases kind <;> simp [words, hrest]

theorem Binding.apart (b : Binding) : Apart b.words := fun _ hrest =>
  spaced_append.2 ⟨b.type.apart _ (closes_space _), spaced_space.2 ((spaced_word b.name).2 ⟨hrest, trivial⟩)⟩

theorem spaced_flatMap {α : Type} {words : α → List Word} {as : List α} (rest : List Char)
    (h : ∀ a ∈ as, ∀ rest, Spaced (words a) rest) : Spaced (as.flatMap words) rest := by
  induction as with
  | nil => trivial
  | cons a as ih =>
    rw [List.flatMap_cons, spaced_append]
    exact ⟨h a List.mem_cons_self _, ih fun b hb => h b (List.mem_cons_of_mem a hb)⟩

theorem spaced_bindings (indent : Nat) (bs : List Binding) (rest : List Char) :
    Spaced (bs.flatMap (Binding.lineWords indent)) rest :=
  spaced_flatMap rest fun b _ => b.apart.line indent

theorem headWords_spaced (indent : Nat) (word : Keyword) {cond : Expr} (h : Written cond.words)
    (rest : List Char) : Spaced (headWords indent word cond) rest := by
  have hopen : Spaced [.pad indent, .keyword word, .space, .mark .lparen]
      (plainText (cond.words ++ [.mark .rparen, .space, .mark .lbrace, .newline]) ++ rest) := by
    simp (disch := decide) [spaced_alone]
  have hclose : Spaced [.mark .rparen, .space, .mark .lbrace, .newline] rest := by
    simp (disch := decide) [spaced_alone]
  rw [headWords, List.append_assoc]
  exact spaced_append.2 ⟨hopen, spaced_append.2 ⟨cond.apart h _ (closes_mark .rparen _), hclose⟩⟩

theorem closeWords_spaced (indent : Nat) (rest : List Char) : Spaced (closeWords indent) rest := by
  simp (disch := decide) [closeWords, spaced_alone]

mutual

theorem Block.spaced : ∀ (b : Block) (indent : Nat), Written (b.words indent) → ∀ rest : List Char,
    Spaced (b.words indent) rest
  | .mk locals body _, indent, hwritten, rest => by
    rw [Block.words, written_append] at hwritten
    exact spaced_append.2 ⟨spaced_bindings indent locals _, Stmt.listWords_spaced body indent hwritten.2 rest⟩

theorem Stmt.spaced : ∀ (s : Stmt) (indent : Nat), Written (s.words indent) → ∀ rest : List Char,
    Spaced (s.words indent) rest
  | .assign target value _, indent, hwritten, rest => by
    obtain ⟨htarget, hvalue⟩ : Written target.words ∧ Written value.words := by
      simpa [Stmt.words, lineWords] using hwritten
    exact ((target.apart htarget).between .assign (value.apart hvalue)).line indent rest
  | .increment target _, indent, hwritten, rest | .decrement target _, indent, hwritten, rest => by
    have htarget : Written target.words := by simpa [Stmt.words, lineWords] using hwritten
    exact Apart.line indent (fun rest _ => (target.apart htarget).before_mark rfl rest) rest
  | .read operand _, indent, hwritten, rest | .write operand _, indent, hwritten, rest => by
    have hoperand : Written operand.words := by simpa [Stmt.words, lineWords] using hwritten
    exact (((operand.apart hoperand).after_mark _).after_keyword _).line indent rest
  | .ifThen cond body _, indent, hwritten, rest
  | .whileLoop cond body _, indent, hwritten, rest
  | .repeatLoop cond body _, indent, hwritten, rest => by
    simp only [Stmt.words, headWords, written_append] at hwritten
    obtain ⟨⟨⟨⟨-, hcond⟩, -⟩, hbody⟩, -⟩ := hwritten
    simp only [Stmt.words, spaced_append]
    exact ⟨⟨headWords_spaced indent _ hcond _, body.spaced _ hbody _⟩, closeWords_spaced indent _⟩
  | .ifElse cond yes no _, indent, hwritten, rest => by
    simp only [Stmt.words, headWords, written_append] at hwritten
    obtain ⟨⟨⟨⟨⟨⟨⟨-, hcond⟩, -⟩, hyes⟩, -⟩, -⟩, hno⟩, -⟩ := hwritten
    have helse : Spaced [.pad indent, .keyword .elseWord, .space, .mark .lbrace, .newline]
        (plainText (no.words (indent + indentStep)) ++ (plainText (closeWords indent) ++ rest)) := by
      simp (disch := decide) [spaced_alone]
    simp only [Stmt.words, spaced_append]
    exact ⟨⟨⟨⟨⟨headWords_spaced indent _ hcond _, yes.spaced _ hyes _⟩, closeWords_spaced indent _⟩, helse⟩,
      no.spaced _ hno _⟩, closeWords_spaced indent _⟩
  | .call callee args _, indent, hwritten, rest => by
    obtain ⟨-, hargs⟩ : Writable (.ident callee.name) ∧ Written (Expr.argWords args) := by
      simpa [Stmt.words, lineWords, Ident.useWords] using hwritten
    exact (Apart.call callee (Expr.argWords_apart args hargs)).line indent rest
  | .ret none _, indent, _, rest => (apart_keyword _).line indent rest
  | .ret (some value) _, indent, hwritten, rest => by
    have hvalue : Written value.words := by simpa [Stmt.words, lineWords] using hwritten
    exact ((value.apart hvalue).after_keyword _).line indent rest

theorem Stmt.listWords_spaced : ∀ (body : List Stmt) (indent : Nat), Written (Stmt.listWords indent body) →
    ∀ rest : List Char, Spaced (Stmt.listWords indent body) rest
  | [], _, _, _ => trivial
  | first :: more, indent, hwritten, rest => by
    rw [Stmt.listWords, written_append] at hwritten
    exact spaced_append.2 ⟨first.spaced indent hwritten.1 _, Stmt.listWords_spaced more indent hwritten.2 rest⟩

end

theorem furtherFormals_apart (formals : List Binding) {ws : List Word} (hws : Apart ws) :
    Apart (ws ++ formals.flatMap fun next => .mark .comma :: .space :: next.words) := by
  induction formals generalizing ws with
  | nil => rwa [List.flatMap_nil, List.append_nil]
  | cons next more ih =>
    have hrest := ih (hws.comma next.apart)
    rwa [List.append_assoc] at hrest

theorem formalWords_apart (formals : List Binding) : Apart (formalWords formals) := by
  cases formals with
  | nil => exact fun _ _ => trivial
  | cons first more => exact furtherFormals_apart more first.apart

theorem Decl.spaced {d : Decl} (h : Written d.words) (rest : List Char) : Spaced d.words rest := by
  rcases d with b | d | d
  · exact b.apart.line 0 rest
  · simp only [words, written_append] at h
    obtain ⟨⟨⟨⟨⟨-, -⟩, -⟩, -⟩, hbody⟩, -⟩ := h
    simp only [words, spaced_append]
    have hformals := formalWords_apart d.formals
    refine ⟨⟨⟨⟨⟨d.result.apart _ (closes_space _), ?_⟩, hformals _ (closes_mark .rparen _)⟩, ?_⟩,
      d.body.spaced _ hbody _⟩, ?_⟩
    all_goals simp (disch := decide) [spaced_alone]
  · simp only [words, spaced_append]
    refine ⟨⟨?_, spaced_bindings indentStep d.fields _⟩, ?_⟩
    all_goals simp (disch := decide) [spaced_alone]

/-- No token of a printed program runs into the next one. -/
theorem Program.spaced {p : Program} (h : Written p.words) : Spaced p.words [] :=
  spaced_flatMap [] fun d hd => Decl.spaced (written_flatMap.1 h d hd)

end Namescope
