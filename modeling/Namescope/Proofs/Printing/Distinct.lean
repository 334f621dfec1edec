import Namescope.Proofs.Printing.Endings
import Namescope.Proofs.Reading.ProgramForms
/-!
# Different programs are printed differently

The tokens of a printed program belong to no other program, spans and annotations apart. An `else` goes on with a
condition, and a further item with a list; otherwise every statement and every declaration ends where its tokens
end. As well-formed programs are printed as their tokens, what is read from two texts is printed alike only if it is
the same.
-/
namespace Namescope

/-! ## Variables, formals and fields -/

theorem TypeRef.opens (type : TypeRef) : ∃ k ks, tokensOf type.words = k :: ks ∧ k.startsType = true := by
  obtain ⟨kind, span⟩ := type
  cases kind <;> exact ⟨_, _, rfl, rfl⟩

theorem TypeRef.settles (type type' : TypeRef) {p : TokenKind → Bool} :
    Settles p (tokensOf type.words) (tokensOf type'.words) (type.relabel .shape = type'.relabel .shape) := by
  obtain ⟨kind, span⟩ := type
  obtain ⟨kind', span'⟩ := type'
  cases kind with
  | int | bool | void =>
    cases kind' <;> first | exact .imp (.same .nil) fun _ => rfl | exact .of_ne nofun
  | struct name =>
    cases kind' with
    | int | bool | void => exact .of_ne nofun
    | struct name' =>
      refine .imp (.same (.cons fun _ => .nil)) ?_
      rintro ⟨hname, -⟩
      exact congrArg (fun name => TypeRef.mk (.struct name) {}) (Ident.shape_eq hname)

theorem tokensOf_binding (b : Binding) : tokensOf b.words = tokensOf b.type.words ++ [.ident b.name.name] := by
  simp [Binding.words]

theorem Binding.opens (b : Binding) : ∃ k ks, tokensOf b.words = k :: ks ∧ k.startsType = true := by
  obtain ⟨k, ks, hks, hk⟩ := b.type.opens
  exact ⟨k, ks ++ [.ident b.name.name], by rw [tokensOf_binding, hks, List.cons_append], hk⟩

theorem Binding.settles (b b' : Binding) {p : TokenKind → Bool} :
    Settles p (tokensOf b.words) (tokensOf b'.words) (b.relabel .shape = b'.relabel .shape) := by
  rw [tokensOf_binding, tokensOf_binding]
  refine .imp (.followed (b.type.settles b'.type) (.cons fun _ => .nil)) ?_
  rintro ⟨htype, hname, -⟩
  exact congrArg₂ (Binding.mk · · {}) htype (Ident.shape_eq hname)

theorem Binding.settles_lines (bs bs' : List Binding) (indent : Nat) {p : TokenKind → Bool}
    (hp : ∀ k : TokenKind, k.startsType = true → p k = true) :
    Settles p (tokensOf (bs.flatMap (lineWords indent))) (tokensOf (bs'.flatMap (lineWords indent)))
      (bs.map (relabel .shape) = bs'.map (relabel .shape)) := by
  have hline (b : Binding) : tokensOf (b.lineWords indent) = tokensOf b.words ++ [.mark .semicolon] := by
    simp [lineWords]
  have hopens (b : Binding) : ∃ k ks, tokensOf (b.lineWords indent) = k :: ks ∧ p k = true := by
    obtain ⟨k, ks, hks, hk⟩ := b.opens
    exact ⟨k, ks ++ [.mark .semicolon], by rw [hline, hks, List.cons_append], hp k hk⟩
  have hitems (b b' : Binding) : Settles nothing (tokensOf (b.lineWords indent)) (tokensOf (b'.lineWords indent))
      (b.relabel .shape = b'.relabel .shape) := by
    rw [hline, hline]
    exact .imp (.followed (b.settles b') (.same .nil)) And.left
  rw [tokensOf_flatMap, tokensOf_flatMap]
  exact settles_flatMap hopens hitems bs bs'

/-- What goes on with formals or begins them. -/
def TokenKind.inFormals (k : TokenKind) : Bool := k.startsType || k = .mark .comma

theorem settles_formalWords (bs bs' : List Binding) : Settles TokenKind.inFormals (tokensOf (formalWords bs))
    (tokensOf (formalWords bs')) (bs.map (Binding.relabel .shape) = bs'.map (Binding.relabel .shape)) := by
  have hcons (b : Binding) (bs : List Binding) : tokensOf (formalWords (b :: bs)) =
      tokensOf b.words ++ bs.flatMap fun next => .mark .comma :: tokensOf next.words := by
    simp [formalWords]
  have hnil (b : Binding) (bs : List Binding) {P : Prop} :
      Settles TokenKind.inFormals [] (tokensOf (formalWords (b :: bs))) P := by
    obtain ⟨k, ks, hks, hk⟩ := b.opens
    rw [hcons, hks]
    exact .of_goesOn (Bool.or_eq_true_iff.2 (.inl hk))
  cases bs with
  | nil =>
    cases bs' with
    | nil => exact Settles.nil.imp fun _ => rfl
    | cons b' bs' => exact hnil b' bs'
  | cons b bs =>
    cases bs' with
    | nil => exact (hnil b bs).symm
    | cons b' bs' =>
      have hopens (next : Binding) : ∃ k ks, .mark .comma :: tokensOf next.words = k :: ks ∧
          k.inFormals = true := ⟨_, _, rfl, rfl⟩
      have hitems (b b' : Binding) : Settles nothing (.mark .comma :: tokensOf b.words)
          (.mark .comma :: tokensOf b'.words) (b.relabel .shape = b'.relabel .shape) := .same (b.settles b')
      have hmore := settles_flatMap hopens hitems bs bs'
      rw [hcons, hcons]
      refine .imp (.followed (b.settles b') hmore) ?_
      rintro ⟨hfirst, hmore⟩
      exact congrArg₂ List.cons hfirst hmore

/-! ## Statements and blocks -/

/-- Whether a statement can begin with a token. -/
def TokenKind.opensStmt : TokenKind → Bool
  | .keyword .cin | .keyword .cout | .keyword .returnWord | .keyword .ifWord | .keyword .whileWord
  | .keyword .repeatWord => true
  | k => k.opensExpr

/-- An `else` goes on with a conditional. -/
def TokenKind.isElse (k : TokenKind) : Bool := k = .keyword .elseWord

/-- What goes on with the contents of a block or begins them. -/
def TokenKind.inBlock (k : TokenKind) : Bool := k.startsType || k.opensStmt || k.isElse

/-- The word that a statement begins with, or the mark behind the expression that it begins with. -/
def Stmt.form : Stmt → Keyword ⊕ Mark
  | .assign .. => .inr .assign
  | .increment .. => .inr .plusPlus
  | .decrement .. => .inr .minusMinus
  | .call .. => .inr .semicolon
  | .read .. => .inl .cin
  | .write .. => .inl .cout
  | .ifThen .. | .ifElse .. => .inl .ifWord
  | .whileLoop .. => .inl .whileWord
  | .repeatLoop .. => .inl .repeatWord
  | .ret .. => .inl .returnWord

section
variable (indent : Nat) (target value cond : Expr) (body yes no : Block) (span : Span)

theorem tokensOf_lineWords (ws : List Word) : tokensOf (lineWords indent ws) = tokensOf ws ++ [.mark .semicolon] := by
  simp [lineWords]

theorem Stmt.tokensOf_assign : tokensOf ((Stmt.assign target value span).words indent) =
    tokensOf target.words ++ .mark .assign :: (tokensOf value.words ++ [.mark .semicolon]) := by
  simp [Stmt.words, tokensOf_lineWords]

/-- The tokens of a count up or down. -/
theorem tokensOf_count (m : Mark) : tokensOf (lineWords indent (target.words ++ [.mark m])) =
    tokensOf target.words ++ [.mark m, .mark .semicolon] := by
  simp [tokensOf_lineWords]

/-- A call as a statement is a call as an expression and a semicolon. -/
theorem Stmt.tokensOf_call (callee : Ident) (args : List Expr) : tokensOf ((Stmt.call callee args span).words indent) =
    tokensOf (Expr.call callee args {}).words ++ [.mark .semicolon] :=
  tokensOf_lineWords indent _

/-- The tokens of input or output. -/
theorem tokensOf_stream (word : Keyword) (m : Mark) :
    tokensOf (lineWords indent ([.keyword word, .space, .mark m, .space] ++ value.words)) =
      .keyword word :: .mark m :: (tokensOf value.words ++ [.mark .semicolon]) := by
  simp [tokensOf_lineWords]

theorem Stmt.tokensOf_ret : tokensOf ((Stmt.ret (some value) span).words indent) =
    .keyword .returnWord :: (tokensOf value.words ++ [.mark .semicolon]) := by
  simp [Stmt.words, tokensOf_lineWords]

/-- The words from the head of a compound statement to the brace that closes its first block. -/
def guardedWords (word : Keyword) : List Word :=
  headWords indent word cond ++ body.words (indent + indentStep) ++ closeWords indent

theorem tokensOf_guardedWords (word : Keyword) : tokensOf (guardedWords indent cond body word) =
    .keyword word :: .mark .lparen :: (tokensOf cond.words ++
      .mark .rparen :: .mark .lbrace :: (tokensOf (body.words (indent + indentStep)) ++ [.mark .rbrace])) := by
  simp [guardedWords, headWords, closeWords]

theorem Stmt.tokensOf_ifElse : tokensOf ((Stmt.ifElse cond yes no span).words indent) =
    tokensOf (guardedWords indent cond yes .ifWord) ++ .keyword .elseWord :: .mark .lbrace ::
      (tokensOf (no.words (indent + indentStep)) ++ [.mark .rbrace]) := by
  simp [Stmt.words, guardedWords, headWords, closeWords]

end

/-- A statement begins as its form says. -/
theorem Stmt.begins (s : Stmt) (indent : Nat) :
    (∃ word ks, s.form = .inl word ∧ tokensOf (s.words indent) = .keyword word :: ks ∧
      (TokenKind.keyword word).opensStmt = true) ∨
    ∃ (mark : Mark) (e : Expr) (ks : List TokenKind), s.form = .inr mark ∧
      tokensOf (s.words indent) = tokensOf e.words ++ .mark mark :: ks ∧ mark ≠ .lparen := by
  cases s with
  | assign => exact .inr ⟨_, _, _, rfl, Stmt.tokensOf_assign .., nofun⟩
  | increment => exact .inr ⟨_, _, _, rfl, tokensOf_count .., nofun⟩
  | decrement => exact .inr ⟨_, _, _, rfl, tokensOf_count .., nofun⟩
  | call => exact .inr ⟨_, _, _, rfl, Stmt.tokensOf_call .., nofun⟩
  | ret value => cases value <;> exact .inl ⟨_, _, rfl, rfl, rfl⟩
  | _ => exact .inl ⟨_, _, rfl, rfl, rfl⟩

theorem Stmt.opens (s : Stmt) (indent : Nat) :
    ∃ k ks, tokensOf (s.words indent) = k :: ks ∧ k.opensStmt = true := by
  rcases s.begins indent with ⟨word, ks, -, hks, hword⟩ | ⟨mark, e, more, -, hks, -⟩
  · exact ⟨_, ks, hks, hword⟩
  · obtain ⟨k, ks, he, hk⟩ := e.opens
    refine ⟨k, ks ++ .mark mark :: more, by rw [hks, he, List.cons_append], ?_⟩
    cases k <;> first | exact hk | cases hk

/-- Statements of different forms have different tokens. -/
theorem Settles.of_form {s s' : Stmt} (h : s.form ≠ s'.form) {indent : Nat} {p : TokenKind → Bool} {P : Prop} :
    Settles p (tokensOf (s.words indent)) (tokensOf (s'.words indent)) P := by
  have hmark {m : Mark} (hm : m ≠ .lparen) : (TokenKind.mark m).opensArgs = false :=
    decide_eq_false fun e => hm (TokenKind.mark.inj e)
  rcases s.begins indent with ⟨word, ks, hform, hks, -⟩ | ⟨m, e, ks, hform, hks, hm⟩ <;>
    rcases s'.begins indent with ⟨word', ls, hform', hls, -⟩ | ⟨m', e', ls, hform', hls, hm'⟩ <;>
    rw [hform, hform'] at h <;> rw [hks, hls]
  · exact .of_ne fun e => h (congrArg Sum.inl (TokenKind.keyword.inj e))
  · exact (e'.settles_other rfl).symm
  · exact e.settles_other rfl
  · exact .clash (e.settles e') (fun e => h (congrArg Sum.inr (TokenKind.mark.inj e))) (hmark hm) (hmark hm')

theorem Stmt.tokensOf_listWords (s : Stmt) (ss : List Stmt) (indent : Nat) :
    tokensOf (Stmt.listWords indent (s :: ss)) = tokensOf (s.words indent) ++ tokensOf (Stmt.listWords indent ss) := by
  rw [Stmt.listWords, tokensOf_append]

theorem settles_count {indent : Nat} {m : Mark} (hm : (TokenKind.mark m).opensArgs = false) (target target' : Expr)
    {p : TokenKind → Bool} : Settles p (tokensOf (lineWords indent (target.words ++ [.mark m])))
      (tokensOf (lineWords indent (target'.words ++ [.mark m])))
      (target.relabel .shape = target'.relabel .shape) := by
  rw [tokensOf_count, tokensOf_count]
  exact .imp (.andThen (target.settles target') (.same (.same .nil)) hm hm) And.left

theorem settles_stream {indent : Nat} {word : Keyword} {m : Mark} (value value' : Expr) {p : TokenKind → Bool} :
    Settles p (tokensOf (lineWords indent ([.keyword word, .space, .mark m, .space] ++ value.words)))
      (tokensOf (lineWords indent ([.keyword word, .space, .mark m, .space] ++ value'.words)))
      (value.relabel .shape = value'.relabel .shape) := by
  rw [tokensOf_stream, tokensOf_stream]
  exact .same (.same (.before (value.settles value') rfl))

theorem settles_guarded {indent : Nat} {word : Keyword} {cond cond' : Expr} {body body' : Block} {P : Prop}
    {p : TokenKind → Bool} (h : Settles TokenKind.inBlock (tokensOf (body.words (indent + indentStep)))
      (tokensOf (body'.words (indent + indentStep))) P) :
    Settles p (tokensOf (guardedWords indent cond body word)) (tokensOf (guardedWords indent cond' body' word))
      (cond.relabel .shape = cond'.relabel .shape ∧ P) := by
  rw [tokensOf_guardedWords, tokensOf_guardedWords]
  exact .same (.same (.andThen (cond.settles cond') (.same (.same (.before h rfl))) rfl rfl))

/-- An `else` makes the difference. -/
theorem Settles.of_ifElse {indent : Nat} {cond cond' : Expr} {body yes no : Block} {span span' : Span} {P P' : Prop}
    (h : Settles TokenKind.inBlock (tokensOf (body.words (indent + indentStep)))
      (tokensOf (yes.words (indent + indentStep))) P) : Settles TokenKind.isElse
        (tokensOf ((Stmt.ifThen cond body span).words indent))
        (tokensOf ((Stmt.ifElse cond' yes no span').words indent)) P' := by
  rw [Stmt.tokensOf_ifElse, ← List.append_nil (tokensOf ((Stmt.ifThen cond body span).words indent))]
  exact .imp (.followed (settles_guarded h) (.of_goesOn rfl)) And.right

theorem Stmt.settles_nil (s : Stmt) (ss : List Stmt) (indent : Nat) {P : Prop} :
    Settles TokenKind.inBlock [] (tokensOf (Stmt.listWords indent (s :: ss))) P := by
  obtain ⟨k, ks, hks, hk⟩ := s.opens indent
  rw [Stmt.tokensOf_listWords, hks]
  refine .of_goesOn ?_
  rw [TokenKind.inBlock, hk, Bool.or_true, Bool.true_or]

/-- What follows a block neither goes on with a conditional nor with variables, and neither does a statement. -/
theorem Stmt.stops_listWords (ss : List Stmt) (indent : Nat) (r : List TokenKind) (hr : Stops TokenKind.inBlock r) :
    Stops TokenKind.isElse (tokensOf (Stmt.listWords indent ss) ++ r) ∧
      Stops TokenKind.startsType (tokensOf (Stmt.listWords indent ss) ++ r) := by
  cases ss with
  | nil =>
    have hparts : ∀ k ∈ r.head?, k.startsType = false ∧ k.isElse = false := by
      intro k hk
      have hnone := hr k hk
      simp only [TokenKind.inBlock, Bool.or_eq_false_iff] at hnone
      exact ⟨hnone.1.1, hnone.2⟩
    exact ⟨fun k hk => (hparts k hk).2, fun k hk => (hparts k hk).1⟩
  | cons s ss =>
    obtain ⟨k, ks, hks, hk⟩ := s.opens indent
    have hneither : k.isElse = false ∧ k.startsType = false := by
      cases k with
      | keyword word => cases word <;> first | exact ⟨rfl, rfl⟩ | cases hk
      | _ => exact ⟨rfl, rfl⟩
    rw [Stmt.tokensOf_listWords, hks]
    exact ⟨stops_cons hneither.1 _, stops_cons hneither.2 _⟩

mutual

/-- No other block has the tokens of a block. -/
theorem Block.settles : ∀ (b b' : Block) (indent : Nat), Settles TokenKind.inBlock (tokensOf (b.words indent))
    (tokensOf (b'.words indent)) (b.relabel .shape = b'.relabel .shape)
  | .mk locals body _, .mk locals' body' _, indent => by
    rw [Block.words, Block.words, tokensOf_append, tokensOf_append]
    refine .imp (.append (Binding.settles_lines locals locals' indent fun _ h => h)
      (Stmt.settles_list body body' indent) (fun r hr => (Stmt.stops_listWords body indent r hr).2)
      fun r hr => (Stmt.stops_listWords body' indent r hr).2) ?_
    rintro ⟨hlocals, hbody⟩
    exact congrArg₂ (Block.mk · · {}) hlocals hbody

/-- No other statement has the tokens of a statement. -/
theorem Stmt.settles : ∀ (s s' : Stmt) (indent : Nat), Settles TokenKind.isElse (tokensOf (s.words indent))
    (tokensOf (s'.words indent)) (s.relabel .shape = s'.relabel .shape)
  | .assign target value _, s', indent => by
    cases s' with
    | assign target' value' =>
      rw [Stmt.tokensOf_assign, Stmt.tokensOf_assign]
      refine .imp (.andThen (target.settles target') (.same (.before (value.settles value') rfl)) rfl rfl) ?_
      rintro ⟨htarget, hvalue⟩
      exact congrArg₂ (Stmt.assign · · {}) htarget hvalue
    | _ => exact .of_form (by nofun)
  | .increment target _, s', indent => by
    cases s' with
    | increment target' => exact (settles_count rfl target target').imp (congrArg (Stmt.increment · {}))
    | _ => exact .of_form (by nofun)
  | .decrement target _, s', indent => by
    cases s' with
    | decrement target' => exact (settles_count rfl target target').imp (congrArg (Stmt.decrement · {}))
    | _ => exact .of_form (by nofun)
  | .read target _, s', indent => by
    cases s' with
    | read target' => exact (settles_stream target target').imp (congrArg (Stmt.read · {}))
    | _ => exact .of_form (by nofun)
  | .write value _, s', indent => by
    cases s' with
    | write value' => exact (settles_stream value value').imp (congrArg (Stmt.write · {}))
    | _ => exact .of_form (by nofun)
  | .ifThen cond body _, s', indent => by
    cases s' with
    | ifThen cond' body' =>
      refine .imp (settles_guarded (body.settles body' _)) ?_
      rintro ⟨hcond, hbody⟩
      exact congrArg₂ (Stmt.ifThen · · {}) hcond hbody
    | ifElse cond' yes no => exact .of_ifElse (body.settles yes _)
    | _ => exact .of_form (by nofun)
  | .ifElse cond yes no _, s', indent => by
    cases s' with
    | ifElse cond' yes' no' =>
      rw [Stmt.tokensOf_ifElse, Stmt.tokensOf_ifElse]
      refine .imp (.followed (settles_guarded (yes.settles yes' _)) (.same (.same (.before (no.settles no' _) rfl)))) ?_
      rintro ⟨⟨hcond, hyes⟩, hno⟩
      show Stmt.ifElse _ _ _ {} = Stmt.ifElse _ _ _ {}
      rw [hcond, hyes, hno]
    | ifThen cond' body => exact .symm (.of_ifElse (.symm (yes.settles body _)))
    | _ => exact .of_form (by nofun)
  | .whileLoop cond body _, s', indent => by
    cases s' with
    | whileLoop cond' body' =>
      refine .imp (settles_guarded (body.settles body' _)) ?_
      rintro ⟨hcond, hbody⟩
      exact congrArg₂ (Stmt.whileLoop · · {}) hcond hbody
    | _ => exact .of_form (by nofun)
  | .repeatLoop cond body _, s', indent => by
    cases s' with
    | repeatLoop cond' body' =>
      refine .imp (settles_guarded (body.settles body' _)) ?_
      rintro ⟨hcond, hbody⟩
      exact congrArg₂ (Stmt.repeatLoop · · {}) hcond hbody
    | _ => exact .of_form (by nofun)
  | .call callee args _, s', indent => by
    cases s' with
    | call callee' args' =>
      rw [Stmt.tokensOf_call, Stmt.tokensOf_call]
      refine .imp (.before (Expr.settles _ _) rfl) fun h => ?_
      have hparts := Expr.call.inj h
      exact congrArg₂ (Stmt.call · · {}) hparts.1 hparts.2.1
    | _ => exact .of_form (by nofun)
  | .ret none _, s', indent => by
    cases s' with
    | ret value' =>
      cases value' with
      | none => exact .imp (.same (.same .nil)) fun _ => rfl
      | some value' =>
        rw [Stmt.tokensOf_ret]
        exact .same (.symm (value'.settles_other rfl))
    | _ => exact .of_form (by nofun)
  | .ret (some value) _, s', indent => by
    cases s' with
    | ret value' =>
      rw [Stmt.tokensOf_ret]
      cases value' with
      | none => exact .same (value.settles_other rfl)
      | some value' =>
        rw [Stmt.tokensOf_ret]
        exact .imp (.same (.before (value.settles value') rfl)) (congrArg fun value => Stmt.ret (some value) {})
    | _ => exact .of_form (by nofun)

theorem Stmt.settles_list : ∀ (ss ss' : List Stmt) (indent : Nat), Settles TokenKind.inBlock
    (tokensOf (Stmt.listWords indent ss)) (tokensOf (Stmt.listWords indent ss'))
    (Stmt.relabelAll .shape ss = Stmt.relabelAll .shape ss')
  | [], [], _ => Settles.nil.imp fun _ => rfl
  | [], s :: ss, indent => s.settles_nil ss indent
  | s :: ss, [], indent => (s.settles_nil ss indent).symm
  | s :: ss, s' :: ss', indent => by
    rw [Stmt.tokensOf_listWords, Stmt.tokensOf_listWords]
    refine .imp (.append (s.settles s' indent) (Stmt.settles_list ss ss' indent)
      (fun r hr => (Stmt.stops_listWords ss indent r hr).1) fun r hr => (Stmt.stops_listWords ss' indent r hr).1) ?_
    rintro ⟨hfirst, hmore⟩
    exact congrArg₂ List.cons hfirst hmore

end

/-! ## Declarations -/

/-- A struct definition has a brace where a declaration with a struct type has a name. -/
theorem TypeRef.settles_struct (type : TypeRef) {name name' : String} {ks ls : List TokenKind} {P : Prop}
    {p : TokenKind → Bool} : Settles p (tokensOf type.words ++ .ident name :: ks)
      (.keyword .struct :: .ident name' :: .mark .lbrace :: ls) P := by
  obtain ⟨kind, span⟩ := type
  cases kind with
  | int | bool | void => exact .of_ne (by nofun)
  | struct typeName => exact .imp (.same (.cons fun _ => .of_ne (by nofun))) And.right

theorem Decl.tokensOf_variable (b : Binding) : tokensOf (Decl.variable b).words =
    tokensOf b.type.words ++ [.ident b.name.name, .mark .semicolon] := by
  simp [Decl.words, Binding.lineWords, Binding.words]

theorem Decl.tokensOf_function (d : FunctionDecl) : tokensOf (Decl.function d).words =
    tokensOf d.result.words ++ .ident d.name.name :: .mark .lparen :: (tokensOf (formalWords d.formals) ++
      .mark .rparen :: .mark .lbrace :: (tokensOf (d.body.words indentStep) ++ [.mark .rbrace])) := by
  simp [Decl.words]

theorem Decl.tokensOf_struct (d : StructDecl) : tokensOf (Decl.struct d).words =
    .keyword .struct :: .ident d.name.name :: .mark .lbrace ::
      (tokensOf (d.fields.flatMap (Binding.lineWords indentStep)) ++ [.mark .rbrace, .mark .semicolon]) := by
  simp [Decl.words, -tokensOf_flatMap]

theorem Decl.opens (d : Decl) : ∃ k ks, tokensOf d.words = k :: ks ∧ k.startsType = true := by
  cases d with
  | «variable» b =>
    obtain ⟨k, ks, hks, hk⟩ := b.type.opens
    exact ⟨k, _, by rw [Decl.tokensOf_variable, hks, List.cons_append], hk⟩
  | function d =>
    obtain ⟨k, ks, hks, hk⟩ := d.result.opens
    exact ⟨k, _, by rw [Decl.tokensOf_function, hks, List.cons_append], hk⟩
  | struct d => exact ⟨_, _, rfl, rfl⟩

theorem FunctionDecl.settles (d d' : FunctionDecl) : Settles nothing (tokensOf (Decl.function d).words)
    (tokensOf (Decl.function d').words) (d.relabel .shape = d'.relabel .shape) := by
  rw [Decl.tokensOf_function, Decl.tokensOf_function]
  refine .imp (.followed (d.result.settles d'.result) (.cons fun _ => .same (.andThen
    (settles_formalWords d.formals d'.formals) (.same (.same (.before (d.body.settles d'.body _) rfl))) rfl rfl))) ?_
  rintro ⟨hresult, hname, hformals, hbody⟩
  show FunctionDecl.mk _ _ _ _ {} = FunctionDecl.mk _ _ _ _ {}
  rw [hresult, Ident.shape_eq hname, hformals, hbody]

theorem StructDecl.settles (d d' : StructDecl) : Settles nothing (tokensOf (Decl.struct d).words)
    (tokensOf (Decl.struct d').words) (d.relabel .shape = d'.relabel .shape) := by
  have hfields := Binding.settles_lines d.fields d'.fields indentStep (p := TokenKind.startsType) fun _ h => h
  rw [Decl.tokensOf_struct, Decl.tokensOf_struct]
  refine .imp (.same (.cons fun _ => .same (.andThen hfields (.same (.same .nil)) rfl rfl))) ?_
  rintro ⟨hname, hfields, -⟩
  exact congrArg₂ (StructDecl.mk · · {}) (Ident.shape_eq hname) hfields

/-- No other declaration has the tokens of a declaration, and nothing goes on with it. -/
theorem Decl.settles (d d' : Decl) :
    Settles nothing (tokensOf d.words) (tokensOf d'.words) (d.relabel .shape = d'.relabel .shape) := by
  have hfunction (b : Binding) (f : FunctionDecl) {P : Prop} :
      Settles nothing (tokensOf (Decl.variable b).words) (tokensOf (Decl.function f).words) P := by
    rw [Decl.tokensOf_variable, Decl.tokensOf_function]
    exact .imp (.followed (b.type.settles f.result) (.cons fun _ => .of_ne (by nofun))) fun h => h.2.2
  have hstruct (b : Binding) (s : StructDecl) {P : Prop} :
      Settles nothing (tokensOf (Decl.variable b).words) (tokensOf (Decl.struct s).words) P := by
    rw [Decl.tokensOf_variable, Decl.tokensOf_struct]
    exact b.type.settles_struct
  have hboth (f : FunctionDecl) (s : StructDecl) {P : Prop} :
      Settles nothing (tokensOf (Decl.function f).words) (tokensOf (Decl.struct s).words) P := by
    rw [Decl.tokensOf_function, Decl.tokensOf_struct]
    exact f.result.settles_struct
  rcases d with b | f | s <;> rcases d' with b' | f' | s'
  · have hbinding := Settles.followed (b.settles b') (.same (k := .mark .semicolon) (p := nothing) .nil)
    rw [tokensOf_binding, tokensOf_binding, List.append_assoc, List.append_assoc] at hbinding
    rw [Decl.tokensOf_variable, Decl.tokensOf_variable]
    exact hbinding.imp fun h => congrArg Decl.variable h.1
  · exact hfunction b f'
  · exact hstruct b s'
  · exact (hfunction b' f).symm
  · exact (f.settles f').imp (congrArg Decl.function)
  · exact hboth f s'
  · exact (hstruct b' s).symm
  · exact (hboth f' s).symm
  · exact (s.settles s').imp (congrArg Decl.struct)

/-- Programs that are printed as the same tokens have one shape. -/
theorem Program.shape_eq {p q : Program} (h : tokensOf p.words = tokensOf q.words) :
    p.relabel .shape = q.relabel .shape := by
  have hall := settles_flatMap Decl.opens Decl.settles p.decls q.decls
  rw [Program.words, Program.words, tokensOf_flatMap, tokensOf_flatMap] at h
  exact congrArg Program.mk (hall.of_eq h)

/-- The tokens of a well-formed program are those of its text. -/
theorem Program.WellFormed.kinds_print {excused : Prop} {p : Program} (h : p.WellFormed excused) :
    Token.kinds (Scan.ofSource p.print).tokens = tokensOf p.words :=
  (scan_spaced h.written (Program.spaced h.written)).1

theorem Program.WellFormed.shape_eq {excused : Prop} {p : Program} (h : p.WellFormed excused) :
    p.relabel .shape = p.relabel .unplaced := by
  have hbare : p.relabel .bare = p := h.bare_eq
  rw [Relabel.shape, ← p.relabel_relabel, hbare]

/-- Texts whose programs are printed alike are read as the same program, spans apart, whether or not anything is
wrong with them. -/
theorem print_injective (a b : String) (h : (parse a).program.print = (parse b).program.print) :
    (parse a).program.relabel .unplaced = (parse b).program.relabel .unplaced := by
  have hform := Parsed.wellFormed a
  have hform' := Parsed.wellFormed b
  have htokens : tokensOf (parse a).program.words = tokensOf (parse b).program.words := by
    rw [← hform.kinds_print, h, hform'.kinds_print]
  calc (parse a).program.relabel .unplaced
    _ = (parse a).program.relabel .shape := hform.shape_eq.symm
    _ = (parse b).program.relabel .shape := Program.shape_eq htokens
    _ = (parse b).program.relabel .unplaced := hform'.shape_eq

/-- Layout and parentheses make no difference. -/
theorem layout_print_injective :
    (parse "void f() { a.b.c = (x = 1) + -2 * 3; if (g(x)) { } else { } }").program.print =
        (parse "void f()\n{a.b.c=((x)=1)+((-(2))*3); if (g(x)) {} else {} }").program.print ∧
      (parse "void f() { a.b.c = (x = 1) + -2 * 3; if (g(x)) { } else { } }").program.relabel .unplaced =
        (parse "void f()\n{a.b.c=((x)=1)+((-(2))*3); if (g(x)) {} else {} }").program.relabel .unplaced := by
  have hprint : (parse "void f() { a.b.c = (x = 1) + -2 * 3; if (g(x)) { } else { } }").program.print =
      (parse "void f()\n{a.b.c=((x)=1)+((-(2))*3); if (g(x)) {} else {} }").program.print := by
    decide +kernel
  exact ⟨hprint, print_injective _ _ hprint⟩

end Namescope
