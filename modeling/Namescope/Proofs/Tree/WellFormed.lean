import Namescope.Proofs.Printing.Words
/-!
# Well-formed trees

A well-formed tree has the names, numbers and strings that a text can give, nothing in it is resolved, and
whatever is assigned to is a location. Inside expressions other targets may be excused. The words of a
well-formed tree can all be written, so its printed text is scanned as these words.
-/
namespace Namescope

/-! ## Parts of expressions -/

/-- A number up to the largest one, a complete string without unknown escapes, or a truth value. -/
def Literal.WellFormed : Literal → Prop
  | int value => 0 ≤ value ∧ value ≤ maxInteger
  | string raw => ∃ units, units.all StringUnit.known = true ∧ raw = String.ofList (StringUnit.quoted units)
  | bool _ => True

/-- A name that can be written and is not resolved. -/
structure Ident.WellFormed (ident : Ident) : Prop where
  isName : IsName ident.name.toList
  unresolved : ident.sym = none

/-- All names of a location can be written, and nothing in it is resolved. -/
def Location.WellFormed : Location → Prop
  | name ident => ident.WellFormed
  | field base ident resolved => base.WellFormed ∧ ident.WellFormed ∧ resolved = none

/-- What a text can give as a type. -/
def TypeRef.WellFormed (type : TypeRef) : Prop := ∀ name, type.kind = .struct name → name.WellFormed

/-- What a text can give as a variable, formal or field. -/
structure Binding.WellFormed (b : Binding) : Prop where
  type : b.type.WellFormed
  name : b.name.WellFormed

/-! ## Trees -/

section
variable (excused : Prop)

mutual

/-- What a text can give as an expression. Each assignment has a location on its left, unless others are
excused. -/
def Expr.WellFormed : Expr → Prop
  | .literal value _ => value.WellFormed
  | .place location _ => location.WellFormed
  | .assign target value _ => (target.isLocation = true ∨ excused) ∧ target.WellFormed ∧ value.WellFormed
  | .call callee args _ => callee.WellFormed ∧ Expr.AllWellFormed args
  | .unary _ operand _ => operand.WellFormed
  | .binary _ left right _ => left.WellFormed ∧ right.WellFormed

/-- All the expressions are well-formed. -/
def Expr.AllWellFormed : List Expr → Prop
  | [] => True
  | first :: more => first.WellFormed ∧ Expr.AllWellFormed more

end

/-- A location that a text can give as the target of a statement. -/
def Expr.TargetWellFormed (target : Expr) : Prop := target.isLocation = true ∧ target.WellFormed excused

mutual

/-- What a text can give as a block. -/
def Block.WellFormed : Block → Prop
  | .mk locals body _ => (∀ b ∈ locals, b.WellFormed) ∧ Stmt.AllWellFormed body

/-- What a text can give as a statement. -/
def Stmt.WellFormed : Stmt → Prop
  | .assign target value _ => target.TargetWellFormed excused ∧ value.WellFormed excused
  | .increment target _ | .decrement target _ | .read target _ => target.TargetWellFormed excused
  | .write value _ => value.WellFormed excused
  | .ifThen cond body _ | .whileLoop cond body _ | .repeatLoop cond body _ =>
    cond.WellFormed excused ∧ body.WellFormed
  | .ifElse cond yes no _ => cond.WellFormed excused ∧ yes.WellFormed ∧ no.WellFormed
  | .call callee args _ => callee.WellFormed ∧ Expr.AllWellFormed excused args
  | .ret none _ => True
  | .ret (some value) _ => value.WellFormed excused

/-- All the statements are well-formed. -/
def Stmt.AllWellFormed : List Stmt → Prop
  | [] => True
  | first :: more => first.WellFormed ∧ Stmt.AllWellFormed more

end

/-- What a text can give as a function. -/
structure FunctionDecl.WellFormed (d : FunctionDecl) : Prop where
  result : d.result.WellFormed
  name : d.name.WellFormed
  formals : ∀ b ∈ d.formals, b.WellFormed
  body : d.body.WellFormed excused

/-- What a text can give as a struct. -/
structure StructDecl.WellFormed (d : StructDecl) : Prop where
  name : d.name.WellFormed
  fields : ∀ b ∈ d.fields, b.WellFormed

/-- What a text can give as a declaration. -/
def Decl.WellFormed : Decl → Prop
  | .variable b => b.WellFormed
  | .function d => d.WellFormed excused
  | .struct d => d.WellFormed

/-- What a text can give as a program. -/
def Program.WellFormed (p : Program) : Prop := ∀ d ∈ p.decls, d.WellFormed excused

end

theorem Expr.WellFormed.withSpan {excused : Prop} {e : Expr} (h : e.WellFormed excused) (span : Span) :
    (e.withSpan span).WellFormed excused := by
  cases e <;> exact h

theorem Stmt.allWellFormed_append {excused : Prop} {ss more : List Stmt} :
    AllWellFormed excused (ss ++ more) ↔ AllWellFormed excused ss ∧ AllWellFormed excused more := by
  induction ss with
  | nil => simp [AllWellFormed]
  | cons s ss ih => simp [AllWellFormed, ih, and_assoc]

/-! ## The words of well-formed trees can be written -/

section
variable {excused : Prop}

theorem Ident.WellFormed.writable {ident : Ident} (h : ident.WellFormed) : Writable (.ident ident.name) :=
  .ident h.isName

theorem Literal.WellFormed.writable {value : Literal} (h : value.WellFormed) : Writable value.token := by
  cases value with
  | int value =>
    obtain ⟨n, rfl⟩ := Int.eq_ofNat_of_zero_le h.1
    exact .int (Int.ofNat_le.1 h.2)
  | string raw =>
    obtain ⟨units, hknown, rfl⟩ := h
    exact .string hknown
  | bool value => exact .bool value

theorem Location.WellFormed.written {location : Location} (h : location.WellFormed) : Written location.words := by
  induction location with
  | name ident => simpa [words, Ident.useWords] using h.writable
  | field base ident resolved ih =>
    obtain ⟨hbase, hident, -⟩ := h
    simp [words, ih hbase, hident.writable]

mutual

theorem Expr.WellFormed.written : ∀ {e : Expr}, e.WellFormed excused → Written e.words
  | .literal value _, h => by simpa [Expr.words] using Literal.WellFormed.writable h
  | .place location _, h => Location.WellFormed.written h
  | .assign target value _, ⟨_, htarget, hvalue⟩ => by simp [Expr.words, htarget.written, hvalue.written]
  | .call callee args _, ⟨hcallee, hargs⟩ => by
    simp [Expr.words, Ident.useWords, hcallee.writable, hargs.written_argWords]
  | .unary op operand _, h => by simp [Expr.words, Expr.WellFormed.written (e := operand) h]
  | .binary op left right _, ⟨hleft, hright⟩ => by simp [Expr.words, hleft.written, hright.written]

theorem Expr.AllWellFormed.written_argWords : ∀ {es : List Expr}, Expr.AllWellFormed excused es →
    Written (argWords es)
  | [], _ => written_nil
  | first :: more, ⟨hfirst, hmore⟩ => by simp [Expr.argWords, hfirst.written, hmore.written_furtherWords]

theorem Expr.AllWellFormed.written_furtherWords : ∀ {es : List Expr}, Expr.AllWellFormed excused es →
    Written (furtherWords es)
  | [], _ => written_nil
  | next :: more, ⟨hnext, hmore⟩ => by simp [Expr.furtherWords, hnext.written, hmore.written_furtherWords]

end

theorem TypeRef.WellFormed.written {type : TypeRef} (h : type.WellFormed) : Written type.words := by
  obtain ⟨kind, span⟩ := type
  cases kind with
  | int | bool | void => simp [words]
  | struct name => simpa [words] using (h name rfl).writable

theorem Binding.WellFormed.written {b : Binding} (h : b.WellFormed) : Written b.words := by
  simp [words, h.type.written, h.name.writable]

theorem Binding.written_lines {bs : List Binding} (h : ∀ b ∈ bs, b.WellFormed) (indent : Nat) :
    Written (bs.flatMap (lineWords indent)) :=
  written_flatMap.2 fun b hb => by simp [lineWords, (h b hb).written]

mutual

theorem Block.WellFormed.written : ∀ {b : Block}, b.WellFormed excused → ∀ indent : Nat, Written (b.words indent)
  | .mk locals body _, ⟨hlocals, hbody⟩, indent => by
    simp [Block.words, -written_flatMap, Binding.written_lines hlocals, hbody.written]

theorem Stmt.WellFormed.written : ∀ {s : Stmt}, s.WellFormed excused → ∀ indent : Nat, Written (s.words indent)
  | .assign target value _, ⟨htarget, hvalue⟩, indent => by
    simp [Stmt.words, Namescope.lineWords, htarget.2.written, hvalue.written]
  | .increment target _, htarget, indent | .decrement target _, htarget, indent | .read target _, htarget, indent => by
    simp [Stmt.words, Namescope.lineWords, htarget.2.written]
  | .write value _, hvalue, indent | .ret (some value) _, hvalue, indent => by
    simp [Stmt.words, Namescope.lineWords, Expr.WellFormed.written hvalue]
  | .ifThen cond body _, ⟨hcond, hbody⟩, indent | .whileLoop cond body _, ⟨hcond, hbody⟩, indent
  | .repeatLoop cond body _, ⟨hcond, hbody⟩, indent => by
    simp [Stmt.words, headWords, closeWords, hcond.written, hbody.written]
  | .ifElse cond yes no _, ⟨hcond, hyes, hno⟩, indent => by
    simp [Stmt.words, headWords, closeWords, hcond.written, hyes.written, hno.written]
  | .call callee args _, ⟨hcallee, hargs⟩, indent => by
    simp [Stmt.words, Namescope.lineWords, Ident.useWords, hcallee.writable, hargs.written_argWords]
  | .ret none _, _, indent => by simp [Stmt.words, Namescope.lineWords]

theorem Stmt.AllWellFormed.written : ∀ {ss : List Stmt}, Stmt.AllWellFormed excused ss → ∀ indent : Nat,
    Written (Stmt.listWords indent ss)
  | [], _, _ => written_nil
  | first :: more, ⟨hfirst, hmore⟩, indent => by simp [Stmt.listWords, hfirst.written, hmore.written]

end

theorem Decl.WellFormed.written {d : Decl} (h : d.WellFormed excused) : Written d.words := by
  rcases d with b | d | d
  · simp [words, Binding.lineWords, Binding.WellFormed.written h]
  · obtain ⟨hresult, hname, hformals, hbody⟩ := h
    have hformalWords : Written (formalWords d.formals) := by
      cases hformal : d.formals with
      | nil => exact written_nil
      | cons first more =>
        rw [hformal, List.forall_mem_cons] at hformals
        simpa [formalWords, hformals.1.written] using fun b hb => (hformals.2 b hb).written
    simp [words, hresult.written, hname.writable, hformalWords, hbody.written]
  · simp [words, -written_flatMap, h.name.writable, Binding.written_lines h.fields]

/-- A well-formed program is printed as tokens that a scan can give. -/
theorem Program.WellFormed.written {p : Program} (h : p.WellFormed excused) : Written p.words :=
  written_flatMap.2 fun d hd => (h d hd).written

/-! ## Nothing in a well-formed tree is resolved -/

theorem Ident.WellFormed.bare {ident : Ident} (h : ident.WellFormed) : ident.relabel .bare = ident := by
  obtain ⟨name, span, sym⟩ := ident
  cases h.unresolved
  rfl

theorem Location.WellFormed.bare {location : Location} (h : location.WellFormed) :
    location.relabel .bare = location := by
  induction location with
  | name ident => exact congrArg name (Ident.WellFormed.bare h)
  | field base ident resolved ih =>
    obtain ⟨hbase, hident, rfl⟩ := h
    rw [relabel, ih hbase, hident.bare]
    rfl

mutual

theorem Expr.WellFormed.bare : ∀ {e : Expr}, e.WellFormed excused → e.relabel .bare = e
  | .literal value _, _ => rfl
  | .place location span, h => congrArg (Expr.place · span) (Location.WellFormed.bare h)
  | .assign target value span, ⟨_, htarget, hvalue⟩ => by rw [Expr.relabel, htarget.bare, hvalue.bare]; rfl
  | .call callee args _, ⟨hcallee, hargs⟩ => by rw [Expr.relabel, hcallee.bare, hargs.bare]; rfl
  | .unary op operand span, h => congrArg (Expr.unary op · span) (Expr.WellFormed.bare h)
  | .binary op left right _, ⟨hleft, hright⟩ => by rw [Expr.relabel, hleft.bare, hright.bare]; rfl

theorem Expr.AllWellFormed.bare : ∀ {es : List Expr}, Expr.AllWellFormed excused es → Expr.relabelAll .bare es = es
  | [], _ => rfl
  | first :: more, ⟨hfirst, hmore⟩ => by rw [Expr.relabelAll, hfirst.bare, hmore.bare]

end

theorem TypeRef.WellFormed.bare {type : TypeRef} (h : type.WellFormed) : type.relabel .bare = type := by
  obtain ⟨kind, span⟩ := type
  cases kind with
  | int | bool | void => rfl
  | struct name => exact congrArg (fun name => TypeRef.mk (.struct name) span) (h name rfl).bare

theorem Binding.WellFormed.bare {b : Binding} (h : b.WellFormed) : b.relabel .bare = b := by
  rw [relabel, h.type.bare, h.name.bare]
  rfl

theorem Binding.map_bare {bs : List Binding} (h : ∀ b ∈ bs, b.WellFormed) : bs.map (relabel .bare) = bs :=
  (List.map_congr_left fun b hb => (h b hb).bare).trans (List.map_id bs)

mutual

theorem Block.WellFormed.bare : ∀ {b : Block}, b.WellFormed excused → b.relabel .bare = b
  | .mk locals body _, ⟨hlocals, hbody⟩ => by rw [Block.relabel, Binding.map_bare hlocals, hbody.bare]; rfl

theorem Stmt.WellFormed.bare : ∀ {s : Stmt}, s.WellFormed excused → s.relabel .bare = s
  | .assign target value _, ⟨htarget, hvalue⟩ => by rw [Stmt.relabel, htarget.2.bare, hvalue.bare]; rfl
  | .increment target span, htarget => congrArg (Stmt.increment · span) htarget.2.bare
  | .decrement target span, htarget => congrArg (Stmt.decrement · span) htarget.2.bare
  | .read target span, htarget => congrArg (Stmt.read · span) htarget.2.bare
  | .write value span, hvalue => congrArg (Stmt.write · span) (Expr.WellFormed.bare hvalue)
  | .ifThen cond body _, ⟨hcond, hbody⟩ | .whileLoop cond body _, ⟨hcond, hbody⟩
  | .repeatLoop cond body _, ⟨hcond, hbody⟩ => by rw [Stmt.relabel, hcond.bare, hbody.bare]; rfl
  | .ifElse cond yes no _, ⟨hcond, hyes, hno⟩ => by rw [Stmt.relabel, hcond.bare, hyes.bare, hno.bare]; rfl
  | .call callee args _, ⟨hcallee, hargs⟩ => by rw [Stmt.relabel, hcallee.bare, hargs.bare]; rfl
  | .ret none _, _ => rfl
  | .ret (some value) span, hvalue => congrArg (fun value => Stmt.ret (some value) span) (Expr.WellFormed.bare hvalue)

theorem Stmt.AllWellFormed.bare : ∀ {ss : List Stmt}, Stmt.AllWellFormed excused ss → Stmt.relabelAll .bare ss = ss
  | [], _ => rfl
  | first :: more, ⟨hfirst, hmore⟩ => by rw [Stmt.relabelAll, hfirst.bare, hmore.bare]

end

theorem Decl.WellFormed.bare {d : Decl} (h : d.WellFormed excused) : d.relabel .bare = d := by
  rcases d with b | d | d
  · exact congrArg Decl.variable (Binding.WellFormed.bare h)
  · rw [relabel, FunctionDecl.relabel, h.result.bare, h.name.bare, Binding.map_bare h.formals, h.body.bare]
    rfl
  · rw [relabel, StructDecl.relabel, h.name.bare, Binding.map_bare h.fields]
    rfl

/-- A well-formed program carries nothing that name resolution writes. -/
theorem Program.WellFormed.bare_eq {p : Program} (h : p.WellFormed excused) : p.bare = p :=
  congrArg Program.mk ((List.map_congr_left fun d hd => (h d hd).bare).trans (List.map_id p.decls))

end

end Namescope
