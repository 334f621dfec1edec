import Namescope.Proofs.Build.ArtifactDecoder
/-!
# What is encoded is decoded

The numbers of the format have fixed widths: eight bytes for offsets, lengths and counts, four for lines, columns,
symbols and integers. A value whose numbers fit is read back from its bytes, whatever follows them. Since no decoder
looks further than it takes, artifacts are free of prefixes and different ones have different bytes.
-/
namespace Namescope

/-! ## Values that fit the format -/

/-- The length of a text fits eight bytes. -/
def TextFits (s : String) : Prop := (Bytes.ofText s).length < 256 ^ 8

instance (s : String) : Decidable (TextFits s) :=
  inferInstanceAs (Decidable ((Bytes.ofText s).length < 256 ^ 8))

/-- The length of a list fits eight bytes, and all items fit. -/
def ListFits {α : Type} (fits : α → Prop) (items : List α) : Prop :=
  items.length < 256 ^ 8 ∧ ∀ a ∈ items, fits a

/-- Offsets fit eight bytes, line and column four. -/
def Span.Fits (span : Span) : Prop :=
  span.start < 256 ^ 8 ∧ span.stop < 256 ^ 8 ∧ span.line < 256 ^ 4 ∧ span.col < 256 ^ 4

/-- The number of a symbol fits four bytes. -/
def SymbolId.Fits (id : SymbolId) : Prop := id.index < 256 ^ 4

/-- An identifier fits. -/
def Ident.Fits (ident : Ident) : Prop :=
  TextFits ident.name ∧ ident.span.Fits ∧ ∀ id ∈ ident.sym, id.Fits

/-- A type without its span fits. -/
def TypeKind.Fits : TypeKind → Prop
  | .struct name => name.Fits
  | _ => True

/-- A type fits. -/
def TypeRef.Fits (type : TypeRef) : Prop := type.kind.Fits ∧ type.span.Fits

/-- A variable, formal or field fits. -/
def Binding.Fits (b : Binding) : Prop := b.type.Fits ∧ b.name.Fits ∧ b.span.Fits

/-- A constant fits: an integer has 32 bits. -/
def Literal.Fits : Literal → Prop
  | .int value => -2147483648 ≤ value ∧ value < 2147483648
  | .string raw => TextFits raw
  | .bool _ => True

/-- A location fits. -/
def Location.Fits : Location → Prop
  | .name ident => ident.Fits
  | .field base ident resolved => base.Fits ∧ ident.Fits ∧ ∀ type ∈ resolved, TextFits type

mutual

/-- An expression fits. -/
def Expr.Fits : Expr → Prop
  | .literal value span => value.Fits ∧ span.Fits
  | .place location span => location.Fits ∧ span.Fits
  | .assign target value span => target.Fits ∧ value.Fits ∧ span.Fits
  | .call callee args span => callee.Fits ∧ (args.length < 256 ^ 8 ∧ Expr.AllFit args) ∧ span.Fits
  | .unary _ operand span => operand.Fits ∧ span.Fits
  | .binary _ left right span => left.Fits ∧ right.Fits ∧ span.Fits

/-- Expressions fit. -/
def Expr.AllFit : List Expr → Prop
  | [] => True
  | first :: more => first.Fits ∧ Expr.AllFit more

end

mutual

/-- A block fits. -/
def Block.Fits : Block → Prop
  | .mk locals body span => ListFits Binding.Fits locals ∧ (body.length < 256 ^ 8 ∧ Stmt.AllFit body) ∧ span.Fits

/-- A statement fits. -/
def Stmt.Fits : Stmt → Prop
  | .assign target value span => target.Fits ∧ value.Fits ∧ span.Fits
  | .increment target span | .decrement target span | .read target span => target.Fits ∧ span.Fits
  | .write value span => value.Fits ∧ span.Fits
  | .ifThen cond yes span => cond.Fits ∧ yes.Fits ∧ span.Fits
  | .ifElse cond yes no span => cond.Fits ∧ yes.Fits ∧ no.Fits ∧ span.Fits
  | .whileLoop cond body span | .repeatLoop cond body span => cond.Fits ∧ body.Fits ∧ span.Fits
  | .call callee args span => callee.Fits ∧ (args.length < 256 ^ 8 ∧ Expr.AllFit args) ∧ span.Fits
  | .ret value span => (∀ e ∈ value, e.Fits) ∧ span.Fits

/-- Statements fit. -/
def Stmt.AllFit : List Stmt → Prop
  | [] => True
  | first :: more => first.Fits ∧ Stmt.AllFit more

end

/-- A function fits. -/
def FunctionDecl.Fits (d : FunctionDecl) : Prop :=
  d.result.Fits ∧ d.name.Fits ∧ ListFits Binding.Fits d.formals ∧ d.body.Fits ∧ d.span.Fits

/-- A struct type fits. -/
def StructDecl.Fits (d : StructDecl) : Prop := d.name.Fits ∧ ListFits Binding.Fits d.fields ∧ d.span.Fits

/-- A declaration fits. -/
def Decl.Fits : Decl → Prop
  | .variable b => b.Fits
  | .function d => d.Fits
  | .struct d => d.Fits

/-- A program fits. -/
def Program.Fits (p : Program) : Prop := ListFits Decl.Fits p.decls

/-- The type of a symbol fits. -/
def TypeName.Fits : TypeName → Prop
  | .struct name => TextFits name
  | _ => True

/-- What a symbol stands for fits. -/
def SymbolKind.Fits : SymbolKind → Prop
  | .scalar type => type.Fits
  | .function params result => ListFits TypeName.Fits params ∧ result.Fits
  | .struct fields => ListFits (fun e => TextFits e.1 ∧ e.2.Fits) fields.entries

/-- A symbol fits. -/
def Symbol.Fits (symbol : Symbol) : Prop := TextFits symbol.name ∧ symbol.kind.Fits ∧ symbol.span.Fits

/-- A symbol table fits. -/
def SymbolTable.Fits (table : SymbolTable) : Prop := ListFits Symbol.Fits table.symbols

/-- An artifact fits. -/
def Artifact.Fits (a : Artifact) : Prop := a.version < 256 ^ 4 ∧ a.program.Fits ∧ a.table.Fits

/-! ## Reading values back -/

namespace Bytes

theorem ofList_append {α : Type} (encode : α → Bytes) (items : List α) (rest : Bytes) :
    ofNat64 items.length ++ (items.flatMap encode ++ rest) = ofList encode items ++ rest :=
  (List.append_assoc ..).symm

theorem ofExprs_eq (args : List Expr) : ofExprs args = args.flatMap ofExpr := by
  induction args with
  | nil => rfl
  | cons first more ih => rw [ofExprs, ih, List.flatMap_cons]

theorem ofStmts_eq (body : List Stmt) : ofStmts body = body.flatMap ofStmt := by
  induction body with
  | nil => rfl
  | cons first more ih => rw [ofStmts, ih, List.flatMap_cons]

end Bytes

namespace Decoder

open Bytes

theorem ListFits.reads {α : Type} {fits : α → Prop} {d : Decoder α} {encode : α → Bytes}
    (h : ∀ a, fits a → Reads d (encode a) a) {items : List α} (hitems : ListFits fits items) :
    Reads (list d) (ofList encode items) items :=
  reads_list hitems.1 fun a ha => h a (hitems.2 a ha)

/-- The bytes of a case with parts, of a type that is not recursive. -/
theorem Reads.case {α : Type} {f : Nat → Decoder α} {content : Bytes} {a : α} (k : Nat) (hk : k < 256 ^ 4)
    (h : Reads (f k) content a) : Reads (nat32 >>= f) (caseNumber k ++ content) a :=
  (reads_nat hk).bind h

theorem reads_span {s : Span} (h : s.Fits) : Reads span (ofSpan s) s := by
  obtain ⟨hstart, hstop, hline, hcol⟩ := h
  simp only [ofSpan, List.append_assoc]
  exact (reads_nat hstart).bind ((reads_nat hstop).bind ((reads_nat hline).bind ((reads_nat hcol).last _)))

theorem reads_symbolId {id : SymbolId} (h : id.Fits) : Reads symbolId (ofSymbolId id) id :=
  (reads_nat h).last SymbolId.mk

theorem reads_ident {x : Ident} (h : x.Fits) : Reads ident (ofIdent x) x := by
  obtain ⟨hname, hspan, hsym⟩ := h
  simp only [ofIdent, List.append_assoc]
  refine (reads_string hname).bind ((reads_span hspan).bind (Reads.last _ ?_))
  exact reads_option fun id hid => reads_symbolId (hsym id hid)

theorem reads_typeRef {t : TypeRef} (h : t.Fits) : Reads typeRef (ofTypeRef t) t := by
  obtain ⟨kind, s⟩ := t
  obtain ⟨hkind, hspan⟩ := h
  refine Reads.bind (a := kind) ?_ ((reads_span hspan).last _)
  cases kind with
  | int => exact fun _ => rfl
  | bool => exact fun _ => rfl
  | void => exact fun _ => rfl
  | struct name => exact .case 3 (by decide) ((reads_ident hkind).last TypeKind.struct)

theorem reads_binding {b : Binding} (h : b.Fits) : Reads binding (ofBinding b) b := by
  obtain ⟨htype, hname, hspan⟩ := h
  simp only [ofBinding, List.append_assoc]
  exact (reads_typeRef htype).bind ((reads_ident hname).bind ((reads_span hspan).last _))

theorem reads_literal {l : Literal} (h : l.Fits) : Reads literal (ofLiteral l) l := by
  cases l with
  | int value => exact .case 0 (by decide) ((reads_int32 h).last Literal.int)
  | string raw => exact .case 1 (by decide) ((reads_string h).last Literal.string)
  | bool value => exact .case 2 (by decide) ((reads_bool value).last Literal.bool)

theorem reads_unaryOp (op : UnaryOp) : Reads (choice unaryOps) (ofUnaryOp op) op := by
  cases op <;> exact reads_choice (by decide) rfl

theorem reads_binaryOp (op : BinaryOp) : Reads (choice binaryOps) (ofBinaryOp op) op := by
  cases op <;> exact reads_choice (by decide) rfl

theorem reads_fieldAccess {base : Location} {x : Ident} {resolved : Option String}
    (hbase : Reads location (ofLocation base) base) (hx : x.Fits) (hresolved : ∀ t ∈ resolved, TextFits t) :
    Reads (fieldAccess location) (ofLocation base ++ (ofIdent x ++ ofOption ofString resolved))
      (.field base x resolved) := by
  refine hbase.bind ((reads_ident hx).bind (Reads.last _ ?_))
  exact reads_option fun t ht => reads_string (hresolved t ht)

theorem reads_location {l : Location} (h : l.Fits) : Reads location (ofLocation l) l := by
  induction l with
  | name x => exact nestable_location.reads (by decide) ((reads_ident h).map Location.name)
  | field base x resolved ih =>
    obtain ⟨hbase, hx, hresolved⟩ := h
    simp only [ofLocation, List.append_assoc]
    exact nestable_location.reads (by decide) (reads_fieldAccess (ih hbase) hx hresolved)

theorem reads_place {l : Location} {s : Span} (h : l.Fits) (hs : s.Fits) :
    Reads expr (ofPlace l ++ ofSpan s) (.place l s) := by
  cases l with
  | name x =>
    simp only [ofPlace, List.append_assoc]
    exact nestable_expr.reads (by decide) ((reads_ident h).bind ((reads_span hs).last _))
  | field base x resolved =>
    obtain ⟨hbase, hx, hresolved⟩ := h
    have haccess := reads_fieldAccess (reads_location hbase) hx hresolved
    have hcase := nestable_expr.reads (k := 2) (by decide) (haccess.bind ((reads_span hs).last _))
    simp only [List.append_assoc] at hcase
    simp only [ofPlace, List.append_assoc]
    exact hcase

mutual

theorem reads_expr : (e : Expr) → e.Fits → Reads expr (ofExpr e) e
  | .literal value s, h => by
    simp only [ofExpr, List.append_assoc]
    exact nestable_expr.reads (by decide) ((reads_literal h.1).bind ((reads_span h.2).last _))
  | .place l s, h => by
    rw [ofExpr]
    exact reads_place h.1 h.2
  | .assign target value s, ⟨htarget, hvalue, hs⟩ => by
    simp only [ofExpr, List.append_assoc]
    refine nestable_expr.reads (by decide) ((reads_expr target htarget).bind ?_)
    exact (reads_expr value hvalue).bind ((reads_span hs).last _)
  | .call callee args s, ⟨hcallee, ⟨hlength, hargs⟩, hs⟩ => by
    simp only [ofExpr, ofExprs_eq, List.append_assoc, ofList_append]
    refine nestable_expr.reads (by decide) ((reads_ident hcallee).bind ?_)
    exact (reads_list hlength (reads_exprs args hargs)).bind ((reads_span hs).last _)
  | .unary op operand s, ⟨hoperand, hs⟩ => by
    simp only [ofExpr, List.append_assoc]
    refine nestable_expr.reads (by decide) ((reads_unaryOp op).bind ?_)
    exact (reads_expr operand hoperand).bind ((reads_span hs).last _)
  | .binary op left right s, ⟨hleft, hright, hs⟩ => by
    simp only [ofExpr, List.append_assoc]
    refine nestable_expr.reads (by decide) ((reads_binaryOp op).bind ?_)
    exact (reads_expr left hleft).bind ((reads_expr right hright).bind ((reads_span hs).last _))

theorem reads_exprs : (es : List Expr) → Expr.AllFit es → ∀ e ∈ es, Reads expr (ofExpr e) e
  | [], _ => fun _ he => nomatch he
  | first :: more, ⟨hfirst, hmore⟩ =>
    List.forall_mem_cons.2 ⟨reads_expr first hfirst, reads_exprs more hmore⟩

end

theorem reads_args {args : List Expr} (h : args.length < 256 ^ 8 ∧ Expr.AllFit args) :
    Reads (list expr) (ofList ofExpr args) args :=
  reads_list h.1 (reads_exprs args h.2)

mutual

theorem reads_block : (b : Block) → b.Fits → Reads (block stmt) (ofBlock b) b
  | .mk locals body s, ⟨hlocals, ⟨hlength, hbody⟩, hs⟩ => by
    simp only [ofBlock, ofStmts_eq, List.append_assoc, ofList_append]
    refine (ListFits.reads (fun _ => reads_binding) hlocals).bind ?_
    exact (reads_list hlength (reads_stmts body hbody)).bind ((reads_span hs).last _)

theorem reads_stmt : (s : Stmt) → s.Fits → Reads stmt (ofStmt s) s
  | .assign target value s, ⟨htarget, hvalue, hs⟩ => by
    simp only [ofStmt, List.append_assoc]
    refine nestable_stmt.reads (by decide) ((reads_expr target htarget).bind ?_)
    exact (reads_expr value hvalue).bind ((reads_span hs).last _)
  | .increment target s, ⟨htarget, hs⟩ => by
    simp only [ofStmt, List.append_assoc]
    exact nestable_stmt.reads (by decide) ((reads_expr target htarget).bind ((reads_span hs).last _))
  | .decrement target s, ⟨htarget, hs⟩ => by
    simp only [ofStmt, List.append_assoc]
    exact nestable_stmt.reads (by decide) ((reads_expr target htarget).bind ((reads_span hs).last _))
  | .read target s, ⟨htarget, hs⟩ => by
    simp only [ofStmt, List.append_assoc]
    exact nestable_stmt.reads (by decide) ((reads_expr target htarget).bind ((reads_span hs).last _))
  | .write value s, ⟨hvalue, hs⟩ => by
    simp only [ofStmt, List.append_assoc]
    exact nestable_stmt.reads (by decide) ((reads_expr value hvalue).bind ((reads_span hs).last _))
  | .ifThen cond yes s, ⟨hcond, hyes, hs⟩ => by
    have hno : Reads (option (block stmt)) [0] none := fun _ => rfl
    simp only [ofStmt, List.append_assoc]
    refine nestable_stmt.reads (by decide) ((reads_expr cond hcond).bind ?_)
    exact (reads_block yes hyes).bind (hno.bind ((reads_span hs).last _))
  | .ifElse cond yes no s, ⟨hcond, hyes, hno, hs⟩ => by
    have hno : Reads (option (block stmt)) (1 :: ofBlock no) (some no) := (reads_block no hno).map some
    simp only [ofStmt, List.append_assoc]
    refine nestable_stmt.reads (by decide) ((reads_expr cond hcond).bind ?_)
    exact (reads_block yes hyes).bind (hno.bind ((reads_span hs).last _))
  | .whileLoop cond body s, ⟨hcond, hbody, hs⟩ => by
    simp only [ofStmt, List.append_assoc]
    refine nestable_stmt.reads (by decide) ((reads_expr cond hcond).bind ?_)
    exact (reads_block body hbody).bind ((reads_span hs).last _)
  | .repeatLoop cond body s, ⟨hcond, hbody, hs⟩ => by
    simp only [ofStmt, List.append_assoc]
    refine nestable_stmt.reads (by decide) ((reads_expr cond hcond).bind ?_)
    exact (reads_block body hbody).bind ((reads_span hs).last _)
  | .call callee args s, ⟨hcallee, hargs, hs⟩ => by
    simp only [ofStmt, ofExprs_eq, List.append_assoc, ofList_append]
    refine nestable_stmt.reads (by decide) ((reads_ident hcallee).bind ?_)
    exact (reads_args hargs).bind ((reads_span hs).last _)
  | .ret value s, ⟨hvalue, hs⟩ => by
    simp only [ofStmt, List.append_assoc]
    refine nestable_stmt.reads (by decide) (Reads.bind ?_ ((reads_span hs).last _))
    exact reads_option fun e he => reads_expr e (hvalue e he)

theorem reads_stmts : (body : List Stmt) → Stmt.AllFit body → ∀ s ∈ body, Reads stmt (ofStmt s) s
  | [], _ => fun _ hs => nomatch hs
  | first :: more, ⟨hfirst, hmore⟩ =>
    List.forall_mem_cons.2 ⟨reads_stmt first hfirst, reads_stmts more hmore⟩

end

theorem reads_functionDecl {d : FunctionDecl} (h : d.Fits) :
    Reads (Decl.function <$> functionDecl) (ofTypeRef d.result ++ (ofIdent d.name ++
      (ofList ofBinding d.formals ++ (ofBlock d.body ++ ofSpan d.span)))) (.function d) := by
  obtain ⟨hresult, hname, hformals, hbody, hs⟩ := h
  refine Reads.map _ ((reads_typeRef hresult).bind ((reads_ident hname).bind ?_))
  refine (ListFits.reads (fun _ => reads_binding) hformals).bind ?_
  exact (reads_block d.body hbody).bind ((reads_span hs).last _)

theorem reads_decl {d : Decl} (h : d.Fits) : Reads decl (ofDecl d) d := by
  cases d with
  | «variable» b => exact .case 0 (by decide) ((reads_binding h).map Decl.variable)
  | function d =>
    simp only [ofDecl, List.append_assoc]
    exact .case 1 (by decide) (reads_functionDecl h)
  | struct d =>
    obtain ⟨hname, hfields, hs⟩ := h
    simp only [ofDecl, List.append_assoc]
    refine .case 2 (by decide) (Reads.map _ ((reads_ident hname).bind ?_))
    exact (ListFits.reads (fun _ => reads_binding) hfields).bind ((reads_span hs).last _)

theorem reads_program {p : Program} (h : p.Fits) : Reads program (ofProgram p) p :=
  (ListFits.reads (fun _ => reads_decl) h).last Program.mk

theorem reads_typeName {t : TypeName} (h : t.Fits) : Reads typeName (ofTypeName t) t := by
  cases t with
  | int => exact fun _ => rfl
  | bool => exact fun _ => rfl
  | void => exact fun _ => rfl
  | struct name => exact .case 3 (by decide) ((reads_string h).last TypeName.struct)

theorem reads_field {e : String × SymbolId} (h : TextFits e.1 ∧ e.2.Fits) : Reads field (ofField e) e :=
  (reads_string h.1).bind ((reads_symbolId h.2).last _)

theorem reads_symbolKind {k : SymbolKind} (h : k.Fits) : Reads symbolKind (ofSymbolKind k) k := by
  cases k with
  | scalar type => exact .case 0 (by decide) ((reads_typeName h).map SymbolKind.scalar)
  | function params result =>
    simp only [ofSymbolKind, List.append_assoc]
    refine .case 1 (by decide) (Reads.bind ?_ ((reads_typeName h.2).last _))
    exact ListFits.reads (fun _ => reads_typeName) h.1
  | struct fields =>
    have hfields := ListFits.reads (fun _ => reads_field) h
    have hlast := hfields.last fun entries => SymbolKind.struct (.ofList entries)
    rw [FieldTable.ofList_entries] at hlast
    exact .case 2 (by decide) hlast

theorem reads_symbol {s : Symbol} (h : s.Fits) : Reads symbol (ofSymbol s) s := by
  obtain ⟨hname, hkind, hs⟩ := h
  simp only [ofSymbol, List.append_assoc]
  exact (reads_string hname).bind ((reads_symbolKind hkind).bind ((reads_span hs).last _))

theorem reads_symbolTable {table : SymbolTable} (h : table.Fits) :
    Reads symbolTable (ofSymbolTable table) table :=
  (ListFits.reads (fun _ => reads_symbol) h).last SymbolTable.mk

theorem reads_artifact {a : Artifact} (h : a.Fits) : Reads Artifact.decoder a.encode a := by
  obtain ⟨hversion, hprogram, htable⟩ := h
  simp only [Artifact.encode, List.append_assoc]
  exact (reads_nat hversion).bind ((reads_program hprogram).bind ((reads_symbolTable htable).last _))

end Decoder

/-- An artifact is decoded from its bytes, whatever follows them; nothing is decoded from a strict prefix of them, and
they are the bytes of no other artifact. -/
theorem artifact_decodes (a : Artifact) (h : a.Fits) :
    (∀ rest, Artifact.decoder.run (a.encode ++ rest) = some (a, rest)) ∧
    (∀ front, front <+: a.encode → front ≠ a.encode → Artifact.decoder.run front = none) ∧
    ∀ b : Artifact, b.Fits → b.encode = a.encode → b = a := by
  have hreads := Decoder.reads_artifact h
  refine ⟨hreads, fun front hfront hne => ?_, fun b hb e => ?_⟩
  · exact hreads.of_prefix (fun _ => .artifact) hfront hne
  · have hreads' := Decoder.reads_artifact hb
    rw [e] at hreads'
    exact hreads'.unique hreads

/-- A struct, and a function that compares a field of it and calls itself. -/
def comparedField : Artifact :=
  let here : Span := ⟨0, 1, 1, 1⟩
  let p : Ident := ⟨"p", here, some ⟨1⟩⟩
  let x : Expr := .place (.field (.name p) ⟨"x", here, some ⟨0⟩⟩ (some "int")) here
  let yes : Stmt := .ret none here
  let no : Stmt := .call ⟨"f", here, none⟩ [.place (.name p) here] here
  let body : Stmt :=
    .ifElse (.binary .eq x (.literal (.int (-1)) here) here) (.mk [] [yes] here) (.mk [] [no] here) here
  { version := formatVersion
    program := ⟨[
      .struct ⟨⟨"P", here, none⟩, [⟨⟨.int, here⟩, ⟨"x", here, some ⟨0⟩⟩, here⟩], here⟩,
      .function ⟨⟨.void, here⟩, ⟨"f", here, none⟩, [⟨⟨.struct ⟨"P", here, none⟩, here⟩, p, here⟩],
        .mk [] [body] here, here⟩]⟩
    table := ⟨[⟨"P", .struct (.ofList [("x", ⟨0⟩)]), here⟩, ⟨"p", .scalar (.struct "P"), here⟩]⟩ }

theorem comparedField_fits : comparedField.Fits := by
  simp +decide [comparedField, Artifact.Fits, Program.Fits, ListFits, Decl.Fits, StructDecl.Fits, FunctionDecl.Fits,
    Binding.Fits, TypeRef.Fits, TypeKind.Fits, Ident.Fits, Span.Fits, SymbolId.Fits, Block.Fits, Stmt.Fits, Stmt.AllFit,
    Expr.Fits, Expr.AllFit, Location.Fits, Literal.Fits, SymbolTable.Fits, Symbol.Fits, SymbolKind.Fits, TypeName.Fits,
    TextFits, FieldTable.ofList, FieldTable.insert, FieldTable.insertEntry, FieldTable.empty, formatVersion]

theorem comparedField_decodes :
    comparedField.Fits ∧ Artifact.decoder.run (comparedField.encode ++ [7]) = some (comparedField, [7]) ∧
    Artifact.decoder.run (comparedField.encode.take 100) = none := by
  have h := artifact_decodes comparedField comparedField_fits
  refine ⟨comparedField_fits, h.1 [7], h.2.1 _ (List.take_prefix ..) ?_⟩
  decide +kernel

end Namescope
