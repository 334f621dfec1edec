import Namescope.Naming.Symbol
/-!
# Relabelled trees

The labels of a tree are its names, spans, symbols and noted types. A relabelling puts others in their
places and leaves the shape of the tree alone. Two trees are equal but for their symbols, say, if one
relabelling that takes the symbols away makes them the same tree.
-/
namespace Namescope

/-- What is put in the place of each label. -/
structure Relabel where
  name : String → String := id
  span : Span → Span := id
  sym : Option SymbolId → Option SymbolId := id
  resolved : Option String → Option String := id

/-- Takes away what name resolution writes into a tree. -/
def Relabel.bare : Relabel := { sym := fun _ => none, resolved := fun _ => none }

section
variable (f : Relabel)

/-- An identifier relabelled. -/
def Ident.relabel (ident : Ident) : Ident := ⟨f.name ident.name, f.span ident.span, f.sym ident.sym⟩

/-- A type relabelled, without its span. -/
def TypeKind.relabel : TypeKind → TypeKind
  | .int => .int
  | .bool => .bool
  | .void => .void
  | .struct name => .struct (name.relabel f)

/-- A type relabelled. -/
def TypeRef.relabel (type : TypeRef) : TypeRef := ⟨type.kind.relabel f, f.span type.span⟩

/-- A type name relabelled. -/
def TypeName.relabel : TypeName → TypeName
  | .int => .int
  | .bool => .bool
  | .void => .void
  | .struct name => .struct (f.name name)

/-- A variable, formal or field relabelled. -/
def Binding.relabel (b : Binding) : Binding := ⟨b.type.relabel f, b.name.relabel f, f.span b.span⟩

/-- A location relabelled. -/
def Location.relabel : Location → Location
  | .name ident => .name (ident.relabel f)
  | .field base ident resolved => .field (base.relabel) (ident.relabel f) (f.resolved resolved)

mutual

/-- An expression relabelled. -/
def Expr.relabel : Expr → Expr
  | .literal value span => .literal value (f.span span)
  | .place location span => .place (location.relabel f) (f.span span)
  | .assign target value span => .assign target.relabel value.relabel (f.span span)
  | .call callee args span => .call (callee.relabel f) (Expr.relabelAll args) (f.span span)
  | .unary op operand span => .unary op operand.relabel (f.span span)
  | .binary op left right span => .binary op left.relabel right.relabel (f.span span)

/-- Expressions relabelled. -/
def Expr.relabelAll : List Expr → List Expr
  | [] => []
  | first :: more => first.relabel :: Expr.relabelAll more

end

mutual

/-- A block relabelled. -/
def Block.relabel : Block → Block
  | .mk locals body span => .mk (locals.map (Binding.relabel f)) (Stmt.relabelAll body) (f.span span)

/-- A statement relabelled. -/
def Stmt.relabel : Stmt → Stmt
  | .assign target value span => .assign (target.relabel f) (value.relabel f) (f.span span)
  | .increment target span => .increment (target.relabel f) (f.span span)
  | .decrement target span => .decrement (target.relabel f) (f.span span)
  | .read target span => .read (target.relabel f) (f.span span)
  | .write value span => .write (value.relabel f) (f.span span)
  | .ifThen cond yes span => .ifThen (cond.relabel f) yes.relabel (f.span span)
  | .ifElse cond yes no span => .ifElse (cond.relabel f) yes.relabel no.relabel (f.span span)
  | .whileLoop cond body span => .whileLoop (cond.relabel f) body.relabel (f.span span)
  | .repeatLoop cond body span => .repeatLoop (cond.relabel f) body.relabel (f.span span)
  | .call callee args span => .call (callee.relabel f) (Expr.relabelAll f args) (f.span span)
  | .ret none span => .ret none (f.span span)
  | .ret (some value) span => .ret (some (value.relabel f)) (f.span span)

/-- Statements relabelled. -/
def Stmt.relabelAll : List Stmt → List Stmt
  | [] => []
  | first :: more => first.relabel :: Stmt.relabelAll more

end

/-- A function relabelled. -/
def FunctionDecl.relabel (d : FunctionDecl) : FunctionDecl where
  result := d.result.relabel f
  name := d.name.relabel f
  formals := d.formals.map (Binding.relabel f)
  body := d.body.relabel f
  span := f.span d.span

/-- A struct relabelled. -/
def StructDecl.relabel (d : StructDecl) : StructDecl where
  name := d.name.relabel f
  fields := d.fields.map (Binding.relabel f)
  span := f.span d.span

/-- A declaration relabelled. -/
def Decl.relabel : Decl → Decl
  | .variable b => .variable (b.relabel f)
  | .function d => .function (d.relabel f)
  | .struct d => .struct (d.relabel f)

/-- A program relabelled. -/
def Program.relabel (p : Program) : Program := ⟨p.decls.map (Decl.relabel f)⟩

end

/-- The program without what name resolution writes into it. -/
def Program.bare (p : Program) : Program := p.relabel .bare

/-- The type that a declaration names is relabelled with it. -/
theorem TypeName.ofRef_relabel (f : Relabel) (type : TypeRef) :
    TypeName.ofRef (type.relabel f) = (TypeName.ofRef type).relabel f := by
  obtain ⟨kind, span⟩ := type
  cases kind <;> rfl

/-! ## One relabelling after another -/

/-- First `g`, then `f`. -/
def Relabel.comp (f g : Relabel) : Relabel where
  name := f.name ∘ g.name
  span := f.span ∘ g.span
  sym := f.sym ∘ g.sym
  resolved := f.resolved ∘ g.resolved

section
variable (f g : Relabel)

theorem Ident.relabel_relabel (ident : Ident) : (ident.relabel g).relabel f = ident.relabel (f.comp g) := rfl

theorem TypeRef.relabel_relabel (type : TypeRef) : (type.relabel g).relabel f = type.relabel (f.comp g) := by
  obtain ⟨kind, span⟩ := type
  cases kind <;> rfl

theorem Binding.relabel_relabel (b : Binding) : (b.relabel g).relabel f = b.relabel (f.comp g) := by
  simp [relabel, TypeRef.relabel_relabel, Ident.relabel_relabel, Relabel.comp]

theorem Location.relabel_relabel (l : Location) : (l.relabel g).relabel f = l.relabel (f.comp g) := by
  induction l with
  | name => rfl
  | field base ident resolved ih =>
    rw [relabel, relabel, ih]
    rfl

mutual

theorem Expr.relabel_relabel : ∀ e : Expr, (e.relabel g).relabel f = e.relabel (f.comp g)
  | .literal _ _ => rfl
  | .place location _ => by simp [relabel, location.relabel_relabel, Relabel.comp]
  | .assign target value _ => by
    simp [relabel, target.relabel_relabel, value.relabel_relabel, Relabel.comp]
  | .call callee args _ => by
    simp [relabel, callee.relabel_relabel, Expr.relabelAll_relabelAll args, Relabel.comp]
  | .unary _ operand _ => by simp [relabel, operand.relabel_relabel, Relabel.comp]
  | .binary _ left right _ => by simp [relabel, left.relabel_relabel, right.relabel_relabel, Relabel.comp]

theorem Expr.relabelAll_relabelAll :
    ∀ es : List Expr, relabelAll f (relabelAll g es) = relabelAll (f.comp g) es
  | [] => rfl
  | first :: more => by simp [relabelAll, first.relabel_relabel, Expr.relabelAll_relabelAll more]

end

theorem Binding.map_relabel_relabel (bs : List Binding) :
    (bs.map (relabel g)).map (relabel f) = bs.map (relabel (f.comp g)) := by
  simp [Binding.relabel_relabel]

mutual

theorem Block.relabel_relabel : ∀ b : Block, (b.relabel g).relabel f = b.relabel (f.comp g)
  | .mk locals body _ => by
    simp only [Block.relabel, Binding.map_relabel_relabel, Stmt.relabelAll_relabelAll body]
    rfl

theorem Stmt.relabel_relabel : ∀ s : Stmt, (s.relabel g).relabel f = s.relabel (f.comp g)
  | .assign target value _ => by
    simp [Stmt.relabel, target.relabel_relabel, value.relabel_relabel, Relabel.comp]
  | .increment target _ | .decrement target _ | .read target _ | .write target _ => by
    simp [Stmt.relabel, target.relabel_relabel, Relabel.comp]
  | .ifThen cond body _ | .whileLoop cond body _ | .repeatLoop cond body _ => by
    simp [Stmt.relabel, cond.relabel_relabel, Block.relabel_relabel body, Relabel.comp]
  | .ifElse cond yes no _ => by
    simp [Stmt.relabel, cond.relabel_relabel, Block.relabel_relabel yes, Block.relabel_relabel no, Relabel.comp]
  | .call callee args _ => by
    simp [Stmt.relabel, callee.relabel_relabel, Expr.relabelAll_relabelAll, Relabel.comp]
  | .ret none _ => rfl
  | .ret (some value) _ => by simp [Stmt.relabel, value.relabel_relabel, Relabel.comp]

theorem Stmt.relabelAll_relabelAll :
    ∀ ss : List Stmt, Stmt.relabelAll f (Stmt.relabelAll g ss) = Stmt.relabelAll (f.comp g) ss
  | [] => rfl
  | first :: more => by simp [Stmt.relabelAll, Stmt.relabel_relabel first, Stmt.relabelAll_relabelAll more]

end

theorem Decl.relabel_relabel (d : Decl) : (d.relabel g).relabel f = d.relabel (f.comp g) := by
  cases d with
  | «variable» b => exact congrArg Decl.variable (b.relabel_relabel f g)
  | function d =>
    simp only [relabel, FunctionDecl.relabel, TypeRef.relabel_relabel, Ident.relabel_relabel,
      Binding.map_relabel_relabel, Block.relabel_relabel]
    rfl
  | struct s =>
    simp only [relabel, StructDecl.relabel, Ident.relabel_relabel, Binding.map_relabel_relabel]
    rfl

/-- Two relabellings of a program are one. -/
theorem Program.relabel_relabel (p : Program) : (p.relabel g).relabel f = p.relabel (f.comp g) := by
  simp only [relabel, List.map_map, Function.comp_def, Decl.relabel_relabel]

end

theorem Program.bare_bare (p : Program) : p.bare.bare = p.bare := p.relabel_relabel .bare .bare

end Namescope
