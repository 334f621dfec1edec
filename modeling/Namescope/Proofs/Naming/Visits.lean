import Namescope.Proofs.Tree.Relabel
/-!
# The visits of a walk

Name resolution walks over a tree in one direction and never goes back, so a walk is a list: scopes are
entered and left, and between that it meets the items of the tree, the parts in which names are declared
or used. What holds of every walk is proved by induction on this list instead of on the tree.
-/
namespace Namescope

/-- A part of a tree in which names are declared or used. -/
inductive Item where
  | result (type : TypeRef)
  | function (name : Ident) (params : List TypeName) (result : TypeName)
  | binding (b : Binding)
  | struct (s : StructDecl)
  | place (location : Location)
  | callee (ident : Ident)

/-- A part of a walk. -/
inductive Visit where
  | enter
  | leave
  | item (i : Item)

mutual

/-- The items of an expression. -/
def Expr.items : Expr → List Item
  | .literal _ _ => []
  | .place location _ => [.place location]
  | .assign target value _ => target.items ++ value.items
  | .call callee args _ => .callee callee :: Expr.listItems args
  | .unary _ operand _ => operand.items
  | .binary _ left right _ => left.items ++ right.items

/-- The items of expressions in order. -/
def Expr.listItems : List Expr → List Item
  | [] => []
  | first :: more => first.items ++ Expr.listItems more

end

/-- Visits to items in order. -/
def Visit.items (items : List Item) : List Visit := items.map .item

/-- Visits to declarations in order. -/
def Visit.bindings (bindings : List Binding) : List Visit := bindings.map fun b => .item (.binding b)

/-- Visits in a scope of their own. -/
def Visit.scoped (visits : List Visit) : List Visit := .enter :: visits ++ [.leave]

mutual

/-- The visits to the contents of a block. -/
def Block.visits : Block → List Visit
  | .mk locals body _ => Visit.bindings locals ++ Stmt.listVisits body

/-- The visits to a statement; each block in it has a scope of its own. -/
def Stmt.visits : Stmt → List Visit
  | .assign target value _ => Visit.items (target.items ++ value.items)
  | .increment target _ => Visit.items target.items
  | .decrement target _ => Visit.items target.items
  | .read target _ => Visit.items target.items
  | .write value _ => Visit.items value.items
  | .ifThen cond yes _ => Visit.items cond.items ++ Visit.scoped yes.visits
  | .ifElse cond yes no _ =>
    Visit.items cond.items ++ (Visit.scoped yes.visits ++ Visit.scoped no.visits)
  | .whileLoop cond body _ => Visit.items cond.items ++ Visit.scoped body.visits
  | .repeatLoop cond body _ => Visit.items cond.items ++ Visit.scoped body.visits
  | .call callee args _ => Visit.items (.callee callee :: Expr.listItems args)
  | .ret none _ => []
  | .ret (some value) _ => Visit.items value.items

/-- The visits to statements in order. -/
def Stmt.listVisits : List Stmt → List Visit
  | [] => []
  | first :: more => first.visits ++ Stmt.listVisits more

end

/-- The name of a function with what it takes and gives, as an item. -/
def FunctionDecl.item (f : FunctionDecl) : Item :=
  .function f.name (f.formals.map fun formal => .ofRef formal.type) (.ofRef f.result)

/-- The visits to a declaration; formals and body of a function share a scope. -/
def Decl.visits : Decl → List Visit
  | .variable b => [.item (.binding b)]
  | .function f =>
    [.item (.result f.result), .item f.item] ++
      Visit.scoped (Visit.bindings f.formals ++ f.body.visits)
  | .struct s => [.item (.struct s)]

/-- The visits to a program. -/
def Program.visits (p : Program) : List Visit := p.decls.flatMap Decl.visits

/-! ## Relabelled visits -/

/-- An item relabelled. -/
def Item.relabel (f : Relabel) : Item → Item
  | .result type => .result (type.relabel f)
  | .function name params type =>
    .function (name.relabel f) (params.map (TypeName.relabel f)) (type.relabel f)
  | .binding b => .binding (b.relabel f)
  | .struct s => .struct (s.relabel f)
  | .place location => .place (location.relabel f)
  | .callee ident => .callee (ident.relabel f)

/-- A visit relabelled. -/
def Visit.relabel (f : Relabel) : Visit → Visit
  | .enter => .enter
  | .leave => .leave
  | .item i => .item (i.relabel f)

section
variable (f : Relabel)

theorem Visit.relabel_items (items : List Item) :
    (Visit.items items).map (Visit.relabel f) = Visit.items (items.map (Item.relabel f)) := by
  simp only [Visit.items, List.map_map]
  rfl

theorem Visit.relabel_bindings (bindings : List Binding) :
    (Visit.bindings bindings).map (Visit.relabel f) = Visit.bindings (bindings.map (Binding.relabel f)) := by
  simp [Visit.bindings, Visit.relabel, Item.relabel]

theorem Visit.relabel_scoped (visits : List Visit) :
    (Visit.scoped visits).map (Visit.relabel f) = Visit.scoped (visits.map (Visit.relabel f)) := by
  simp [Visit.scoped, Visit.relabel]

mutual

theorem Expr.items_relabel : ∀ e : Expr, (e.relabel f).items = e.items.map (Item.relabel f)
  | .literal _ _ => rfl
  | .place _ _ => by simp [Expr.relabel, Expr.items, Item.relabel]
  | .assign target value _ => by
    simp [Expr.relabel, Expr.items, Expr.items_relabel target, Expr.items_relabel value]
  | .call _ args _ => by
    simp [Expr.relabel, Expr.items, Item.relabel, Expr.listItems_relabel args]
  | .unary _ operand _ => by simp [Expr.relabel, Expr.items, Expr.items_relabel operand]
  | .binary _ left right _ => by
    simp [Expr.relabel, Expr.items, Expr.items_relabel left, Expr.items_relabel right]

theorem Expr.listItems_relabel :
    ∀ es : List Expr, Expr.listItems (Expr.relabelAll f es) = (Expr.listItems es).map (Item.relabel f)
  | [] => rfl
  | first :: more => by
    simp [Expr.relabelAll, Expr.listItems, Expr.items_relabel first, Expr.listItems_relabel more]

end

mutual

theorem Block.visits_relabel : ∀ b : Block, (b.relabel f).visits = b.visits.map (Visit.relabel f)
  | .mk locals body _ => by
    simp [Block.relabel, Block.visits, Visit.relabel_bindings, Stmt.listVisits_relabel body]

theorem Stmt.visits_relabel : ∀ s : Stmt, (s.relabel f).visits = s.visits.map (Visit.relabel f)
  | .assign target value _ => by
    simp [Stmt.relabel, Stmt.visits, Visit.relabel_items, Expr.items_relabel]
  | .increment target _ | .decrement target _ | .read target _ | .write target _ => by
    simp [Stmt.relabel, Stmt.visits, Visit.relabel_items, Expr.items_relabel]
  | .ifThen cond yes _ => by
    simp [Stmt.relabel, Stmt.visits, Visit.relabel_items, Expr.items_relabel, Visit.relabel_scoped,
      Block.visits_relabel yes]
  | .ifElse cond yes no _ => by
    simp [Stmt.relabel, Stmt.visits, Visit.relabel_items, Expr.items_relabel, Visit.relabel_scoped,
      Block.visits_relabel yes, Block.visits_relabel no]
  | .whileLoop cond body _ | .repeatLoop cond body _ => by
    simp [Stmt.relabel, Stmt.visits, Visit.relabel_items, Expr.items_relabel, Visit.relabel_scoped,
      Block.visits_relabel body]
  | .call callee args _ => by
    simp [Stmt.relabel, Stmt.visits, Visit.relabel_items, Item.relabel, Expr.listItems_relabel]
  | .ret none _ => rfl
  | .ret (some value) _ => by
    simp [Stmt.relabel, Stmt.visits, Visit.relabel_items, Expr.items_relabel]

theorem Stmt.listVisits_relabel :
    ∀ ss : List Stmt, Stmt.listVisits (Stmt.relabelAll f ss) = (Stmt.listVisits ss).map (Visit.relabel f)
  | [] => rfl
  | first :: more => by
    simp [Stmt.relabelAll, Stmt.listVisits, Stmt.visits_relabel first, Stmt.listVisits_relabel more]

end

theorem FunctionDecl.item_relabel (d : FunctionDecl) : (d.relabel f).item = d.item.relabel f := by
  simp [FunctionDecl.item, FunctionDecl.relabel, Item.relabel, Binding.relabel, TypeName.ofRef_relabel]

theorem Decl.visits_relabel : ∀ d : Decl, (d.relabel f).visits = d.visits.map (Visit.relabel f)
  | .variable _ => rfl
  | .struct _ => rfl
  | .function d => by
    rw [Decl.relabel, Decl.visits, FunctionDecl.item_relabel]
    simp [Decl.visits, FunctionDecl.relabel, Visit.relabel_scoped, Visit.relabel_bindings,
      Block.visits_relabel, Visit.relabel, Item.relabel]

/-- Relabelling a program relabels every visit to it. -/
theorem Program.visits_relabel (p : Program) :
    (p.relabel f).visits = p.visits.map (Visit.relabel f) := by
  simp [Program.visits, Program.relabel, List.flatMap_map, List.map_flatMap, Decl.visits_relabel]

end

/-- What is visited in a bare program is bare. -/
theorem Program.bare_of_mem_visits {p : Program} (h : p.bare = p) {v : Visit} (hv : v ∈ p.visits) :
    v.relabel .bare = v := by
  have e : p.visits.map (Visit.relabel .bare) = p.visits.map id := by
    rw [← Program.visits_relabel, List.map_id]
    exact congrArg Program.visits h
  exact List.map_inj_left.1 e v hv

end Namescope
