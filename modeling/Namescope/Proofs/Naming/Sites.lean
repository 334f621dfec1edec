import Namescope.Naming.ScopeStack
import Namescope.Proofs.Naming.Visits
/-!
# Sites

Where an item stands in a program decides which declarations it can see: those of the scopes around it
that come before it. A site is an item with these declarations. The sites of a program are read off its
tree; that they are the ones met on a walk is shown at the end.
-/
namespace Namescope

/-! ## Declarations -/

/-- What a declaration makes of its name. -/
inductive Meaning where
  | scalar (type : TypeName)
  | function (params : List TypeName) (result : TypeName)
  | struct (fields : List Binding)

/-- A name that is declared. -/
structure Declaration where
  ident : Ident
  meaning : Meaning

namespace Declaration

/-- The class of names that a declaration is in. -/
def nameClass (d : Declaration) : NameClass :=
  match d.meaning with
  | .struct _ => .struct
  | _ => .plain

/-- Whether a declaration is of a name of a class. -/
def names (cls : NameClass) (name : String) (d : Declaration) : Bool :=
  d.nameClass = cls && d.ident.name = name

/-- Whether a function is declared. -/
def isFunction (d : Declaration) : Bool :=
  match d.meaning with
  | .function _ _ => true
  | _ => false

/-- The declared type of a variable, formal or field. -/
def type? (d : Declaration) : Option TypeName :=
  match d.meaning with
  | .scalar type => some type
  | _ => none

/-- The fields of a struct. -/
def fields? (d : Declaration) : Option (List Binding) :=
  match d.meaning with
  | .struct fields => some fields
  | _ => none

/-- Whether a variable, formal or field of a struct type is declared. -/
def hasStructType (d : Declaration) : Bool := (d.type?.bind TypeName.structName?).isSome

/-- Whether a declaration takes the name of an earlier one in its scope. A struct type does not take its
name away from a variable, formal or field of some struct type. -/
def Clashes (d earlier : Declaration) : Prop :=
  earlier.ident.name = d.ident.name ∧ ¬ (earlier.nameClass = .struct ∧ d.hasStructType)

instance (d earlier : Declaration) : Decidable (d.Clashes earlier) :=
  inferInstanceAs (Decidable (_ ∧ _))

end Declaration

/-- A variable, formal or field as a declaration. -/
def Binding.declaration (b : Binding) : Declaration := ⟨b.name, .scalar (.ofRef b.type)⟩

/-- A function as a declaration. -/
def FunctionDecl.declaration (f : FunctionDecl) : Declaration :=
  ⟨f.name, .function (f.formals.map fun formal => .ofRef formal.type) (.ofRef f.result)⟩

/-- A struct as a declaration. -/
def StructDecl.declaration (s : StructDecl) : Declaration := ⟨s.name, .struct s.fields⟩

/-- What stands at the top of a program as a declaration. -/
def Decl.declaration : Decl → Declaration
  | .variable b => b.declaration
  | .function f => f.declaration
  | .struct s => s.declaration

/-- The scopes around a place from the inside out, each with the declarations in it that come before the
place, in order. -/
abbrev Context := List (List Declaration)

namespace Context
variable (Γ : Context) (counts : Declaration → Bool)

/-- What a name means: the declaration of it that counts in the innermost scope that has one. -/
def visible? (cls : NameClass) (name : String) : Option Declaration :=
  Γ.findSome? (·.find? fun d => counts d && d.names cls name)

/-- A type that a variable, formal or field can have: not `void`, and a struct type only if it can be
seen. -/
def Knows : TypeName → Prop
  | .void => False
  | .struct name => (Γ.visible? counts .struct name).isSome
  | _ => True

/-- Whether a name can be declared here: the innermost scope does not have it yet, and if it is that of a
variable, formal or field, the type is known. -/
structure Admits (d : Declaration) : Prop where
  known : ∀ type ∈ d.type?, Γ.Knows counts type
  free : ∀ e ∈ Γ.headD [], counts e → ¬ d.Clashes e

instance (type : TypeName) : Decidable (Γ.Knows counts type) :=
  match type with
  | .void => .isFalse id
  | .struct name => inferInstanceAs (Decidable ((Γ.visible? counts .struct name).isSome = true))
  | .int | .bool => .isTrue trivial

instance (d : Declaration) : Decidable (Γ.Admits counts d) :=
  decidable_of_iff
    ((∀ type ∈ d.type?, Γ.Knows counts type) ∧ ∀ e ∈ Γ.headD [], counts e → ¬ d.Clashes e)
    ⟨fun h => ⟨h.1, h.2⟩, fun h => ⟨h.known, h.free⟩⟩

end Context

/-! ## Sites of a tree -/

/-- An item and what it can see. -/
structure Site where
  context : Context
  item : Item

/-- Bindings see the ones before them. -/
def Binding.sites (outer : Context) (before : List Declaration) : List Binding → List Site
  | [] => []
  | b :: more =>
    ⟨before :: outer, .binding b⟩ :: Binding.sites outer (before ++ [b.declaration]) more

/-- The parts of an expression see what the expression sees. -/
def Expr.sites (Γ : Context) (e : Expr) : List Site := e.items.map (Site.mk Γ)

mutual

/-- The locals of a block come after what its scope holds already, and the statements after them. -/
def Block.sites (outer : Context) (before : List Declaration) : Block → List Site
  | .mk locals body _ =>
    Binding.sites outer before locals ++
      Stmt.listSites ((before ++ locals.map Binding.declaration) :: outer) body

/-- A condition sees what the statement sees, and a block in the statement has a scope of its own. -/
def Stmt.sites (Γ : Context) : Stmt → List Site
  | .assign target value _ => target.sites Γ ++ value.sites Γ
  | .increment target _ => target.sites Γ
  | .decrement target _ => target.sites Γ
  | .read target _ => target.sites Γ
  | .write value _ => value.sites Γ
  | .ifThen cond yes _ => cond.sites Γ ++ yes.sites Γ []
  | .ifElse cond yes no _ => cond.sites Γ ++ (yes.sites Γ [] ++ no.sites Γ [])
  | .whileLoop cond body _ => cond.sites Γ ++ body.sites Γ []
  | .repeatLoop cond body _ => cond.sites Γ ++ body.sites Γ []
  | .call callee args _ => ⟨Γ, .callee callee⟩ :: (Expr.listItems args).map (Site.mk Γ)
  | .ret none _ => []
  | .ret (some value) _ => value.sites Γ

/-- Statements in order see the same declarations. -/
def Stmt.listSites (Γ : Context) : List Stmt → List Site
  | [] => []
  | first :: more => first.sites Γ ++ Stmt.listSites Γ more

end

/-- A function sees itself in its formals and its body, which share a scope, but not in its result. -/
def FunctionDecl.sites (before : List Declaration) (f : FunctionDecl) : List Site :=
  let inside : Context := [before ++ [f.declaration]]
  [⟨[before], .result f.result⟩, ⟨[before], f.item⟩] ++
    (Binding.sites inside [] f.formals ++ f.body.sites inside (f.formals.map Binding.declaration))

/-- What stands at the top of a program sees what stands before it. -/
def Decl.sites (before : List Declaration) : Decl → List Site
  | .variable b => [⟨[before], .binding b⟩]
  | .function f => f.sites before
  | .struct s => [⟨[before], .struct s⟩]

/-- The sites of declarations that come after others. -/
def Decl.listSites (before : List Declaration) : List Decl → List Site
  | [] => []
  | first :: more => first.sites before ++ Decl.listSites (before ++ [first.declaration]) more

/-- The sites of a program. -/
def Program.sites (p : Program) : List Site := Decl.listSites [] p.decls

/-! ## Sites of a walk -/

/-- What an item declares. -/
def Item.declarations : Item → List Declaration
  | .function name params type => [⟨name, .function params type⟩]
  | .binding b => [b.declaration]
  | .struct s => [s.declaration]
  | _ => []

/-- More declarations in the innermost scope. -/
def Context.add : Context → List Declaration → Context
  | [], _ => []
  | scope :: outer, ds => (scope ++ ds) :: outer

theorem Context.add_nil (Γ : Context) : Γ.add [] = Γ := by
  cases Γ with
  | nil => rfl
  | cons scope outer => rw [Context.add, List.append_nil]

namespace Visit

/-- What can be seen after a visit. -/
def after (Γ : Context) : Visit → Context
  | .enter => [] :: Γ
  | .leave => Γ.tail
  | .item i => Γ.add i.declarations

/-- The site of a visit to an item. -/
def sites (Γ : Context) : Visit → List Site
  | .item i => [⟨Γ, i⟩]
  | _ => []

/-- The sites of visits in order. -/
def listSites : Context → List Visit → List Site
  | _, [] => []
  | Γ, v :: vs => v.sites Γ ++ listSites (v.after Γ) vs

/-- From a context visits lead over some sites to another context. -/
def Covers (Γ : Context) (vs : List Visit) (sites : List Site) (Γ' : Context) : Prop :=
  listSites Γ vs = sites ∧ vs.foldl after Γ = Γ'

theorem Covers.append {Γ Γ' Γ'' : Context} {us vs : List Visit} {ss ts : List Site}
    (h : Covers Γ us ss Γ') (h' : Covers Γ' vs ts Γ'') : Covers Γ (us ++ vs) (ss ++ ts) Γ'' := by
  obtain ⟨rfl, rfl⟩ := h
  obtain ⟨rfl, rfl⟩ := h'
  refine ⟨?_, List.foldl_append⟩
  induction us generalizing Γ with
  | nil => rfl
  | cons u us ih => simp [listSites, ih]

/-- What happens in a scope of its own is not seen after it. -/
theorem Covers.scoped {Γ : Context} {vs : List Visit} {ss : List Site} {ds : List Declaration}
    (h : Covers ([] :: Γ) vs ss (ds :: Γ)) : Covers Γ (Visit.scoped vs) ss Γ := by
  have hleave : Covers (ds :: Γ) [.leave] [] Γ := ⟨rfl, rfl⟩
  have henter : Covers Γ [.enter] [] ([] :: Γ) := ⟨rfl, rfl⟩
  have hall := henter.append (h.append hleave)
  rwa [List.append_nil] at hall

theorem covers_item (Γ : Context) (i : Item) : Covers Γ [.item i] [⟨Γ, i⟩] (Γ.add i.declarations) :=
  ⟨rfl, rfl⟩

theorem covers_bindings (outer : Context) : ∀ (before : List Declaration) (bs : List Binding),
    Covers (before :: outer) (Visit.bindings bs) (Binding.sites outer before bs)
      ((before ++ bs.map Binding.declaration) :: outer)
  | before, [] => ⟨rfl, by rw [List.map_nil, List.append_nil]; rfl⟩
  | before, b :: more => by
    have hmore := covers_bindings outer (before ++ [b.declaration]) more
    rw [List.append_assoc] at hmore
    exact (covers_item (before :: outer) (.binding b)).append hmore

/-- Items that declare nothing are all seen from the same context. -/
theorem covers_items (Γ : Context) : ∀ {is : List Item}, (∀ i ∈ is, i.declarations = []) →
    Covers Γ (Visit.items is) (is.map (Site.mk Γ)) Γ
  | [], _ => ⟨rfl, rfl⟩
  | i :: is, h => by
    have hfirst := covers_item Γ i
    rw [h i List.mem_cons_self, Γ.add_nil] at hfirst
    exact hfirst.append (covers_items Γ fun j hj => h j (List.mem_cons_of_mem _ hj))

end Visit

mutual

/-- Nothing is declared in an expression. -/
theorem Expr.declarations_items : ∀ (e : Expr), ∀ i ∈ e.items, i.declarations = []
  | .literal _ _ => by simp [Expr.items]
  | .place _ _ => by simp [Expr.items, Item.declarations]
  | .assign target value _ => by
    intro i hi
    rcases List.mem_append.1 hi with hi | hi
    · exact target.declarations_items i hi
    · exact value.declarations_items i hi
  | .call _ args _ => by
    intro i hi
    rcases List.mem_cons.1 hi with rfl | hi
    · rfl
    · exact Expr.declarations_listItems args i hi
  | .unary _ operand _ => operand.declarations_items
  | .binary _ left right _ => by
    intro i hi
    rcases List.mem_append.1 hi with hi | hi
    · exact left.declarations_items i hi
    · exact right.declarations_items i hi

theorem Expr.declarations_listItems : ∀ (es : List Expr), ∀ i ∈ Expr.listItems es, i.declarations = []
  | [] => by simp [Expr.listItems]
  | first :: more => by
    intro i hi
    rcases List.mem_append.1 hi with hi | hi
    · exact first.declarations_items i hi
    · exact Expr.declarations_listItems more i hi

end

theorem Expr.covers (Γ : Context) (e : Expr) : Visit.Covers Γ (Visit.items e.items) (e.sites Γ) Γ :=
  Visit.covers_items Γ e.declarations_items

mutual

theorem Block.covers (outer : Context) (before : List Declaration) : ∀ b : Block,
    Visit.Covers (before :: outer) b.visits (b.sites outer before)
      ((before ++ b.locals.map Binding.declaration) :: outer)
  | .mk locals body _ => (Visit.covers_bindings outer before locals).append (Stmt.covers_list _ body)

theorem Stmt.covers (Γ : Context) : ∀ s : Stmt, Visit.Covers Γ s.visits (s.sites Γ) Γ
  | .assign target value _ => by
    have h := (target.covers Γ).append (value.covers Γ)
    rwa [Visit.items, Visit.items, ← List.map_append] at h
  | .increment target _ | .decrement target _ | .read target _ => target.covers Γ
  | .write value _ | .ret (some value) _ => value.covers Γ
  | .ifThen cond yes _ => (cond.covers Γ).append (Block.covers Γ [] yes).scoped
  | .ifElse cond yes no _ =>
    (cond.covers Γ).append ((Block.covers Γ [] yes).scoped.append (Block.covers Γ [] no).scoped)
  | .whileLoop cond body _ | .repeatLoop cond body _ =>
    (cond.covers Γ).append (Block.covers Γ [] body).scoped
  | .call callee args _ =>
    -- the items are those of the call as an expression
    Visit.covers_items Γ (Expr.declarations_items (.call callee args {}))
  | .ret none _ => ⟨rfl, rfl⟩

theorem Stmt.covers_list (Γ : Context) : ∀ ss : List Stmt,
    Visit.Covers Γ (Stmt.listVisits ss) (Stmt.listSites Γ ss) Γ
  | [] => ⟨rfl, rfl⟩
  | first :: more => (Stmt.covers Γ first).append (Stmt.covers_list Γ more)

end

theorem Decl.covers (before : List Declaration) : ∀ d : Decl,
    Visit.Covers [before] d.visits (d.sites before) [before ++ [d.declaration]]
  | .variable b => Visit.covers_item [before] (.binding b)
  | .struct s => Visit.covers_item [before] (.struct s)
  | .function f => by
    have hresult : Visit.Covers [before] [.item (.result f.result)] [⟨[before], .result f.result⟩]
        [before] := ⟨rfl, Context.add_nil [before]⟩
    have hname := hresult.append (Visit.covers_item [before] f.item)
    have hinside := (Visit.covers_bindings [before ++ [f.declaration]] [] f.formals).append
      (Block.covers [before ++ [f.declaration]] _ f.body)
    exact hname.append hinside.scoped

theorem Decl.covers_list : ∀ (before : List Declaration) (ds : List Decl),
    Visit.Covers [before] (ds.flatMap Decl.visits) (Decl.listSites before ds)
      [before ++ ds.map Decl.declaration]
  | before, [] => ⟨rfl, by rw [List.map_nil, List.append_nil]; rfl⟩
  | before, first :: more => by
    have hmore := Decl.covers_list (before ++ [first.declaration]) more
    rw [List.append_assoc] at hmore
    exact (first.covers before).append hmore

/-- The sites of a program are met in order on the walk over it. -/
theorem Program.listSites_visits (p : Program) : Visit.listSites [[]] p.visits = p.sites :=
  (Decl.covers_list [] p.decls).1

end Namescope
