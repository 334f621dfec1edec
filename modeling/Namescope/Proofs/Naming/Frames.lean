import Namescope.Proofs.Naming.Reachable
/-!
# What a walk leaves alone

Whatever part of a program the resolver walks over, it only adds to the innermost scope, and there only the
names that the part declares itself. Scopes around it, symbols and findings stay, so after a statement every
name means what it meant before.
-/
namespace Namescope

/-! ## What may change -/

/-- The scopes around the innermost one stay. That one gains names that are declared among `ds`, with symbols
that are new in the table, which grows at its end. -/
structure ScopeStack.Adds (S : ScopeStack) (ds : List Declaration) (S' : ScopeStack) : Prop where
  outer : S'.outer = S.outer
  innermost : ∀ cls, ∃ gained, S'.innermost.names cls = gained ++ S.innermost.names cls ∧
    ∀ e ∈ gained, S.table.size ≤ e.2.index ∧ ∃ d ∈ ds, d.names cls e.1 = true
  table : S.table.symbols <+: S'.table.symbols

namespace ScopeStack

theorem Adds.refl (S : ScopeStack) (ds : List Declaration) : S.Adds ds S where
  outer := rfl
  innermost _ := ⟨[], rfl, nofun⟩
  table := List.prefix_rfl

namespace Adds
variable {S S₁ S' : ScopeStack} {ds es : List Declaration}

theorem trans (h : S.Adds ds S₁) (h' : S₁.Adds es S') : S.Adds (ds ++ es) S' where
  outer := h'.outer.trans h.outer
  innermost cls := by
    obtain ⟨gained, e, hgained⟩ := h.innermost cls
    obtain ⟨gained', e', hgained'⟩ := h'.innermost cls
    refine ⟨gained' ++ gained, by rw [e', e, List.append_assoc], fun x hx => ?_⟩
    rcases List.mem_append.1 hx with hx | hx
    · obtain ⟨hnew, d, hd, hname⟩ := hgained' x hx
      exact ⟨Nat.le_trans h.table.length_le hnew, d, List.mem_append_right _ hd, hname⟩
    · obtain ⟨hnew, d, hd, hname⟩ := hgained x hx
      exact ⟨hnew, d, List.mem_append_left _ hd, hname⟩
  table := h.table.trans h'.table

/-- If nothing is declared the scope stays as it is. -/
theorem innermost_eq (h : S.Adds [] S') : S'.innermost = S.innermost := by
  have hnames (cls : NameClass) : S'.innermost.names cls = S.innermost.names cls := by
    obtain ⟨gained, e, hgained⟩ := h.innermost cls
    cases gained with
    | nil => exact e
    | cons x gained =>
      obtain ⟨-, d, hd, -⟩ := hgained x List.mem_cons_self
      cases hd
  obtain ⟨_, ⟨plain, structs⟩, _⟩ := S
  obtain ⟨_, ⟨plain', structs'⟩, _⟩ := S'
  exact congrArg₂ Scope.mk (hnames .plain) (hnames .struct)

/-- After a scope is left that was entered, what was added to it is gone. -/
theorem leave (h : S.enter.Adds ds S') : S.Adds [] ⟨S'.table, S.innermost, S.outer⟩ where
  outer := rfl
  innermost _ := ⟨[], rfl, nofun⟩
  table := h.table

end Adds

/-- A declaration. -/
theorem adds_add (S : ScopeStack) {symbol : Symbol} {d : Declaration} (hclass : d.nameClass = symbol.nameClass)
    (hname : d.ident.name = symbol.name) : S.Adds [d] (S.add symbol) where
  outer := rfl
  innermost cls := by
    by_cases hc : cls = symbol.nameClass
    · subst hc
      refine ⟨[(symbol.name, S.table.nextId)], by simp [ScopeStack.add, Scope.names_bind], fun e he => ?_⟩
      obtain rfl := List.mem_singleton.1 he
      exact ⟨Nat.le_refl _, d, List.mem_singleton_self d, by simp [Declaration.names, hclass, hname]⟩
    · exact ⟨[], by simp [ScopeStack.add, Scope.names_bind, hc], fun _ he => absurd he List.not_mem_nil⟩
  table := List.prefix_append _ _

end ScopeStack

/-! ## Steps -/

section
variable {S S' : ScopeStack} {fs : List (Finding NameIssue)}

theorem BindingStep.adds {b b' : Binding} (h : BindingStep S b b' S' fs) : S.Adds [b.declaration] S' := by
  cases h with
  | void | unknownType | barred | taken => exact .refl _ _
  | declared => exact S.adds_add rfl rfl

theorem BindingSteps.adds {bs bs' : List Binding} (h : BindingSteps S bs bs' S' fs) :
    S.Adds (bs.map Binding.declaration) S' := by
  induction h with
  | nil => exact .refl _ _
  | cons hb _ ih => exact hb.adds.trans ih

theorem ItemStep.adds {i i' : Item} (h : ItemStep S i i' S' fs) : S.Adds i.declarations S' := by
  cases h with
  | function => exact S.adds_add rfl rfl
  | binding hb => exact hb.adds
  | struct _ hfields =>
    -- the fields are gone with their scope, and the struct is declared after them
    exact hfields.adds.leave.trans (ScopeStack.adds_add _ rfl rfl)
  | _ => exact .refl _ _

end

/-! ## Walks -/

namespace Visit

/-- Wherever the visits are made, they add names of `ds` only. -/
def Add (vs : List Visit) (ds : List Declaration) : Prop :=
  ∀ (S S' : ScopeStack) (vs' : List Visit) (fs : List (Finding NameIssue)),
    VisitSteps S vs vs' S' fs → S.Adds ds S'

theorem add_nil : Add [] [] := by
  intro S S' vs' fs h
  cases h
  exact .refl _ _

theorem Add.append {us vs : List Visit} {ds es : List Declaration} (h : Add us ds) (h' : Add vs es) :
    Add (us ++ vs) (ds ++ es) := by
  intro S S' vs' fs hsteps
  obtain ⟨_, _, _, _, _, hus, hvs⟩ := hsteps.of_append
  exact (h _ _ _ _ hus).trans (h' _ _ _ _ hvs)

theorem add_item (i : Item) : Add [.item i] i.declarations := by
  intro S S' vs' fs h
  cases h with
  | cons hv hnil =>
    cases hnil
    cases hv with
    | item hi => exact hi.adds

/-- Visits in a scope of their own add nothing. -/
theorem Add.scoped {vs : List Visit} {ds : List Declaration} (h : Add vs ds) : Add (Visit.scoped vs) [] := by
  intro S S' vs' fs hsteps
  cases hsteps with
  | cons henter hrest =>
    cases henter
    obtain ⟨_, _, S₁, _, _, hinner, hleave⟩ := hrest.of_append
    cases hleave with
    | cons hlast hnil =>
      cases hnil
      have hadds := h _ _ _ _ hinner
      cases hlast
      -- the scope that is left is the one that was entered
      cases hadds.outer
      exact hadds.leave

theorem add_items : ∀ {is : List Item}, (∀ i ∈ is, i.declarations = []) → Add (items is) []
  | [], _ => add_nil
  | i :: is, h => by
    have hfirst := add_item i
    rw [h i List.mem_cons_self] at hfirst
    exact hfirst.append (add_items fun j hj => h j (List.mem_cons_of_mem _ hj))

theorem add_bindings : ∀ bs : List Binding, Add (bindings bs) (bs.map Binding.declaration)
  | [] => add_nil
  | b :: more => (add_item (.binding b)).append (add_bindings more)

end Visit

theorem Expr.adds (e : Expr) : Visit.Add (Visit.items e.items) [] := Visit.add_items e.declarations_items

mutual

theorem Block.adds : ∀ b : Block, Visit.Add b.visits (b.locals.map Binding.declaration)
  | .mk locals body _ => by
    have h := (Visit.add_bindings locals).append (Stmt.adds_list body)
    rwa [List.append_nil] at h

theorem Stmt.adds : ∀ s : Stmt, Visit.Add s.visits []
  | .assign target value _ => by
    rw [Stmt.visits, Visit.items_append]
    exact target.adds.append value.adds
  | .increment target _ | .decrement target _ | .read target _ => target.adds
  | .write value _ | .ret (some value) _ => value.adds
  | .ifThen cond yes _ => cond.adds.append (Block.adds yes).scoped
  | .ifElse cond yes no _ => cond.adds.append ((Block.adds yes).scoped.append (Block.adds no).scoped)
  | .whileLoop cond body _ | .repeatLoop cond body _ => cond.adds.append (Block.adds body).scoped
  | .call _ args _ => (Visit.add_item _).append (Visit.add_items (Expr.declarations_listItems args))
  | .ret none _ => Visit.add_nil

theorem Stmt.adds_list : ∀ ss : List Stmt, Visit.Add (Stmt.listVisits ss) []
  | [] => Visit.add_nil
  | first :: more => (Stmt.adds first).append (Stmt.adds_list more)

end

theorem Decl.adds : ∀ d : Decl, Visit.Add d.visits [d.declaration]
  | .variable b => Visit.add_item (.binding b)
  | .struct s => Visit.add_item (.struct s)
  | .function f => by
    have hhead := (Visit.add_item (.result f.result)).append (Visit.add_item f.item)
    exact hhead.append ((Visit.add_bindings f.formals).append f.body.adds).scoped

/-! ## Every part of a program -/

/-- A part of a program that the resolver walks over. -/
inductive Construct where
  | expr (e : Expr)
  | statement (s : Stmt)
  | block (b : Block)
  | contents (b : Block)
  | binding (b : Binding)
  | decl (d : Decl)

namespace Construct

/-- The walk over a part of a program. -/
def walk : Construct → Resolve Construct
  | expr e => expr <$> Resolve.expr e
  | statement s => statement <$> Resolve.statement s
  | block b => block <$> Resolve.block b
  | contents b => contents <$> Resolve.contents b
  | binding b => binding <$> Resolve.binding b
  | decl d => decl <$> Resolve.decl d

/-- What a part of a program declares itself. The contents of a block declare its locals, but the block has
a scope of its own for them. -/
def declarations : Construct → List Declaration
  | expr _ | statement _ | block _ => []
  | contents b => b.locals.map Binding.declaration
  | binding b => [b.declaration]
  | decl d => [d.declaration]

/-- The visits to a part of a program. -/
def visits : Construct → List Visit
  | expr e => Visit.items e.items
  | statement s => s.visits
  | block b => Visit.scoped b.visits
  | contents b => b.visits
  | binding b => [.item (.binding b)]
  | decl d => d.visits

theorem adds : ∀ c : Construct, Visit.Add c.visits c.declarations
  | expr e => e.adds
  | statement s => s.adds
  | block b => b.adds.scoped
  | contents b => b.adds
  | binding b => Visit.add_item (.binding b)
  | decl d => d.adds

theorem follows_walk : ∀ c : Construct, Resolve.Follows c.walk c.visits fun _ _ => True
  | expr e => (Resolve.follows_expr e).map _ fun _ _ _ => trivial
  | statement s => (Resolve.follows_statement s).map _ fun _ _ _ => trivial
  | block b => (Resolve.follows_block (Resolve.follows_contents b)).map _ fun _ _ _ => trivial
  | contents b => (Resolve.follows_contents b).map _ fun _ _ _ => trivial
  | binding b => (Resolve.follows_binding b).map _ fun _ _ _ => trivial
  | decl d => (Resolve.follows_decl d).map _ fun _ _ _ => trivial

end Construct

/-- What a part of a program that declares `ds` does to a state: scopes around the innermost one stay, that one
keeps its names and gains those declared only, and symbols, findings and events stay in front of new ones. -/
structure Resolver.Framed (r : Resolver) (ds : List Declaration) (r' : Resolver) : Prop where
  outer : r'.scopes.outer = r.scopes.outer
  innermost : ∀ cls, ∃ gained, r'.scopes.innermost.names cls = gained ++ r.scopes.innermost.names cls ∧
    ∀ e ∈ gained, r.scopes.table.size ≤ e.2.index ∧ ∃ d ∈ ds, d.names cls e.1 = true
  unchanged : ds = [] → r'.scopes.scopes = r.scopes.scopes
  table : r.scopes.table.symbols <+: r'.scopes.table.symbols
  findings : r.findings <+: r'.findings
  events : r.events <+: r'.events

/-- In every state that the resolver gets to, every part of a program is walked over without an internal error,
and all that was there before stays. -/
theorem walk_framed {r : Resolver} (hr : Resolve.Reachable r) (c : Construct) :
    ∃ c' r', c.walk.run r = .ok (c', r') ∧ r.Framed c.declarations r' := by
  obtain ⟨c', S', vs', fs, hy, hsteps, -⟩ := c.follows_walk r.scopes hr.settled.1
  have hadds : r.scopes.Adds c.declarations S' := c.adds _ _ _ _ hsteps
  obtain ⟨more, hrun⟩ := hy r.findings r.events
  refine ⟨c', _, hrun, ?_⟩
  constructor
  case outer => exact hadds.outer
  case innermost => exact hadds.innermost
  case unchanged =>
    intro hnone
    rw [hnone] at hadds
    exact congrArg₂ List.cons hadds.innermost_eq hadds.outer
  case table => exact hadds.table
  case findings => exact List.prefix_append _ _
  case events => exact List.prefix_append _ _

/-- After `int x;` a block that declares `x` twice more leaves that `x` as it is. -/
theorem shadowing_block_framed :
    let x : Binding := ⟨⟨.int, {}⟩, ⟨"x", {}, none⟩, {}⟩
    ∃ x' r, (Resolve.decl (.variable x)).run {} = .ok (x', r) ∧ r.scopes.find? .plain "x" = some ⟨0⟩ ∧
      ∃ c' r', (Construct.block (.mk [x, x] [] {})).walk.run r = .ok (c', r') ∧ r.Framed [] r' := by
  intro x
  have hrun : (Resolve.decl (.variable x)).run {} = .ok (_, _) := rfl
  have hreachable := Resolve.Reachable.between (.decl .start hrun)
  exact ⟨_, _, hrun, by decide, walk_framed hreachable (.block (.mk [x, x] [] {}))⟩

end Namescope
