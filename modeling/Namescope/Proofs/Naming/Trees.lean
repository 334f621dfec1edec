import Namescope.Proofs.Naming.Walk
/-!
# The resolver on whole trees

The walk over a tree follows the steps over its visits: the tree it gives back is the one whose visits
the steps end in, and differs from the first in its symbols and noted types at most. No tree makes the
walk stop with an internal error, whatever symbols it comes with.
-/
namespace Namescope

/-! ## Steps change symbols and noted types only -/

section
variable {S S' : ScopeStack} {fs : List (Finding NameIssue)}

theorem ScopeStack.type?_bare {type type' : TypeRef} (h : S.type? type = some type') :
    type'.relabel .bare = type.relabel .bare := by
  unfold type? at h
  split at h
  · rename_i name hname
    obtain ⟨id, -, rfl⟩ := Option.map_eq_some_iff.1 h
    simp [TypeRef.relabel, TypeKind.relabel, hname, Ident.relabel, Relabel.bare]
  · cases h
    rfl

theorem BindingStep.bare {b b' : Binding} (h : BindingStep S b b' S' fs) : b'.relabel .bare = b.relabel .bare := by
  cases h with
  | void | unknownType | barred => rfl
  | taken _ htype | declared _ htype =>
    simp only [Binding.relabel, S.type?_bare htype]
    rfl

theorem BindingSteps.bare {bs bs' : List Binding} (h : BindingSteps S bs bs' S' fs) :
    bs'.map (Binding.relabel .bare) = bs.map (Binding.relabel .bare) := by
  induction h with
  | nil => rfl
  | cons hb _ ih => rw [List.map_cons, List.map_cons, hb.bare, ih]

theorem Holds.bare {l l' : Location} {id : SymbolId} (h : Holds S l l' id) :
    l'.relabel .bare = l.relabel .bare := by
  induction h with
  | name => rfl
  | field _ _ _ ih => exact congrArg (Location.field · _ none) ih

theorem Fails.bare {l l' : Location} {f : Finding NameIssue} (h : Fails S l l' f) :
    l'.relabel .bare = l.relabel .bare := by
  induction h with
  | undeclared | scalar => rfl
  | inner _ ih => exact congrArg (Location.field · _ none) ih
  | noField hbase | scalarField hbase => exact congrArg (Location.field · _ none) hbase.bare

theorem ItemStep.bare {i i' : Item} (h : ItemStep S i i' S' fs) : i'.relabel .bare = i.relabel .bare := by
  cases h with
  | result h => exact congrArg Item.result (S.type?_bare h)
  | binding hb => exact congrArg Item.binding hb.bare
  | struct _ hfields => exact congrArg (fun fields => Item.struct ⟨_, fields, _⟩) hfields.bare
  | chain hbase | noField hbase => exact congrArg (fun l => Item.place (.field l _ none)) hbase.bare
  | broken hbase => exact congrArg (fun l => Item.place (.field l _ none)) hbase.bare
  | _ => rfl

theorem ItemStep.outer {i i' : Item} (h : ItemStep S i i' S' fs) : S'.outer = S.outer := by
  cases h with
  | binding hb => exact hb.outer
  | _ => rfl

end

theorem Visit.items_append (is js : List Item) : Visit.items (is ++ js) = Visit.items is ++ Visit.items js :=
  List.map_append

theorem Visit.items_cons (i : Item) (is : List Item) : Visit.items (i :: is) = [.item i] ++ Visit.items is :=
  rfl

theorem TypeName.relabel_bare (type : TypeName) : type.relabel .bare = type := by
  cases type <;> rfl

/-- What a type names does not depend on its symbol. -/
theorem TypeName.ofRef_of_bare {type type' : TypeRef} (h : type'.relabel .bare = type.relabel .bare) :
    TypeName.ofRef type' = TypeName.ofRef type := by
  rw [← (TypeName.ofRef type').relabel_bare, ← TypeName.ofRef_relabel, h, TypeName.ofRef_relabel,
    TypeName.relabel_bare]

theorem Binding.types_of_bare {bs bs' : List Binding}
    (h : bs'.map (Binding.relabel .bare) = bs.map (Binding.relabel .bare)) :
    bs'.map (fun b => TypeName.ofRef b.type) = bs.map fun b => TypeName.ofRef b.type := by
  have e : (fun b : Binding => TypeName.ofRef b.type) =
      (fun b => TypeName.ofRef b.type) ∘ Binding.relabel .bare := by
    funext b
    exact ((TypeName.ofRef_relabel .bare b.type).trans (TypeName.relabel_bare _)).symm
  rw [e, ← List.map_map, h, List.map_map]

/-! ## Walks that follow the steps -/

namespace Resolve

/-- From sound scopes a walk turns the visits `vs` into others by steps and leaves the scopes open that
were open before; `Q` tells its result and the visits they were turned into. -/
def Follows {α : Type} (walk : Resolve α) (vs : List Visit) (Q : α → List Visit → Prop) : Prop :=
  ∀ S : ScopeStack, S.Sound →
    ∃ a S' vs' fs, Yields walk S a S' fs ∧ VisitSteps S vs vs' S' fs ∧ S'.outer = S.outer ∧ Q a vs'

namespace Follows
variable {α β : Type} {walk : Resolve α} {vs : List Visit} {P : α → List Visit → Prop}
  {Q : β → List Visit → Prop}

theorem pure {b : β} (h : Q b []) : Follows (Pure.pure b) [] Q :=
  fun S _ => ⟨b, S, [], [], .pure S b, .nil, rfl, h⟩

theorem bind {next : α → Resolve β} {ws : List Visit} (h : Follows walk vs P)
    (h' : ∀ a vs', P a vs' → Follows (next a) ws fun b ws' => Q b (vs' ++ ws')) :
    Follows (walk >>= next) (vs ++ ws) Q := by
  intro S hS
  obtain ⟨a, S₁, vs', fs, hy, hsteps, hout, hP⟩ := h S hS
  obtain ⟨b, S₂, ws', gs, hy', hsteps', hout', hQ⟩ := h' a vs' hP S₁ (hsteps.sound hS)
  exact ⟨b, S₂, vs' ++ ws', fs ++ gs, hy.bind hy', hsteps.append hsteps', hout'.trans hout, hQ⟩

/-- What comes last only puts the result together. -/
theorem last {next : α → Resolve β} (f : α → β) (h : Follows walk vs P)
    (h' : ∀ a vs', P a vs' → Q (f a) vs') (hnext : ∀ a, next a = Pure.pure (f a)) :
    Follows (walk >>= next) vs Q := by
  intro S hS
  obtain ⟨a, S₁, vs', fs, hy, hsteps, hout, hP⟩ := h S hS
  refine ⟨f a, S₁, vs', fs, hy.thenQuiet ?_, hsteps, hout, h' a vs' hP⟩
  rw [hnext]
  exact .pure S₁ (f a)

theorem map (f : α → β) (h : Follows walk vs P) (h' : ∀ a vs', P a vs' → Q (f a) vs') :
    Follows (f <$> walk) vs Q := by
  intro S hS
  obtain ⟨a, S₁, vs', fs, hy, hsteps, hout, hP⟩ := h S hS
  exact ⟨f a, S₁, vs', fs, hy.map f, hsteps, hout, h' a vs' hP⟩

/-- A walk in a scope of its own. -/
theorem inScope (h : Follows walk vs P) :
    Follows (Resolve.inScope walk) (Visit.scoped vs)
      fun r ws => ∃ vs', P r.1 vs' ∧ ws = Visit.scoped vs' := by
  intro S hS
  obtain ⟨a, S₁, vs', fs, hy, hsteps, hout, hP⟩ := h S.enter hS.enter
  refine ⟨_, _, Visit.scoped vs', fs, yields_inScope hy hout, ?_, rfl, vs', hP, rfl⟩
  -- the walk leaves the outer scopes open, so there is one to go back to
  have hleave : VisitStep S₁ .leave .leave { S with table := S₁.table } [] := by
    obtain ⟨table, innermost, outer⟩ := S₁
    cases hout
    exact .leave
  have hall := Thread.cons .enter (hsteps.append (.single hleave))
  rw [List.append_nil] at hall
  exact hall

/-- A part of the tree that is one item. -/
theorem item {i : Item} (mk : α → Item)
    (h : ∀ S : ScopeStack, S.Sound → ∃ a S' fs, Yields walk S a S' fs ∧ ItemStep S i (mk a) S' fs)
    (h' : ∀ a, (mk a).relabel .bare = i.relabel .bare → P a [.item (mk a)]) :
    Follows walk [.item i] P := by
  intro S hS
  obtain ⟨a, S', fs, hy, hi⟩ := h S hS
  exact ⟨a, S', _, fs, hy, .single (.item hi), hi.outer, h' a hi.bare⟩

end Follows

/-! ## Expressions and statements -/

/-- The result of a walk is `a` with other symbols and noted types, and its visits are those made. -/
def Marked {α : Type} (visits : α → List Visit) (bare : α → α) (a a' : α) (vs : List Visit) : Prop :=
  vs = visits a' ∧ bare a' = bare a

theorem follows_location (l : Location) :
    Follows (location l) [.item (.place l)]
      (Marked (fun l => [.item (.place l)]) (Location.relabel .bare) l) := by
  refine .item Item.place (fun S hS => ?_) fun l' h => ⟨rfl, Item.place.inj h⟩
  obtain ⟨l', fs, hy, hi⟩ := yields_location hS l
  exact ⟨l', S, fs, hy, hi⟩

theorem follows_callee (ident : Ident) :
    Follows (callee ident) [.item (.callee ident)]
      (Marked (fun ident => [.item (.callee ident)]) (Ident.relabel .bare) ident) := by
  refine .item Item.callee (fun S hS => ?_) fun ident' h => ⟨rfl, Item.callee.inj h⟩
  obtain ⟨ident', fs, hy, hi⟩ := yields_callee hS ident
  exact ⟨ident', S, fs, hy, hi⟩

mutual

theorem follows_expr : ∀ e : Expr,
    Follows (expr e) (Visit.items e.items)
      (Marked (fun e => Visit.items e.items) (Expr.relabel .bare) e)
  | .literal value span => .pure ⟨rfl, rfl⟩
  | .place location span => by
    refine (follows_location location).last (Expr.place · span) ?_ fun _ => rfl
    rintro location' vs ⟨rfl, h⟩
    exact ⟨rfl, by simp [Expr.relabel, h]⟩
  | .assign target value span => by
    rw [Expr.items, Visit.items_append]
    refine (follows_expr target).bind ?_
    rintro target' vs ⟨rfl, ht⟩
    refine (follows_expr value).last (Expr.assign target' · span) ?_ fun _ => rfl
    rintro value' ws ⟨rfl, hv⟩
    exact ⟨by simp [Expr.items, Visit.items_append], by simp [Expr.relabel, ht, hv]⟩
  | .call callee args span => by
    rw [Expr.items, Visit.items_cons]
    refine (follows_callee callee).bind ?_
    rintro callee' vs ⟨rfl, hc⟩
    refine (follows_exprs args).last (Expr.call callee' · span) ?_ fun _ => rfl
    rintro args' ws ⟨rfl, ha⟩
    exact ⟨rfl, by simp [Expr.relabel, hc, ha]⟩
  | .unary op operand span => by
    refine (follows_expr operand).last (Expr.unary op · span) ?_ fun _ => rfl
    rintro operand' vs ⟨rfl, h⟩
    exact ⟨rfl, by simp [Expr.relabel, h]⟩
  | .binary op left right span => by
    rw [Expr.items, Visit.items_append]
    refine (follows_expr left).bind ?_
    rintro left' vs ⟨rfl, hl⟩
    refine (follows_expr right).last (Expr.binary op left' · span) ?_ fun _ => rfl
    rintro right' ws ⟨rfl, hr⟩
    exact ⟨by simp [Expr.items, Visit.items_append], by simp [Expr.relabel, hl, hr]⟩

theorem follows_exprs : ∀ es : List Expr,
    Follows (exprs es) (Visit.items (Expr.listItems es))
      (Marked (fun es => Visit.items (Expr.listItems es)) (Expr.relabelAll .bare) es)
  | [] => .pure ⟨rfl, rfl⟩
  | first :: more => by
    rw [Expr.listItems, Visit.items_append]
    refine (follows_expr first).bind ?_
    rintro first' vs ⟨rfl, hf⟩
    refine (follows_exprs more).last (first' :: ·) ?_ fun _ => rfl
    rintro more' ws ⟨rfl, hm⟩
    exact ⟨by simp [Expr.listItems, Visit.items_append], by simp [Expr.relabelAll, hf, hm]⟩

end

theorem follows_bindings (bs : List Binding) :
    Follows (bindings bs) (Visit.bindings bs)
      (Marked Visit.bindings (List.map (Binding.relabel .bare)) bs) := by
  intro S hS
  obtain ⟨bs', S', fs, hy, hbs⟩ := yields_bindings bs hS
  exact ⟨bs', S', _, fs, hy, hbs.steps, hbs.outer, rfl, hbs.bare⟩

/-- A block is a walk over its contents in a scope of its own. -/
theorem follows_block {b : Block}
    (h : Follows (contents b) b.visits (Marked Block.visits (Block.relabel .bare) b)) :
    Follows (block b) (Visit.scoped b.visits)
      (Marked (fun b => Visit.scoped b.visits) (Block.relabel .bare) b) := by
  obtain ⟨locals, body, span⟩ := b
  refine h.inScope.last Prod.fst ?_ fun _ => rfl
  rintro r ws ⟨vs, ⟨rfl, hb⟩, rfl⟩
  exact ⟨rfl, hb⟩

mutual

theorem follows_contents : ∀ b : Block,
    Follows (contents b) b.visits (Marked Block.visits (Block.relabel .bare) b)
  | .mk locals body span => by
    refine (follows_bindings locals).bind ?_
    rintro locals' vs ⟨rfl, hl⟩
    refine (follows_statements body).last (Block.mk locals' · span) ?_ fun _ => rfl
    rintro body' ws ⟨rfl, hb⟩
    exact ⟨rfl, by simp [Block.relabel, hl, hb]⟩

theorem follows_statement : ∀ s : Stmt,
    Follows (statement s) s.visits (Marked Stmt.visits (Stmt.relabel .bare) s)
  | .assign target value span => by
    rw [Stmt.visits, Visit.items_append]
    refine (follows_expr target).bind ?_
    rintro target' vs ⟨rfl, ht⟩
    refine (follows_expr value).last (Stmt.assign target' · span) ?_ fun _ => rfl
    rintro value' ws ⟨rfl, hv⟩
    exact ⟨by simp [Stmt.visits, Visit.items_append], by simp [Stmt.relabel, ht, hv]⟩
  | .increment target span => by
    refine (follows_expr target).last (Stmt.increment · span) ?_ fun _ => rfl
    rintro target' vs ⟨rfl, h⟩
    exact ⟨rfl, by simp [Stmt.relabel, h]⟩
  | .decrement target span => by
    refine (follows_expr target).last (Stmt.decrement · span) ?_ fun _ => rfl
    rintro target' vs ⟨rfl, h⟩
    exact ⟨rfl, by simp [Stmt.relabel, h]⟩
  | .read target span => by
    refine (follows_expr target).last (Stmt.read · span) ?_ fun _ => rfl
    rintro target' vs ⟨rfl, h⟩
    exact ⟨rfl, by simp [Stmt.relabel, h]⟩
  | .write value span => by
    refine (follows_expr value).last (Stmt.write · span) ?_ fun _ => rfl
    rintro value' vs ⟨rfl, h⟩
    exact ⟨rfl, by simp [Stmt.relabel, h]⟩
  | .ifThen cond yes span => by
    refine (follows_expr cond).bind ?_
    rintro cond' vs ⟨rfl, hc⟩
    refine (follows_block (follows_contents yes)).last (Stmt.ifThen cond' · span) ?_ fun _ => rfl
    rintro yes' ws ⟨rfl, hyes⟩
    exact ⟨rfl, by simp [Stmt.relabel, hc, hyes]⟩
  | .ifElse cond yes no span => by
    refine (follows_expr cond).bind ?_
    rintro cond' vs ⟨rfl, hc⟩
    refine (follows_block (follows_contents yes)).bind ?_
    rintro yes' us ⟨rfl, hyes⟩
    refine (follows_block (follows_contents no)).last (Stmt.ifElse cond' yes' · span) ?_ fun _ => rfl
    rintro no' ws ⟨rfl, hno⟩
    exact ⟨rfl, by simp [Stmt.relabel, hc, hyes, hno]⟩
  | .whileLoop cond body span => by
    refine (follows_expr cond).bind ?_
    rintro cond' vs ⟨rfl, hc⟩
    refine (follows_block (follows_contents body)).last (Stmt.whileLoop cond' · span) ?_ fun _ => rfl
    rintro body' ws ⟨rfl, hb⟩
    exact ⟨rfl, by simp [Stmt.relabel, hc, hb]⟩
  | .repeatLoop cond body span => by
    refine (follows_expr cond).bind ?_
    rintro cond' vs ⟨rfl, hc⟩
    refine (follows_block (follows_contents body)).last (Stmt.repeatLoop cond' · span) ?_ fun _ => rfl
    rintro body' ws ⟨rfl, hb⟩
    exact ⟨rfl, by simp [Stmt.relabel, hc, hb]⟩
  | .call callee args span => by
    rw [Stmt.visits, Visit.items_cons]
    refine (follows_callee callee).bind ?_
    rintro callee' vs ⟨rfl, hc⟩
    refine (follows_exprs args).last (Stmt.call callee' · span) ?_ fun _ => rfl
    rintro args' ws ⟨rfl, ha⟩
    exact ⟨rfl, by simp [Stmt.relabel, hc, ha]⟩
  | .ret none span => .pure ⟨rfl, rfl⟩
  | .ret (some value) span => by
    refine (follows_expr value).last (fun value => Stmt.ret (some value) span) ?_ fun _ => rfl
    rintro value' vs ⟨rfl, h⟩
    exact ⟨rfl, by simp [Stmt.relabel, h]⟩

theorem follows_statements : ∀ ss : List Stmt,
    Follows (statements ss) (Stmt.listVisits ss)
      (Marked Stmt.listVisits (Stmt.relabelAll .bare) ss)
  | [] => .pure ⟨rfl, rfl⟩
  | first :: more => by
    refine (follows_statement first).bind ?_
    rintro first' vs ⟨rfl, hf⟩
    refine (follows_statements more).last (first' :: ·) ?_ fun _ => rfl
    rintro more' ws ⟨rfl, hm⟩
    exact ⟨rfl, by simp [Stmt.relabelAll, hf, hm]⟩

end

/-! ## Programs -/

theorem follows_resultType (type : TypeRef) :
    Follows (resultType type) [.item (.result type)]
      (Marked (fun type => [.item (.result type)]) (TypeRef.relabel .bare) type) := by
  refine .item Item.result (fun S hS => ?_) fun type' h => ⟨rfl, Item.result.inj h⟩
  obtain ⟨type', fs, hy, hi⟩ := yields_resultType hS type
  exact ⟨type', S, fs, hy, hi⟩

theorem follows_functionName (f : FunctionDecl) :
    Follows (functionName f) [.item f.item] fun name vs =>
      vs = [.item (.function name (f.formals.map fun formal => .ofRef formal.type) (.ofRef f.result))] ∧
        name.relabel .bare = f.name.relabel .bare :=
  .item (fun name => .function name _ _) (fun S _ => yields_functionName S f) fun _ h =>
    ⟨rfl, (Item.function.inj h).1⟩

theorem follows_function (f : FunctionDecl) :
    Follows (function f) (Decl.function f).visits
      (Marked (fun f => (Decl.function f).visits) (FunctionDecl.relabel .bare) f) := by
  refine (follows_resultType f.result).bind ?_
  rintro result vs ⟨rfl, hr⟩
  refine (follows_functionName f).bind ?_
  rintro name us ⟨rfl, hn⟩
  -- formals and body share a scope, so they are one part of the walk
  have hinner : Follows (do
      let formals ← bindings f.formals
      let body ← contents f.body
      return (formals, body))
      (Visit.bindings f.formals ++ f.body.visits) fun r vs =>
        vs = Visit.bindings r.1 ++ r.2.visits ∧
          r.1.map (Binding.relabel .bare) = f.formals.map (Binding.relabel .bare) ∧
          r.2.relabel .bare = f.body.relabel .bare := by
    refine (follows_bindings f.formals).bind ?_
    rintro formals vs ⟨rfl, hf⟩
    refine (follows_contents f.body).last (formals, ·) ?_ fun _ => rfl
    rintro body ws ⟨rfl, hb⟩
    exact ⟨rfl, hf, hb⟩
  refine hinner.inScope.last (fun r => { f with result, name, formals := r.1.1, body := r.1.2 }) ?_
    fun _ => rfl
  rintro ⟨⟨formals, body⟩, scope⟩ ws ⟨vs, ⟨rfl, hf, hb⟩, rfl⟩
  refine ⟨?_, by simp [FunctionDecl.relabel, hr, hn, hf, hb]⟩
  have hresult : TypeName.ofRef result = TypeName.ofRef f.result := TypeName.ofRef_of_bare hr
  have hparams : formals.map (fun formal => TypeName.ofRef formal.type) =
      f.formals.map fun formal => TypeName.ofRef formal.type := Binding.types_of_bare hf
  simp [Decl.visits, FunctionDecl.item, hresult, hparams]

theorem follows_binding (b : Binding) :
    Follows (binding b) [.item (.binding b)]
      (Marked (fun b => [.item (.binding b)]) (Binding.relabel .bare) b) := by
  refine .item Item.binding (fun S hS => ?_) fun b' h => ⟨rfl, Item.binding.inj h⟩
  obtain ⟨b', S', fs, hy, hb⟩ := yields_binding hS b
  exact ⟨b', S', fs, hy, .binding hb⟩

theorem follows_decl : ∀ d : Decl, Follows (decl d) d.visits (Marked Decl.visits (Decl.relabel .bare) d)
  | .variable b => by
    refine (follows_binding b).map Decl.variable ?_
    rintro b' vs ⟨rfl, h⟩
    exact ⟨rfl, congrArg Decl.variable h⟩
  | .function f => by
    refine (follows_function f).map Decl.function ?_
    rintro f' vs ⟨rfl, h⟩
    exact ⟨rfl, congrArg Decl.function h⟩
  | .struct s => by
    have hs : Follows (struct s) [.item (.struct s)]
        (Marked (fun s => [.item (.struct s)]) (StructDecl.relabel .bare) s) :=
      .item Item.struct (fun S hS => yields_struct hS s) fun s' h => ⟨rfl, Item.struct.inj h⟩
    refine hs.map Decl.struct ?_
    rintro s' vs ⟨rfl, h⟩
    exact ⟨rfl, congrArg Decl.struct h⟩

/-- Declarations leave the depth as it is, so the check after each of them passes. -/
theorem follows_decls : ∀ (ds : List Decl) (S : ScopeStack), S.Sound →
    ∃ ds' S' fs, Yields (decls S.depth ds) S ds' S' fs ∧
      VisitSteps S (ds.flatMap Decl.visits) (ds'.flatMap Decl.visits) S' fs ∧ S'.outer = S.outer ∧
      ds'.map (Decl.relabel .bare) = ds.map (Decl.relabel .bare)
  | [], S, _ => ⟨[], S, [], .pure S [], .nil, rfl, rfl⟩
  | first :: more, S, hS => by
    obtain ⟨first', S₁, vs, fs, hy, hfirst, hout, rfl, hb⟩ := follows_decl first S hS
    -- the next declarations are walked with the depth of `S`, which is checked against that of `S₁`
    have hdepth : S.depth = S₁.depth := by simp [ScopeStack.depth, ScopeStack.scopes, hout]
    obtain ⟨more', S₂, gs, hy', hmore, hout', hb'⟩ := follows_decls more S₁ (hfirst.sound hS)
    refine ⟨first' :: more', S₂, fs ++ gs, hy.bind ?_, ?_, hout'.trans hout, ?_⟩
    · rw [hdepth]
      exact (yields_expectDepth S₁).andThen <| hy'.thenQuiet (.pure S₂ _)
    · exact hfirst.append hmore
    · rw [List.map_cons, List.map_cons, hb, hb']

theorem follows_program (p : Program) :
    Follows (program p) p.visits (Marked Program.visits Program.bare p) := by
  intro S hS
  obtain ⟨ds, S', fs, hy, hsteps, hout, hb⟩ := follows_decls p.decls S hS
  refine ⟨⟨ds⟩, S', _, fs, (yields_depth S).andThen <| hy.thenQuiet (.pure S' _), hsteps, hout, rfl, ?_⟩
  exact congrArg Program.mk hb

end Resolve

/-- A whole program is resolved without an internal error, by steps over its visits. -/
theorem analyze_steps (p : Program) :
    ∃ a S', analyze p = .ok a ∧ a.table = S'.table ∧
      VisitSteps {} p.visits a.program.visits S' a.findings ∧ a.program.bare = p.bare := by
  obtain ⟨p', S', vs, fs, hy, hsteps, -, rfl, hb⟩ := Resolve.follows_program p {} ScopeStack.sound_empty
  obtain ⟨events, e⟩ := hy [] []
  refine ⟨⟨p', S'.table, fs, events⟩, S', ?_, rfl, hsteps, hb⟩
  unfold analyze
  exact congrArg (· >>= _) e

/-! ## Programs one after the other -/

namespace Resolve

/-- Walks over programs in order, with one stack of scopes. -/
def programs : List Program → Resolve (List Program)
  | [] => pure []
  | first :: more => do
    let first ← program first
    let more ← programs more
    return first :: more

/-- Programs are resolved without an internal error, and as many scopes are open as before. -/
theorem yields_programs : ∀ (ps : List Program) {S : ScopeStack}, S.Sound →
    ∃ ps' S' fs, Yields (programs ps) S ps' S' fs ∧ S'.Sound ∧ S'.outer = S.outer
  | [], S, hS => ⟨[], S, [], .pure S [], hS, rfl⟩
  | first :: more, S, hS => by
    obtain ⟨first', S₁, vs, fs, hy, hsteps, hout, -⟩ := follows_program first S hS
    obtain ⟨more', S₂, gs, hy', hS₂, hout'⟩ := yields_programs more (hsteps.sound hS)
    exact ⟨_, S₂, _, hy.bind (hy'.thenQuiet (.pure S₂ _)), hS₂, hout'.trans hout⟩

end Resolve

end Namescope
