import Namescope.Proofs.Naming.Annotations
import Namescope.Proofs.Reading.ProgramPlaces
/-!
# Where identifiers stand

Every identifier of a program that is read stands at a token that the cursor can get to, and one in place of a
missing name stands at the token where the name was missed. So whatever holds of the places of these tokens holds
of the places of all identifiers, however many errors are noted on the way.
-/
namespace Namescope

/-! ## Identifiers that stand somewhere -/

section
variable (P : Span → Prop)

/-- All identifiers of a location stand as `P` says. -/
def Location.Stands (l : Location) : Prop := ∀ o ∈ l.links, P o.ident.span

/-- All identifiers of an item stand as `P` says. -/
def Item.Stands (i : Item) : Prop := ∀ o ∈ i.occurrences, P o.ident.span

/-- All identifiers of an expression stand as `P` says. -/
def Expr.Stands (e : Expr) : Prop := ∀ i ∈ e.items, i.Stands P

/-- All identifiers met on visits stand as `P` says. -/
def Visit.Stand (vs : List Visit) : Prop := ∀ i, Visit.item i ∈ vs → i.Stands P

/-- All identifiers of a type stand as `P` says. -/
def TypeRef.Stands (type : TypeRef) : Prop := (Item.result type).Stands P

/-- All identifiers of a variable, formal or field stand as `P` says. -/
def Binding.Stands (b : Binding) : Prop := (Item.binding b).Stands P

/-- All identifiers of a statement stand as `P` says. -/
def Stmt.Stands (s : Stmt) : Prop := Visit.Stand P s.visits

/-- All identifiers of a block stand as `P` says. -/
def Block.Stands (b : Block) : Prop := Visit.Stand P b.visits

/-- All identifiers of a declaration stand as `P` says. -/
def Decl.Stands (d : Decl) : Prop := Visit.Stand P d.visits

end

section
variable {P : Span → Prop}

theorem Location.stands_field {base : Location} {ident : Ident} {resolved : Option String} :
    (Location.field base ident resolved).Stands P ↔ base.Stands P ∧ P ident.span := by
  simp [Location.Stands, Location.links, or_imp, forall_and]

/-- A base stands where the variable of the same name would. -/
theorem Item.stands_place {l : Location} : (Item.place l).Stands P ↔ l.Stands P := by
  cases l <;> simp [Item.Stands, Item.occurrences, Location.occurrences, Location.Stands, Location.links]

theorem Item.stands_callee {ident : Ident} : (Item.callee ident).Stands P ↔ P ident.span := by
  simp [Item.Stands, Item.occurrences]

theorem Item.stands_function {name : Ident} {params : List TypeName} {type : TypeName} :
    (Item.function name params type).Stands P ↔ P name.span := by
  simp [Item.Stands, Item.occurrences]

theorem Binding.stands_iff {b : Binding} : b.Stands P ↔ b.type.Stands P ∧ P b.name.span := by
  simp [Binding.Stands, TypeRef.Stands, Item.Stands, Item.occurrences, Binding.occurrences, or_imp, forall_and]

theorem Item.stands_struct {s : StructDecl} :
    (Item.struct s).Stands P ↔ P s.name.span ∧ ∀ b ∈ s.fields, b.Stands P := by
  constructor
  · intro h
    refine ⟨h _ List.mem_cons_self, fun b hb o ho => h o (List.mem_cons_of_mem _ ?_)⟩
    exact List.mem_flatMap.2 ⟨b, hb, ho⟩
  · rintro ⟨hname, hfields⟩
    exact StructDecl.forall_occurrences hname hfields

theorem TypeRef.stands_struct {name : Ident} {span : Span} :
    (TypeRef.mk (.struct name) span).Stands P ↔ P name.span := by
  simp [TypeRef.Stands, Item.Stands, Item.occurrences, TypeRef.occurrences]

namespace Visit

theorem stand_append {us vs : List Visit} : Stand P (us ++ vs) ↔ Stand P us ∧ Stand P vs := by
  simp [Stand, or_imp, forall_and]

theorem stand_items {is : List Item} : Stand P (items is) ↔ ∀ i ∈ is, i.Stands P := by
  simp [Stand, items]

theorem stand_bindings {bs : List Binding} : Stand P (bindings bs) ↔ ∀ b ∈ bs, b.Stands P := by
  simp [Stand, bindings, Binding.Stands]

theorem stand_scoped {vs : List Visit} : Stand P (Visit.scoped vs) ↔ Stand P vs := by
  simp [Stand, Visit.scoped]

theorem stand_single {i : Item} : Stand P [.item i] ↔ i.Stands P := by
  simp [Stand]

end Visit

theorem Block.stands_iff {locals : List Binding} {body : List Stmt} {span : Span} :
    (Block.mk locals body span).Stands P ↔ (∀ b ∈ locals, b.Stands P) ∧ ∀ s ∈ body, s.Stands P := by
  have hbody : Visit.Stand P (Stmt.listVisits body) ↔ ∀ s ∈ body, s.Stands P := by
    induction body with
    | nil => simp [Stmt.listVisits, Visit.Stand]
    | cons s body ih => rw [Stmt.listVisits, Visit.stand_append, ih, List.forall_mem_cons, Stmt.Stands]
  rw [Block.Stands, Block.visits, Visit.stand_append, Visit.stand_bindings, hbody]

theorem Expr.stands_listItems {es : List Expr} :
    (∀ i ∈ Expr.listItems es, i.Stands P) ↔ ∀ e ∈ es, e.Stands P := by
  induction es with
  | nil => simp [Expr.listItems]
  | cons e es ih => rw [Expr.listItems, List.forall_mem_append, ih, List.forall_mem_cons, Expr.Stands]

theorem Expr.stands_place {l : Location} {span : Span} : (Expr.place l span).Stands P ↔ l.Stands P := by
  simp [Expr.Stands, Expr.items, Item.stands_place]

theorem Expr.stands_assign {target value : Expr} {span : Span} :
    (Expr.assign target value span).Stands P ↔ target.Stands P ∧ value.Stands P := by
  rw [Expr.Stands, Expr.items, List.forall_mem_append, Expr.Stands, Expr.Stands]

theorem Expr.stands_binary {op : BinaryOp} {left right : Expr} {span : Span} :
    (Expr.binary op left right span).Stands P ↔ left.Stands P ∧ right.Stands P := by
  rw [Expr.Stands, Expr.items, List.forall_mem_append, Expr.Stands, Expr.Stands]

theorem Expr.stands_call {callee : Ident} {args : List Expr} {span : Span} :
    (Expr.call callee args span).Stands P ↔ P callee.span ∧ ∀ e ∈ args, e.Stands P := by
  rw [Expr.Stands, Expr.items, List.forall_mem_cons, Item.stands_callee, Expr.stands_listItems]

theorem Expr.stands_withSpan {e : Expr} {span : Span} : (e.withSpan span).Stands P ↔ e.Stands P := by
  cases e <;> rfl

end

/-! ## Expressions -/

namespace Cursor

variable {P : Span → Prop} {c d : Cursor}

/-- Wherever the cursor can get to from here, the next token stands as `P` says. -/
def Sees (P : Span → Prop) (c : Cursor) : Prop := ∀ ts d, c.Goes ts d → P d.here

theorem Sees.here (h : c.Sees P) : P c.here := h [] c .stop

theorem Sees.leads (h : c.Sees P) {Q : List Token → Prop} (hleads : c.Leads d Q) : d.Sees P := by
  obtain ⟨ts, hgoes, -⟩ := hleads
  exact fun us e hgoes' => h _ e (hgoes.trans hgoes')

theorem Sees.next (h : c.Sees P) {t : Step Token c} (ht : c.next? = some t) : P t.value.span :=
  here_of_next ht ▸ h.here

/-- In place of a missing name stands one at the next token. -/
theorem Sees.ident (h : c.Sees P) : P c.ident.value.span := by
  unfold Cursor.ident
  split
  · next t ht =>
    split
    · exact h.next ht
    · exact h.here
  · exact h.here

theorem Sees.fields {location : Location} (h : d.Sees P) (hl : location.Stands P) :
    (d.fields location).value.Stands P := by
  fun_induction Cursor.fields location d with
  | case1 => exact hl
  | case2 location d dot hdot name ih =>
    have hname := h.leads (leads_accept hdot)
    exact ih (hname.leads (leads_ident _)) (Location.stands_field.2 ⟨hl, hname.ident⟩)

/-- A location that begins with a name. -/
theorem Sees.location (h : c.Sees P) {t : Step Token c} (ht : c.next? = some t) (name : String) :
    (t.cursor.location ⟨name, t.value.span, none⟩).value.Stands P := by
  refine Expr.stands_place.2 ((h.leads (leads_next ht)).fields ?_)
  intro o ho
  obtain rfl := List.mem_singleton.1 ho
  exact h.next ht

mutual

theorem expr_stands (c : Cursor) (h : c.Sees P) : c.expr.value.Stands P := by
  have htarget := level_stands .or c h
  rw [expr]
  dsimp only
  split
  · exact htarget
  · next sign hsign =>
    have hlength := (c.level .or).length_le
    have hshorter := sign.shorter
    have hstart := (h.leads (level_covers .or c)).leads
      (leads_accept_noteIf hsign (!(c.level .or).value.isLocation) .targetExpected)
    exact Expr.stands_assign.2 ⟨htarget, expr_stands _ hstart⟩
termination_by 15 * c.rest.length + 12
decreasing_by
  · simp [OperatorLevel.rank]
  · simp only [rest_noteIf]; omega

theorem level_stands (l : OperatorLevel) (c : Cursor) (h : c.Sees P) : (c.level l).value.Stands P := by
  have hlength := (c.operand l).length_le
  have hfirst := operand_stands l c h
  rw [level]
  exact tail_stands l false _ (h.leads (operand_covers l c)) hfirst
termination_by 15 * c.rest.length + (2 * l.rank + 3)
decreasing_by
  · omega
  · omega

theorem operand_stands (l : OperatorLevel) (c : Cursor) (h : c.Sees P) : (c.operand l).value.Stands P := by
  rw [operand]
  split
  · next m hm =>
    have hrank := OperatorLevel.rank_of_tighter? hm
    exact level_stands m c h
  · exact unary_stands c h
termination_by 15 * c.rest.length + (2 * l.rank + 2)
decreasing_by
  · omega
  · omega

theorem tail_stands (l : OperatorLevel) {left : Expr} (again : Bool) (d : Cursor) (h : d.Sees P)
    (hleft : left.Stands P) : (d.tail l left again).value.Stands P := by
  rw [tail]
  split
  · exact hleft
  · next op hop =>
    have hshorter := op.shorter
    have hrank : l.rank ≤ 4 := by cases l <;> decide
    have hrest := congrArg List.length
      (op.cursor.rest_noteIf (again && decide (l = .comparison)) d.here .chainedComparison)
    have hlength := ((op.cursor.noteIf (again && decide (l = .comparison)) d.here .chainedComparison).operand
      l).length_le
    have hstart := h.leads (leads_operator_noteIf hop (again && decide (l = .comparison)) .chainedComparison)
    have hright := operand_stands l _ hstart
    extract_lets start right
    exact tail_stands l true _ (hstart.leads (operand_covers l start)) (Expr.stands_binary.2 ⟨hleft, hright⟩)
termination_by 15 * d.rest.length
decreasing_by
  · omega
  · omega

theorem unary_stands (c : Cursor) (h : c.Sees P) : c.unary.value.Stands P := by
  rw [unary]
  split
  · exact atom_stands c h
  · next op hop =>
    have hshorter := op.shorter
    exact unary_stands op.cursor (h.leads (leads_prefixOp hop))
termination_by 15 * c.rest.length + 1
decreasing_by
  · omega
  · omega

theorem atom_stands (c : Cursor) (h : c.Sees P) : c.atom.value.Stands P := by
  have hliteral : ∀ (value : Literal) (span : Span), (Expr.literal value span).Stands P :=
    fun _ _ => List.forall_mem_nil _
  rw [atom]
  split
  · exact hliteral _ _
  · next t ht =>
    have hshorter := t.shorter
    have hnext := h.leads (leads_next ht)
    split
    · exact hliteral _ _
    · exact hliteral _ _
    · exact hliteral _ _
    · exact Expr.stands_withSpan.2 (expr_stands _ hnext)
    · next name hkind =>
      split
      · exact h.location ht name
      · next paren hparen =>
        have hparenShorter := paren.shorter
        exact Expr.stands_call.2 ⟨h.next ht, args_stands _ (hnext.leads (leads_accept hparen))⟩
    · exact hliteral _ _
termination_by 15 * c.rest.length
decreasing_by
  · omega
  · omega

theorem args_stands (c : Cursor) (h : c.Sees P) : ∀ e ∈ c.args.value, e.Stands P := by
  have hexprs := exprs_stands c h
  rw [args]
  change ∀ e ∈ (if c.isAt .rparen then c.stay [] else c.exprs).value, e.Stands P
  split
  · exact List.forall_mem_nil _
  · exact hexprs
termination_by 15 * c.rest.length + 14
decreasing_by omega

theorem exprs_stands (c : Cursor) (h : c.Sees P) : ∀ e ∈ c.exprs.value, e.Stands P := by
  have hfirst := expr_stands c h
  have hlength := c.expr.length_le
  rw [exprs]
  dsimp only
  split
  · exact List.forall_mem_singleton.2 hfirst
  · next comma hcomma =>
    have hshorter := comma.shorter
    have hmore := (h.leads (expr_covers c)).leads (leads_accept hcomma)
    exact List.forall_mem_cons.2 ⟨hfirst, exprs_stands _ hmore⟩
termination_by 15 * c.rest.length + 13
decreasing_by
  · omega
  · omega

end

end Cursor

end Namescope
