import Namescope.Proofs.Naming.Annotations
/-!
# A tree is its shape and its identifiers

What name resolution writes stands at identifiers, and it leaves the shape of a tree alone. Two trees of one
shape with the same identifiers are the same tree, so what is known of all identifiers is known of the tree.
-/
namespace Namescope

/-! ## Relabelled identifiers -/

/-- An identifier in its place, relabelled. -/
def Occurrence.relabel (f : Relabel) : Occurrence → Occurrence
  | ⟨.field, ident, resolved⟩ => ⟨.field, ident.relabel f, f.resolved resolved⟩
  | ⟨role, ident, _⟩ => ⟨role, ident.relabel f, none⟩

theorem Occurrence.relabel_role (f : Relabel) (o : Occurrence) : (o.relabel f).role = o.role := by
  obtain ⟨role, ident, resolved⟩ := o
  cases role <;> rfl

theorem Occurrence.relabel_ident (f : Relabel) (o : Occurrence) : (o.relabel f).ident = o.ident.relabel f := by
  obtain ⟨role, ident, resolved⟩ := o
  cases role <;> rfl

section
variable (f : Relabel)

theorem Location.links_relabel (l : Location) :
    (l.relabel f).links = l.links.map (Occurrence.relabel f) := by
  induction l with
  | name => rfl
  | field base ident resolved ih =>
    rw [Location.relabel, links, links, ih, List.map_append]
    rfl

theorem TypeRef.occurrences_relabel (type : TypeRef) :
    (type.relabel f).occurrences = type.occurrences.map (Occurrence.relabel f) := by
  obtain ⟨kind, span⟩ := type
  cases kind <;> rfl

theorem Binding.occurrences_relabel (b : Binding) :
    (b.relabel f).occurrences = b.occurrences.map (Occurrence.relabel f) := by
  rw [occurrences, occurrences, List.map_append, ← b.type.occurrences_relabel]
  rfl

theorem Item.occurrences_relabel (i : Item) :
    (i.relabel f).occurrences = i.occurrences.map (Occurrence.relabel f) := by
  cases i with
  | result type => exact type.occurrences_relabel f
  | binding b => exact b.occurrences_relabel f
  | function | callee => rfl
  | struct s =>
    simp only [relabel, StructDecl.relabel, occurrences, List.map_cons, List.flatMap_map, List.map_flatMap,
      Binding.occurrences_relabel]
    rfl
  | place l =>
    cases l with
    | name => rfl
    | field base ident resolved => exact (Location.field base ident resolved).links_relabel f

theorem Visit.occurrences_relabel (v : Visit) :
    (v.relabel f).occurrences = v.occurrences.map (Occurrence.relabel f) := by
  cases v with
  | enter | leave => rfl
  | item i => exact i.occurrences_relabel f

/-- Relabelling visits relabels the identifiers met on them. -/
theorem Visit.flatMap_occurrences_relabel (vs : List Visit) :
    (vs.map (relabel f)).flatMap occurrences = (vs.flatMap occurrences).map (Occurrence.relabel f) := by
  simp only [List.flatMap_map, List.map_flatMap, occurrences_relabel]

/-- Relabelling a program relabels all its identifiers. -/
theorem Program.occurrences_relabel (p : Program) :
    (p.relabel f).occurrences = p.occurrences.map (Occurrence.relabel f) := by
  rw [occurrences, Program.visits_relabel, Visit.flatMap_occurrences_relabel, ← occurrences]

end

section
variable {f g : Relabel}

/-! Trees of one shape have equally many identifiers. -/

theorem TypeRef.length_occurrences {type type' : TypeRef} (h : type.relabel f = type'.relabel g) :
    type.occurrences.length = type'.occurrences.length := by
  have hlength := congrArg (fun type => (occurrences type).length) h
  simpa only [TypeRef.occurrences_relabel, List.length_map] using hlength

theorem Binding.length_occurrences {b b' : Binding} (h : b.relabel f = b'.relabel g) :
    b.occurrences.length = b'.occurrences.length := by
  have hlength := congrArg (fun b => (occurrences b).length) h
  simpa only [Binding.occurrences_relabel, List.length_map] using hlength

theorem Visit.length_occurrences {v w : Visit} (h : v.relabel f = w.relabel g) :
    v.occurrences.length = w.occurrences.length := by
  have hlength := congrArg (fun v => (occurrences v).length) h
  simpa only [Visit.occurrences_relabel, List.length_map] using hlength

end

/-! ## Visits are determined by the identifiers met on them -/

/-- Elements are determined by their parts together, if each is determined by its own parts and its shape tells
how many these are. -/
theorem eq_of_flatMap {α β γ : Type} {shape : α → γ} {parts : α → List β}
    (hlength : ∀ {x y}, shape x = shape y → (parts x).length = (parts y).length)
    (hparts : ∀ {x y}, shape x = shape y → parts x = parts y → x = y) {xs ys : List α}
    (h : xs.map shape = ys.map shape) (he : xs.flatMap parts = ys.flatMap parts) : xs = ys := by
  induction xs generalizing ys with
  | nil =>
    rw [List.map_nil, eq_comm, List.map_eq_nil_iff] at h
    exact h.symm
  | cons x xs ih =>
    obtain ⟨y, ys, rfl, hxy, hmore⟩ := List.map_eq_cons_iff.1 h.symm
    rw [List.flatMap_cons, List.flatMap_cons] at he
    obtain ⟨hfirst, hrest⟩ := List.append_inj he (hlength hxy.symm)
    rw [hparts hxy.symm hfirst, ih hmore.symm hrest]

theorem TypeRef.eq_of_occurrences {type type' : TypeRef} (h : type.relabel .bare = type'.relabel .bare)
    (ho : type.occurrences = type'.occurrences) : type = type' := by
  obtain ⟨kind, span⟩ := type
  obtain ⟨kind', span'⟩ := type'
  obtain ⟨hkind, hspan⟩ := TypeRef.mk.inj h
  obtain rfl : span = span' := hspan
  cases kind <;> cases kind' <;> first | rfl | cases hkind | (cases ho; rfl)

theorem Binding.eq_of_occurrences {b b' : Binding} (h : b.relabel .bare = b'.relabel .bare)
    (ho : b.occurrences = b'.occurrences) : b = b' := by
  obtain ⟨type, name, span⟩ := b
  obtain ⟨type', name', span'⟩ := b'
  obtain ⟨htype, -, hspan⟩ := Binding.mk.inj h
  obtain rfl : span = span' := hspan
  obtain ⟨ho, hname⟩ := List.append_inj' ho rfl
  obtain rfl := TypeRef.eq_of_occurrences htype ho
  cases hname
  rfl

theorem Location.eq_of_links {l l' : Location} (h : l.links = l'.links) : l = l' := by
  induction l generalizing l' with
  | name ident =>
    cases l' with
    | name => cases h; rfl
    | field base =>
      have hlength := congrArg List.length h
      cases base <;> simp [links] at hlength
  | field base ident resolved ih =>
    cases l' with
    | name =>
      have hlength := congrArg List.length h
      cases base <;> simp [links] at hlength
    | field base' ident' resolved' =>
      obtain ⟨hbase, hfield⟩ := List.append_inj' h rfl
      obtain rfl := ih hbase
      cases hfield
      rfl

theorem Item.eq_of_occurrences {i j : Item} (h : i.relabel .bare = j.relabel .bare)
    (ho : i.occurrences = j.occurrences) : i = j := by
  cases i with
  | result type =>
    cases j with
    | result type' => rw [TypeRef.eq_of_occurrences (Item.result.inj h) ho]
    | _ => cases h
  | function name params result =>
    cases j with
    | function name' params' result' =>
      obtain ⟨-, hparams, hresult⟩ := Item.function.inj h
      have hid : TypeName.relabel .bare = id := funext TypeName.relabel_bare
      rw [hid, List.map_id, List.map_id] at hparams
      rw [hid, id, id] at hresult
      cases ho
      rw [hparams, hresult]
    | _ => cases h
  | binding b =>
    cases j with
    | binding b' => rw [Binding.eq_of_occurrences (Item.binding.inj h) ho]
    | _ => cases h
  | struct s =>
    cases j with
    | struct s' =>
      obtain ⟨name, fields, span⟩ := s
      obtain ⟨name', fields', span'⟩ := s'
      obtain ⟨-, hfields, hspan⟩ := StructDecl.mk.inj (Item.struct.inj h)
      obtain rfl : span = span' := hspan
      obtain ⟨hname, ho⟩ := List.cons.inj ho
      cases hname
      obtain rfl : fields = fields' := eq_of_flatMap Binding.length_occurrences Binding.eq_of_occurrences hfields ho
      rfl
    | _ => cases h
  | place l =>
    cases j with
    | place l' =>
      have hl := Item.place.inj h
      cases l with
      | name =>
        cases l' with
        | name => cases ho; rfl
        | field => cases hl
      | field =>
        cases l' with
        | name => cases hl
        | field => rw [Location.eq_of_links ho]
    | _ => cases h
  | callee ident =>
    cases j with
    | callee ident' => cases ho; rfl
    | _ => cases h

/-- Visits of one shape, with the same identifiers, are the same. -/
theorem Visit.eq_of_occurrences {vs ws : List Visit} (h : vs.map (relabel .bare) = ws.map (relabel .bare))
    (ho : vs.flatMap occurrences = ws.flatMap occurrences) : vs = ws := by
  refine eq_of_flatMap Visit.length_occurrences (fun {v w} hv hvo => ?_) h ho
  cases v with
  | enter | leave => cases w <;> first | rfl | cases hv
  | item i =>
    cases w with
    | enter | leave => cases hv
    | item j => rw [Item.eq_of_occurrences (Visit.item.inj hv) hvo]

/-! ## Trees are determined by their visits -/

theorem Visit.items_injective {is js : List Item} (h : Visit.items is = Visit.items js) : is = js :=
  (List.map_inj_right fun _ _ => Visit.item.inj).1 h

theorem Visit.bindings_injective {bs cs : List Binding} (h : Visit.bindings bs = Visit.bindings cs) : bs = cs :=
  (List.map_inj_right fun _ _ e => Item.binding.inj (Visit.item.inj e)).1 h

theorem Visit.scoped_injective {vs ws : List Visit} (h : Visit.scoped vs = Visit.scoped ws) : vs = ws :=
  (List.append_inj' (List.cons.inj h).2 rfl).1

theorem Expr.length_items {e e' : Expr} (h : e.relabel .bare = e'.relabel .bare) :
    e.items.length = e'.items.length := by
  have hlength := congrArg (fun e => (items e).length) h
  simpa only [Expr.items_relabel, List.length_map] using hlength

mutual

theorem Expr.eq_of_items : ∀ {e e' : Expr}, e.relabel .bare = e'.relabel .bare → e.items = e'.items → e = e'
  | .literal value span, e', h, _ => by
    cases e' with
    | literal => cases h; rfl
    | _ => cases h
  | .place l span, e', h, hi => by
    cases e' with
    | place =>
      obtain ⟨-, rfl⟩ := Expr.place.inj h
      cases hi
      rfl
    | _ => cases h
  | .assign target value span, e', h, hi => by
    cases e' with
    | assign =>
      obtain ⟨ht, hv, rfl⟩ := Expr.assign.inj h
      obtain ⟨hti, hvi⟩ := List.append_inj hi (Expr.length_items ht)
      rw [Expr.eq_of_items ht hti, Expr.eq_of_items hv hvi]
      rfl
    | _ => cases h
  | .call callee args span, e', h, hi => by
    cases e' with
    | call =>
      obtain ⟨-, ha, rfl⟩ := Expr.call.inj h
      obtain ⟨hc, hai⟩ := List.cons.inj hi
      cases hc
      rw [Expr.eq_of_listItems ha hai]
      rfl
    | _ => cases h
  | .unary op operand span, e', h, hi => by
    cases e' with
    | unary =>
      obtain ⟨rfl, ho, rfl⟩ := Expr.unary.inj h
      rw [Expr.eq_of_items ho hi]
      rfl
    | _ => cases h
  | .binary op left right span, e', h, hi => by
    cases e' with
    | binary =>
      obtain ⟨rfl, hl, hr, rfl⟩ := Expr.binary.inj h
      obtain ⟨hli, hri⟩ := List.append_inj hi (Expr.length_items hl)
      rw [Expr.eq_of_items hl hli, Expr.eq_of_items hr hri]
      rfl
    | _ => cases h

theorem Expr.eq_of_listItems : ∀ {es es' : List Expr}, relabelAll .bare es = relabelAll .bare es' →
    listItems es = listItems es' → es = es'
  | [], es', h, _ => by
    cases es' with
    | nil => rfl
    | cons => cases h
  | first :: more, es', h, hi => by
    cases es' with
    | nil => cases h
    | cons first' more' =>
      obtain ⟨hf, hm⟩ := List.cons.inj h
      obtain ⟨hfi, hmi⟩ := List.append_inj hi (Expr.length_items hf)
      rw [Expr.eq_of_items hf hfi, Expr.eq_of_listItems hm hmi]

end

/-- An expression and the visits behind it. -/
theorem Expr.eq_of_visits {e e' : Expr} {vs ws : List Visit} (h : e.relabel .bare = e'.relabel .bare)
    (hv : Visit.items e.items ++ vs = Visit.items e'.items ++ ws) : e = e' ∧ vs = ws := by
  obtain ⟨he, hrest⟩ := List.append_inj hv (by simp only [Visit.items, List.length_map, Expr.length_items h])
  exact ⟨Expr.eq_of_items h (Visit.items_injective he), hrest⟩

/-- A block in a scope of its own and the visits behind it. -/
theorem Block.eq_scoped {b b' : Block} {vs ws : List Visit} (h : b.relabel .bare = b'.relabel .bare)
    (hv : Visit.scoped b.visits ++ vs = Visit.scoped b'.visits ++ ws) : b.visits = b'.visits ∧ vs = ws := by
  have hlength := congrArg (fun b => (visits b).length) h
  simp only [Block.visits_relabel, List.length_map] at hlength
  obtain ⟨hb, hrest⟩ := List.append_inj hv (by simp [Visit.scoped, hlength])
  exact ⟨Visit.scoped_injective hb, hrest⟩

theorem Stmt.relabel_ret (f : Relabel) (value : Option Expr) (span : Span) :
    (Stmt.ret value span).relabel f = .ret (value.map (Expr.relabel f)) (f.span span) := by
  cases value <;> rfl

mutual

theorem Block.eq_of_visits : ∀ {b b' : Block}, b.relabel .bare = b'.relabel .bare → b.visits = b'.visits → b = b'
  | .mk locals body span, .mk locals' body' span', h, hv => by
    obtain ⟨hl, hb, rfl⟩ := Block.mk.inj h
    have hlength := congrArg List.length hl
    simp only [List.length_map] at hlength
    obtain ⟨hlv, hbv⟩ := List.append_inj hv (by simp only [Visit.bindings, List.length_map, hlength])
    rw [Visit.bindings_injective hlv, Stmt.eq_of_listVisits hb hbv]
    rfl

theorem Stmt.eq_of_visits : ∀ {s s' : Stmt}, s.relabel .bare = s'.relabel .bare → s.visits = s'.visits → s = s'
  | .assign target value span, s', h, hv => by
    -- of all statements only another assignment has the shape of one, and so below
    cases s' <;> simp only [↓Stmt.relabel_ret, Stmt.relabel, reduceCtorEq, Stmt.assign.injEq] at h
    obtain ⟨ht, hva, rfl⟩ := h
    obtain ⟨hti, hvi⟩ := List.append_inj (Visit.items_injective hv) (Expr.length_items ht)
    rw [Expr.eq_of_items ht hti, Expr.eq_of_items hva hvi]
    rfl
  | .increment target span, s', h, hv | .decrement target span, s', h, hv | .read target span, s', h, hv
  | .write target span, s', h, hv => by
    cases s' <;> simp only [↓Stmt.relabel_ret, Stmt.relabel, reduceCtorEq, Stmt.increment.injEq,
      Stmt.decrement.injEq, Stmt.read.injEq, Stmt.write.injEq] at h
    obtain ⟨ht, rfl⟩ := h
    rw [Expr.eq_of_items ht (Visit.items_injective hv)]
    rfl
  | .ifThen cond body span, s', h, hv | .whileLoop cond body span, s', h, hv
  | .repeatLoop cond body span, s', h, hv => by
    cases s' <;> simp only [↓Stmt.relabel_ret, Stmt.relabel, reduceCtorEq, Stmt.ifThen.injEq,
      Stmt.whileLoop.injEq, Stmt.repeatLoop.injEq] at h
    obtain ⟨hc, hb, rfl⟩ := h
    obtain ⟨rfl, hbv⟩ := Expr.eq_of_visits hc hv
    rw [Block.eq_of_visits hb (Visit.scoped_injective hbv)]
    rfl
  | .ifElse cond yes no span, s', h, hv => by
    cases s' <;> simp only [↓Stmt.relabel_ret, Stmt.relabel, reduceCtorEq, Stmt.ifElse.injEq] at h
    obtain ⟨hc, hy, hn, rfl⟩ := h
    obtain ⟨rfl, hbv⟩ := Expr.eq_of_visits hc hv
    obtain ⟨hyv, hnv⟩ := Block.eq_scoped hy hbv
    rw [Block.eq_of_visits hy hyv, Block.eq_of_visits hn (Visit.scoped_injective hnv)]
    rfl
  | .call callee args span, s', h, hv => by
    cases s' <;> simp only [↓Stmt.relabel_ret, Stmt.relabel, reduceCtorEq, Stmt.call.injEq] at h
    obtain ⟨-, ha, rfl⟩ := h
    obtain ⟨hc, hai⟩ := List.cons.inj (Visit.items_injective hv)
    cases hc
    rw [Expr.eq_of_listItems ha hai]
    rfl
  | .ret none span, s', h, _ => by
    cases s' with
    | ret value => cases value <;> cases h; rfl
    | _ => cases h
  | .ret (some value) span, s', h, hv => by
    cases s' with
    | ret value' =>
      cases value' with
      | none => cases h
      | some =>
        obtain ⟨he, rfl⟩ := Stmt.ret.inj h
        rw [Expr.eq_of_items (Option.some.inj he) (Visit.items_injective hv)]
        rfl
    | _ => cases h

theorem Stmt.eq_of_listVisits : ∀ {ss ss' : List Stmt}, Stmt.relabelAll .bare ss = Stmt.relabelAll .bare ss' →
    Stmt.listVisits ss = Stmt.listVisits ss' → ss = ss'
  | [], ss', h, _ => by
    cases ss' with
    | nil => rfl
    | cons => cases h
  | first :: more, ss', h, hv => by
    cases ss' with
    | nil => cases h
    | cons first' more' =>
      obtain ⟨hf, hm⟩ := List.cons.inj h
      have hlength := congrArg (fun s => (Stmt.visits s).length) hf
      simp only [Stmt.visits_relabel, List.length_map] at hlength
      obtain ⟨hfv, hmv⟩ := List.append_inj hv hlength
      rw [Stmt.eq_of_visits hf hfv, Stmt.eq_of_listVisits hm hmv]

end

theorem FunctionDecl.eq_of_visits {d d' : FunctionDecl} (h : d.relabel .bare = d'.relabel .bare)
    (hv : (Decl.function d).visits = (Decl.function d').visits) : d = d' := by
  obtain ⟨result, name, formals, body, span⟩ := d
  obtain ⟨result', name', formals', body', span'⟩ := d'
  obtain ⟨-, -, hf, hb, hspan⟩ := FunctionDecl.mk.inj h
  obtain rfl : span = span' := hspan
  obtain ⟨hhead, hv⟩ := List.append_inj hv rfl
  obtain ⟨hresult, hname⟩ := List.cons.inj hhead
  obtain rfl : result = result' := Item.result.inj (Visit.item.inj hresult)
  obtain ⟨rfl, -⟩ := Item.function.inj (Visit.item.inj (List.cons.inj hname).1)
  have hlength := congrArg List.length hf
  simp only [List.length_map] at hlength
  obtain ⟨hfv, hbv⟩ := List.append_inj (Visit.scoped_injective hv)
    (by simp only [Visit.bindings, List.length_map, hlength])
  obtain rfl : formals = formals' := Visit.bindings_injective hfv
  obtain rfl : body = body' := Block.eq_of_visits hb hbv
  rfl

/-- Declarations of one shape, on the same visits, are the same. -/
theorem Decl.eq_of_visits {ds es : List Decl} (h : ds.map (relabel .bare) = es.map (relabel .bare))
    (hv : ds.flatMap visits = es.flatMap visits) : ds = es := by
  refine eq_of_flatMap (fun {d e} hd => ?_) (fun {d e} hd hv => ?_) h hv
  · have hlength := congrArg (fun d => (visits d).length) hd
    simpa only [Decl.visits_relabel, List.length_map] using hlength
  · cases d with
    | «variable» b =>
      cases e with
      | «variable» b' => cases hv; rfl
      | _ => cases hd
    | function d =>
      cases e with
      | function d' => rw [FunctionDecl.eq_of_visits (Decl.function.inj hd) hv]
      | _ => cases hd
    | struct s =>
      cases e with
      | struct s' => cases hv; rfl
      | _ => cases hd

/-- Declarations of one shape, with the same identifiers, are the same. -/
theorem Decl.eq_of_occurrences {ds es : List Decl} (h : ds.map (relabel .bare) = es.map (relabel .bare))
    (ho : (ds.flatMap visits).flatMap Visit.occurrences = (es.flatMap visits).flatMap Visit.occurrences) :
    ds = es := by
  refine Decl.eq_of_visits h (Visit.eq_of_occurrences ?_ ho)
  have hv := congrArg (List.flatMap visits) h
  simpa only [List.flatMap_map, Decl.visits_relabel, List.map_flatMap] using hv

/-- Programs of one shape, with the same identifiers, are the same. -/
theorem Program.eq_of_occurrences {p q : Program} (h : p.bare = q.bare) (ho : p.occurrences = q.occurrences) :
    p = q := by
  obtain ⟨ds⟩ := p
  obtain ⟨es⟩ := q
  obtain rfl := Decl.eq_of_occurrences (Program.mk.inj h) ho
  rfl

end Namescope
