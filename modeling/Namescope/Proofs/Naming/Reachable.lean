import Namescope.Proofs.Naming.Determined
import Namescope.Proofs.Naming.WellScoped
/-!
# The states of a walk

Which states the resolver gets to, and what holds in all of them: structs stand in the global scope, each
under its name, and a variable, formal or field of a struct type finds that struct there.
-/
namespace Namescope

/-! ## States -/

namespace Resolve

/-- The states between declarations, of one program or of programs one after the other. -/
inductive BetweenDecls : Resolver → Prop
  | start : BetweenDecls {}
  | decl {d d' r r'} : BetweenDecls r → (decl d).run r = .ok (d', r') → BetweenDecls r'

/-- The states that the resolver gets to: between declarations, among the visits of a function, which it comes
to the same as (`yields_decl_visits`), among the fields of a struct, and between the fields and the struct. -/
inductive Reachable : Resolver → Prop
  | between {r} : BetweenDecls r → Reachable r
  | inFunction {f vs ws vs' r r'} : BetweenDecls r → (Decl.function f).visits = vs ++ ws →
      (visits vs).run r = .ok (vs', r') → Reachable r'
  | amongFields {s : StructDecl} {bs cs bs' r r'} : BetweenDecls r → (clashes s.name.name).run r = .ok (false, r) →
      s.fields = bs ++ cs → (do enter; bindings bs).run r = .ok (bs', r') → Reachable r'
  | afterFields {s : StructDecl} {result r r'} : BetweenDecls r → (clashes s.name.name).run r = .ok (false, r) →
      (inScope (bindings s.fields)).run r = .ok (result, r') → Reachable r'

theorem eq_of_run_expectDepth {depth : Nat} {a : Unit} {r r' : Resolver}
    (h : (expectDepth depth).run r = .ok (a, r')) : r' = r := by
  obtain ⟨found, r₁, hfound, h⟩ := exists_of_run_bind h
  cases hfound
  split at h <;> cases h
  rfl

theorem BetweenDecls.decls {depth : Nat} {ds ds' : List Decl} {r r' : Resolver} (hr : BetweenDecls r)
    (h : (decls depth ds).run r = .ok (ds', r')) : BetweenDecls r' := by
  induction ds generalizing r ds' with
  | nil =>
    cases h
    exact hr
  | cons d ds ih =>
    obtain ⟨d', r₁, hd, h⟩ := exists_of_run_bind h
    obtain ⟨_, r₂, hdepth, h⟩ := exists_of_run_bind h
    obtain ⟨more', r₃, hmore, h⟩ := exists_of_run_bind h
    cases h
    obtain rfl := eq_of_run_expectDepth hdepth
    exact ih (hr.decl hd) hmore

/-- A state between declarations is there after any number of programs. -/
theorem BetweenDecls.program {p p' : Program} {r r' : Resolver} (hr : BetweenDecls r)
    (h : (program p).run r = .ok (p', r')) : BetweenDecls r' := by
  obtain ⟨depth, r₁, hdepth, h⟩ := exists_of_run_bind h
  cases hdepth
  obtain ⟨ds', r₂, hdecls, h⟩ := exists_of_run_bind h
  cases h
  exact hr.decls hdecls

end Resolve

/-! ## Structs stand in the global scope -/

/-- The outermost scope. -/
def ScopeStack.global (S : ScopeStack) : Scope := S.scopes.getLast (List.cons_ne_nil _ _)

/-- Every struct is found in the global scope under its name, and so is the struct type of every variable,
formal and field. -/
structure ScopeStack.Settled (S : ScopeStack) : Prop where
  named : ∀ id s, S.table.get? id = some s → s.nameClass = .struct → S.global.find? .struct s.name = some id
  typed : ∀ id s name, S.table.get? id = some s → s.type? = some (.struct name) →
    ∃ owner, S.global.find? .struct name = some owner

theorem SymbolTable.get?_push_cases {table : SymbolTable} {symbol s : Symbol} {id : SymbolId}
    (h : (table.push symbol).get? id = some s) : table.get? id = some s ∨ (id = table.nextId ∧ s = symbol) := by
  simp only [get?, push, List.getElem?_append] at h
  split at h
  · exact .inl h
  · rename_i hid
    obtain ⟨hlt, hs⟩ := List.getElem?_eq_some_iff.1 h
    rw [List.length_singleton] at hlt
    refine .inr ⟨?_, ?_⟩
    · obtain ⟨index⟩ := id
      simp only [nextId, size, SymbolId.mk.injEq]
      dsimp only at hlt hid
      omega
    · simpa using hs.symm

theorem Symbol.type?_of_nameClass {s : Symbol} (h : s.nameClass = .struct) : s.type? = none := by
  obtain ⟨name, kind, span⟩ := s
  cases kind <;> first | rfl | cases h

namespace ScopeStack
variable {S : ScopeStack}

theorem settled_empty : ({} : ScopeStack).Settled where
  named id s hs := by simp [SymbolTable.get?] at hs
  typed id s name hs := by simp [SymbolTable.get?] at hs

/-- No scope hides a struct. -/
theorem Settled.find?_eq (h : S.Settled) (hS : S.Sound) (name : String) :
    S.find? .struct name = S.global.find? .struct name := by
  cases hfind : S.find? .struct name with
  | none =>
    have hall := List.findSome?_eq_none_iff.1 hfind
    exact (hall S.global (List.getLast_mem _)).symm
  | some id =>
    obtain ⟨s, hs, rfl, hc⟩ := hS.find? hfind
    exact (h.named id s hs hc).symm

theorem Settled.enter (h : S.Settled) : S.enter.Settled := ⟨h.named, h.typed⟩

theorem Settled.leave {table : SymbolTable} {innermost next : Scope} {outer : List Scope}
    (h : (ScopeStack.mk table innermost (next :: outer)).Settled) : (ScopeStack.mk table next outer).Settled :=
  ⟨h.named, h.typed⟩

theorem global_add {symbol : Symbol} (hc : symbol.nameClass = .plain) (name : String) :
    (S.add symbol).global.find? .struct name = S.global.find? .struct name := by
  obtain ⟨table, innermost, outer⟩ := S
  cases outer with
  | nil =>
    have hne : ¬(NameClass.struct = symbol.nameClass ∧ name = symbol.name) := by simp [hc]
    exact (Scope.find?_bind ..).trans (if_neg hne)
  | cons => rfl

/-- Declaring a variable, formal, field or function. -/
theorem Settled.add (h : S.Settled) {symbol : Symbol} (hc : symbol.nameClass = .plain)
    (htype : ∀ name, symbol.type? = some (.struct name) → ∃ owner, S.global.find? .struct name = some owner) :
    (S.add symbol).Settled where
  named id s hs hstruct := by
    rw [global_add hc]
    rcases SymbolTable.get?_push_cases hs with hs | ⟨rfl, rfl⟩
    · exact h.named id s hs hstruct
    · rw [hc] at hstruct
      cases hstruct
  typed id s name hs ht := by
    rw [global_add hc]
    rcases SymbolTable.get?_push_cases hs with hs | ⟨rfl, rfl⟩
    · exact h.typed id s name hs ht
    · exact htype name ht

theorem global_addStruct {symbol : Symbol} (hc : symbol.nameClass = .struct) (hglobal : S.outer = []) (name : String) :
    (S.add symbol).global.find? .struct name =
      if name = symbol.name then some S.table.nextId else S.global.find? .struct name := by
  obtain ⟨table, innermost, outer⟩ := S
  cases hglobal
  refine (Scope.find?_bind ..).trans ?_
  simp only [hc, true_and]
  rfl

/-- Declaring a struct in the global scope under a new name. -/
theorem Settled.addStruct (h : S.Settled) {symbol : Symbol} (hc : symbol.nameClass = .struct)
    (hglobal : S.outer = []) (hnew : S.global.find? .struct symbol.name = none) : (S.add symbol).Settled := by
  refine ⟨fun id s hs hstruct => ?_, fun id s name hs ht => ?_⟩
  · rw [global_addStruct hc hglobal]
    rcases SymbolTable.get?_push_cases hs with hs | ⟨rfl, rfl⟩
    · have hold := h.named id s hs hstruct
      -- an older struct of that name would be found
      have hne : s.name ≠ symbol.name := fun e => by
        rw [e, hnew] at hold
        cases hold
      rw [if_neg hne, hold]
    · rw [if_pos rfl]
  · rw [global_addStruct hc hglobal]
    rcases SymbolTable.get?_push_cases hs with hs | ⟨rfl, rfl⟩
    · obtain ⟨owner, howner⟩ := h.typed id s name hs ht
      split
      · exact ⟨_, rfl⟩
      · exact ⟨owner, howner⟩
    · rw [Symbol.type?_of_nameClass hc] at ht
      cases ht

/-- The innermost scope is the global one if no other is open. -/
theorem global_find? (hglobal : S.outer = []) (cls : NameClass) (name : String) :
    S.global.find? cls name = S.findLocal? cls name := by
  obtain ⟨table, innermost, outer⟩ := S
  cases hglobal
  rfl

/-- The struct of a type that is known is found. -/
theorem find?_of_type? {type known : TypeRef} {name : String} (h : S.type? type = some known)
    (hname : TypeName.ofRef type = .struct name) : ∃ owner, S.find? .struct name = some owner := by
  obtain ⟨kind, span⟩ := type
  cases kind with
  | struct ident =>
    obtain rfl := TypeName.struct.inj hname
    obtain ⟨owner, howner, -⟩ := Option.map_eq_some_iff.1 h
    exact ⟨owner, howner⟩
  | int | bool | void => cases hname

end ScopeStack

/-! ## Steps keep structs there -/

section
variable {S S' : ScopeStack} {fs : List (Finding NameIssue)}

theorem BindingStep.settled {b b' : Binding} (h : BindingStep S b b' S' fs) (hS : S.Sound) (hset : S.Settled) :
    S'.Settled := by
  cases h with
  | void | unknownType | barred | taken => exact hset
  | declared _ htype =>
    refine hset.add rfl fun name hname => ?_
    obtain ⟨owner, howner⟩ := S.find?_of_type? htype (Option.some.inj hname)
    exact ⟨owner, (hset.find?_eq hS name).symm.trans howner⟩

theorem BindingSteps.settled {bs bs' : List Binding} (h : BindingSteps S bs bs' S' fs) (hS : S.Sound)
    (hset : S.Settled) : S'.Settled :=
  (Thread.preserves (P := fun T => T.Sound ∧ T.Settled) (fun hb hT => ⟨hb.sound hT.1, hb.settled hT.1 hT.2⟩) h
    ⟨hS, hset⟩).2

/-- Fields are declared in a scope that is left again. -/
theorem BindingSteps.settled_left {bs bs' : List Binding} (h : BindingSteps S.enter bs bs' S' fs) (hS : S.Sound)
    (hset : S.Settled) : ({ S with table := S'.table } : ScopeStack).Settled := by
  have hinner := h.settled hS.enter hset.enter
  obtain ⟨table, innermost, outer⟩ := S'
  obtain rfl : outer = S.innermost :: S.outer := h.outer
  exact hinner.leave

/-- An item that is no struct. -/
def Item.isStruct : Item → Bool
  | .struct _ => true
  | _ => false

/-- A visit to a struct. -/
def Visit.isStruct : Visit → Bool
  | .item i => i.isStruct
  | _ => false

theorem ItemStep.settled {i i' : Item} (h : ItemStep S i i' S' fs) (hS : S.Sound) (hset : S.Settled)
    (hglobal : i.isStruct = true → S.outer = []) : S'.Settled := by
  cases h with
  | function => exact hset.add rfl nofun
  | binding hb => exact hb.settled hS hset
  | struct hnew hfields =>
    refine (hfields.settled_left hS hset).addStruct rfl (hglobal rfl) ?_
    exact (ScopeStack.global_find? (hglobal rfl) _ _).trans (S.findLocal?_eq_none hnew .struct)
  | _ => exact hset

/-- A single item, which may be a struct if only the global scope is open. -/
theorem VisitSteps.settled_item {i : Item} {vs' : List Visit} (h : VisitSteps S [.item i] vs' S' fs) (hS : S.Sound)
    (hset : S.Settled) (hglobal : S.outer = []) : S'.Settled := by
  cases h with
  | cons hv hnil =>
    cases hnil
    cases hv with
    | item hi => exact hi.settled hS hset fun _ => hglobal

theorem VisitSteps.settled {vs vs' : List Visit} (h : VisitSteps S vs vs' S' fs) (hS : S.Sound) (hset : S.Settled)
    (hno : ∀ v ∈ vs, v.isStruct = false) : S'.Settled := by
  induction h with
  | nil => exact hset
  | cons hv _ ih =>
    obtain ⟨hfirst, hmore⟩ := List.forall_mem_cons.1 hno
    refine ih (hv.sound hS) ?_ hmore
    cases hv with
    | enter => exact hset.enter
    | leave => exact hset.leave
    | item hi => exact hi.settled hS hset fun h => absurd h (Bool.eq_false_iff.1 hfirst)

end

/-! ### What a body may hold -/

/-- An item that may stand in a body: neither a struct nor the name of a function. -/
def Item.isLocal : Item → Bool
  | .struct _ | .function _ _ _ => false
  | _ => true

/-- A visit that may be made in a body. -/
def Visit.isLocal : Visit → Bool
  | .item i => i.isLocal
  | _ => true

theorem Visit.isStruct_of_isLocal {v : Visit} (h : v.isLocal = true) : v.isStruct = false := by
  cases v with
  | enter | leave => rfl
  | item i => cases i <;> first | rfl | cases h

theorem Visit.isLocal_items {is : List Item} (h : ∀ i ∈ is, i.declarations = []) :
    ∀ v ∈ Visit.items is, v.isLocal = true := by
  intro v hv
  obtain ⟨i, hi, rfl⟩ := List.mem_map.1 hv
  cases i with
  | struct s => cases h _ hi
  | function => cases h _ hi
  | _ => rfl

theorem Visit.isLocal_bindings (bs : List Binding) : ∀ v ∈ Visit.bindings bs, v.isLocal = true := by
  intro v hv
  obtain ⟨b, -, rfl⟩ := List.mem_map.1 hv
  rfl

theorem Visit.isLocal_scoped {vs : List Visit} (h : ∀ v ∈ vs, v.isLocal = true) :
    ∀ v ∈ Visit.scoped vs, v.isLocal = true := by
  simp only [Visit.scoped, List.cons_append, List.forall_mem_cons, List.forall_mem_append]
  exact ⟨rfl, h, rfl, List.forall_mem_nil _⟩

theorem Expr.isLocal_visits (e : Expr) : ∀ v ∈ Visit.items e.items, v.isLocal = true :=
  Visit.isLocal_items e.declarations_items

mutual

theorem Block.isLocal_visits : ∀ (b : Block), ∀ v ∈ b.visits, v.isLocal = true
  | .mk locals body _ =>
    List.forall_mem_append.2 ⟨Visit.isLocal_bindings locals, Stmt.isLocal_listVisits body⟩

theorem Stmt.isLocal_visits : ∀ (s : Stmt), ∀ v ∈ s.visits, v.isLocal = true
  | .assign target value _ => by
    rw [Stmt.visits, Visit.items_append]
    exact List.forall_mem_append.2 ⟨target.isLocal_visits, value.isLocal_visits⟩
  | .increment target _ | .decrement target _ | .read target _ | .write target _ => target.isLocal_visits
  | .ifThen cond body _ | .whileLoop cond body _ | .repeatLoop cond body _ =>
    List.forall_mem_append.2 ⟨cond.isLocal_visits, Visit.isLocal_scoped (Block.isLocal_visits body)⟩
  | .ifElse cond yes no _ =>
    List.forall_mem_append.2 ⟨cond.isLocal_visits, List.forall_mem_append.2
      ⟨Visit.isLocal_scoped (Block.isLocal_visits yes), Visit.isLocal_scoped (Block.isLocal_visits no)⟩⟩
  | .call callee args _ =>
    List.forall_mem_cons.2 ⟨rfl, Visit.isLocal_items (Expr.declarations_listItems args)⟩
  | .ret none _ => nofun
  | .ret (some value) _ => value.isLocal_visits

theorem Stmt.isLocal_listVisits : ∀ (ss : List Stmt), ∀ v ∈ Stmt.listVisits ss, v.isLocal = true
  | [] => nofun
  | first :: more => List.forall_mem_append.2 ⟨Stmt.isLocal_visits first, Stmt.isLocal_listVisits more⟩

end

/-- Formals and body of a function. -/
theorem FunctionDecl.isLocal_inner (f : FunctionDecl) :
    ∀ v ∈ Visit.scoped (Visit.bindings f.formals ++ f.body.visits), v.isLocal = true :=
  Visit.isLocal_scoped (List.forall_mem_append.2 ⟨Visit.isLocal_bindings f.formals, f.body.isLocal_visits⟩)

/-- There is no struct inside a function. -/
theorem FunctionDecl.isStruct_visits (f : FunctionDecl) : ∀ v ∈ (Decl.function f).visits, v.isStruct = false :=
  List.forall_mem_append.2 ⟨List.forall_mem_cons.2 ⟨rfl, List.forall_mem_cons.2 ⟨rfl, nofun⟩⟩,
    fun v hv => Visit.isStruct_of_isLocal (f.isLocal_inner v hv)⟩

/-! ## All states -/

namespace Resolve

/-- Between declarations only the global scope is open. -/
theorem BetweenDecls.settled {r : Resolver} (h : BetweenDecls r) :
    r.scopes.Sound ∧ r.scopes.Settled ∧ r.scopes.outer = [] := by
  induction h with
  | start => exact ⟨ScopeStack.sound_empty, ScopeStack.settled_empty, rfl⟩
  | @decl d _ r _ _ hrun ih =>
    obtain ⟨hS, hset, hglobal⟩ := ih
    obtain ⟨d', S', vs', fs, hy, hsteps, hout, -⟩ := follows_decl d r.scopes hS
    obtain ⟨-, rfl⟩ := hy.of_run_ok hrun
    refine ⟨hsteps.sound hS, ?_, hout.trans hglobal⟩
    rcases d with b | f | s
    · exact hsteps.settled_item hS hset hglobal
    · exact hsteps.settled hS hset f.isStruct_visits
    · exact hsteps.settled_item hS hset hglobal

/-- Wherever the resolver gets, every name leads to its symbol and every struct stands in the global scope. -/
theorem Reachable.settled {r : Resolver} (h : Reachable r) : r.scopes.Sound ∧ r.scopes.Settled := by
  cases h with
  | between hr => exact ⟨hr.settled.1, hr.settled.2.1⟩
  | @inFunction f vs ws _ _ _ hr hvisits hrun =>
    obtain ⟨hS, hset, -⟩ := hr.settled
    obtain ⟨fs, hsteps⟩ := steps_of_visits hS hrun
    have hno := f.isStruct_visits
    rw [hvisits, List.forall_mem_append] at hno
    exact ⟨hsteps.sound hS, hsteps.settled hS hset hno.1⟩
  | @amongFields s bs cs _ _ _ hr _ _ hrun =>
    obtain ⟨hS, hset, -⟩ := hr.settled
    obtain ⟨bs', S', fs, hy, hfields⟩ := yields_bindings bs hS.enter
    obtain ⟨-, rfl⟩ := ((yields_enter _).andThen hy).of_run_ok hrun
    exact ⟨hfields.sound hS.enter, hfields.settled hS.enter hset.enter⟩
  | @afterFields s _ _ _ hr _ hrun =>
    obtain ⟨hS, hset, -⟩ := hr.settled
    obtain ⟨bs', S', fs, hy, hfields⟩ := yields_bindings s.fields hS.enter
    obtain ⟨-, e⟩ := (yields_inScope hy hfields.outer).of_run_ok hrun
    rw [e]
    exact ⟨hfields.sound_left hS, hfields.settled_left hS hset⟩

end Resolve

end Namescope
