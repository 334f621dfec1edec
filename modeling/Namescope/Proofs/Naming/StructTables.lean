import Mathlib.Logic.Relation
import Namescope.Proofs.Naming.FieldTables
import Namescope.Proofs.Naming.Reachable
/-!
# Structs come before what holds them

Symbols are numbered in the order of their declaration, and a struct is declared right after its fields. So the
fields of a struct are the symbols just below it, whatever holds a struct is numbered higher than that struct,
and no struct can hold itself, however many fields lie between.
-/
namespace Namescope

/-! ## Fields are numbered in a row -/

/-- Names that lead to the symbols from the `n`-th up to the `m`-th, one to each. -/
structure Consecutive (entries : List (String × SymbolId)) (n m : Nat) : Prop where
  length : m = n + entries.length
  mem : ∀ id : SymbolId, (∃ key, (key, id) ∈ entries) ↔ n ≤ id.index ∧ id.index < m

theorem Consecutive.nil (n : Nat) : Consecutive [] n n where
  length := rfl
  mem id := by
    simp only [List.not_mem_nil, exists_false, false_iff]
    omega

theorem Consecutive.cons {entries : List (String × SymbolId)} {n m : Nat} (h : Consecutive entries n m) (key : String) :
    Consecutive ((key, ⟨m⟩) :: entries) n (m + 1) where
  length := by rw [List.length_cons, h.length, Nat.add_assoc]
  mem id := by
    have hlength := h.length
    simp only [List.mem_cons, Prod.mk.injEq, exists_or, h.mem id, exists_eq_left]
    constructor
    · rintro (rfl | hid)
      · exact ⟨by dsimp only; omega, Nat.lt_succ_self m⟩
      · omega
    · intro hid
      by_cases hm : id.index = m
      · exact .inl (by rw [← hm])
      · omega

theorem Consecutive.perm {entries entries' : List (String × SymbolId)} {n m : Nat} (h : Consecutive entries n m)
    (hperm : entries'.Perm entries) : Consecutive entries' n m where
  length := by rw [hperm.length_eq, h.length]
  mem id := by
    rw [← h.mem id]
    exact exists_congr fun key => hperm.mem_iff

section
variable {S S' : ScopeStack} {fs : List (Finding NameIssue)}

theorem BindingStep.consecutive {b b' : Binding} {n : Nat} (h : BindingStep S b b' S' fs)
    (hS : Consecutive S.innermost.plain n S.table.size) : Consecutive S'.innermost.plain n S'.table.size := by
  cases h with
  | void | unknownType | barred | taken => exact hS
  | declared =>
    have hsize : (S.add b.symbol).table.size = S.table.size + 1 := List.length_append
    rw [hsize]
    exact hS.cons b.name.name

/-- The fields of a struct are the symbols that were declared in its scope. -/
theorem BindingSteps.consecutive {bs bs' : List Binding} (h : BindingSteps S.enter bs bs' S' fs) (hS : S.Sound) :
    Consecutive S'.innermost.fieldTable.entries S.table.size S'.table.size := by
  have hplain : Consecutive S'.innermost.plain S.table.size S'.table.size :=
    Thread.preserves (P := fun T => Consecutive T.innermost.plain S.table.size T.table.size)
      BindingStep.consecutive h (.nil _)
  have hdistinct := ((h.sound hS.enter).scopes _ List.mem_cons_self).distinct .plain
  exact hplain.perm (FieldTable.ofList_perm hdistinct)

end

/-! ## The invariant -/

theorem Symbol.fields?_of_plain {symbol : Symbol} (h : symbol.nameClass = .plain) : symbol.fields? = none := by
  obtain ⟨name, kind, span⟩ := symbol
  cases kind <;> first | rfl | cases h

theorem Symbol.nameClass_of_isStruct {symbol : Symbol} (h : symbol.isStruct = true) : symbol.nameClass = .struct := by
  obtain ⟨name, kind, span⟩ := symbol
  cases kind <;> first | rfl | cases h

/-- The fields of every struct are the symbols right below it. -/
def SymbolTable.Packed (table : SymbolTable) : Prop :=
  ∀ id s fields, table.get? id = some s → s.fields? = some fields →
    Consecutive fields.entries (id.index - fields.size) id.index

/-- A name means a struct in the global scope, and this is below the `n`-th symbol. -/
def ScopeStack.Names (S : ScopeStack) (name : String) (n : Nat) : Prop :=
  ∃ owner, S.global.find? .struct name = some owner ∧ owner.index < n

/-- Every struct comes after its fields, and every variable, formal and field after the struct that it holds. -/
structure ScopeStack.Ordered (S : ScopeStack) : Prop where
  packed : S.table.Packed
  typed : ∀ id s name, S.table.get? id = some s → s.type? = some (.struct name) → S.Names name id.index

/-- Every function comes after the structs that it takes and gives. -/
def ScopeStack.Signed (S : ScopeStack) : Prop :=
  ∀ id s params result name, S.table.get? id = some s → s.kind = .function params result →
    .struct name ∈ result :: params → S.Names name id.index

namespace ScopeStack
variable {S : ScopeStack} {symbol : Symbol}

/-- A struct that is found has a symbol already. -/
theorem Settled.names (hset : S.Settled) (hS : S.Sound) {name : String} {owner : SymbolId}
    (h : S.global.find? .struct name = some owner) : S.Names name S.table.size := by
  refine ⟨owner, h, ?_⟩
  rw [← hset.find?_eq hS] at h
  obtain ⟨s, hs, -, -⟩ := hS.find? h
  exact SymbolTable.lt_of_get? hs

theorem Names.add {name : String} {n : Nat} (h : S.Names name n) (hc : symbol.nameClass = .plain) :
    (S.add symbol).Names name n := by
  obtain ⟨owner, howner, hlt⟩ := h
  exact ⟨owner, (global_add hc name).trans howner, hlt⟩

/-- A new struct takes no other one's name. -/
theorem Names.addStruct {name : String} {n : Nat} (h : S.Names name n) (hc : symbol.nameClass = .struct)
    (hglobal : S.outer = []) (hnew : S.global.find? .struct symbol.name = none) : (S.add symbol).Names name n := by
  obtain ⟨owner, howner, hlt⟩ := h
  have hne : name ≠ symbol.name := fun e => by
    rw [e, hnew] at howner
    cases howner
  exact ⟨owner, by rw [global_addStruct hc hglobal, if_neg hne, howner], hlt⟩

theorem Ordered.add (h : S.Ordered) (hc : symbol.nameClass = .plain)
    (htype : ∀ name, symbol.type? = some (.struct name) → S.Names name S.table.size) : (S.add symbol).Ordered where
  packed id s fields hs hfields := by
    rcases SymbolTable.get?_push_cases hs with hs | ⟨rfl, rfl⟩
    · exact h.packed id s fields hs hfields
    · rw [Symbol.fields?_of_plain hc] at hfields
      cases hfields
  typed id s name hs ht := by
    rcases SymbolTable.get?_push_cases hs with hs | ⟨rfl, rfl⟩
    · exact (h.typed id s name hs ht).add hc
    · exact (htype name ht).add hc

theorem Ordered.addStruct (h : S.Ordered) (hc : symbol.nameClass = .struct) (hglobal : S.outer = [])
    (hnew : S.global.find? .struct symbol.name = none)
    (hfields : ∀ fields, symbol.fields? = some fields →
      Consecutive fields.entries (S.table.size - fields.size) S.table.size) : (S.add symbol).Ordered where
  packed id s fields hs hf := by
    rcases SymbolTable.get?_push_cases hs with hs | ⟨rfl, rfl⟩
    · exact h.packed id s fields hs hf
    · exact hfields fields hf
  typed id s name hs ht := by
    rcases SymbolTable.get?_push_cases hs with hs | ⟨rfl, rfl⟩
    · exact (h.typed id s name hs ht).addStruct hc hglobal hnew
    · rw [Symbol.type?_of_nameClass hc] at ht
      cases ht

theorem Signed.add (h : S.Signed) (hc : symbol.nameClass = .plain)
    (hnames : ∀ params result name, symbol.kind = .function params result → .struct name ∈ result :: params →
      S.Names name S.table.size) : (S.add symbol).Signed := by
  intro id s params result name hs hkind hname
  rcases SymbolTable.get?_push_cases hs with hs | ⟨rfl, rfl⟩
  · exact (h id s params result name hs hkind hname).add hc
  · exact (hnames params result name hkind hname).add hc

theorem Signed.addStruct (h : S.Signed) (hc : symbol.nameClass = .struct) (hglobal : S.outer = [])
    (hnew : S.global.find? .struct symbol.name = none) : (S.add symbol).Signed := by
  intro id s params result name hs hkind hname
  rcases SymbolTable.get?_push_cases hs with hs | ⟨rfl, rfl⟩
  · exact (h id s params result name hs hkind hname).addStruct hc hglobal hnew
  · rw [Symbol.nameClass, hkind] at hc
    cases hc

end ScopeStack

/-! ## Steps keep the order -/

section
variable {S S' : ScopeStack} {fs : List (Finding NameIssue)}

theorem BindingStep.ordered {b b' : Binding} (h : BindingStep S b b' S' fs) (hS : S.Sound) (hset : S.Settled)
    (ho : S.Ordered) : S'.Ordered := by
  cases h with
  | void | unknownType | barred | taken => exact ho
  | declared _ htype =>
    refine ho.add rfl fun name hname => ?_
    obtain ⟨owner, howner⟩ := S.find?_of_type? htype (Option.some.inj hname)
    exact hset.names hS ((hset.find?_eq hS name).symm.trans howner)

theorem BindingSteps.ordered {bs bs' : List Binding} (h : BindingSteps S bs bs' S' fs) (hS : S.Sound)
    (hset : S.Settled) (ho : S.Ordered) : S'.Ordered :=
  (Thread.preserves (P := fun T => T.Sound ∧ T.Settled ∧ T.Ordered)
    (fun hb hT => ⟨hb.sound hT.1, hb.settled hT.1 hT.2.1, hb.ordered hT.1 hT.2.1 hT.2.2⟩) h ⟨hS, hset, ho⟩).2.2

theorem BindingStep.signed {b b' : Binding} (h : BindingStep S b b' S' fs) (hs : S.Signed) : S'.Signed := by
  cases h with
  | void | unknownType | barred | taken => exact hs
  | declared => exact hs.add rfl nofun

theorem BindingSteps.signed {bs bs' : List Binding} (h : BindingSteps S bs bs' S' fs) (hs : S.Signed) : S'.Signed :=
  Thread.preserves (P := ScopeStack.Signed) BindingStep.signed h hs

/-- Scopes around the fields of a struct, when these are left. -/
theorem BindingSteps.ordered_left {bs bs' : List Binding} (h : BindingSteps S.enter bs bs' S' fs) (hS : S.Sound)
    (hset : S.Settled) (ho : S.Ordered) : ({ S with table := S'.table } : ScopeStack).Ordered := by
  have hinner := h.ordered hS.enter hset.enter ⟨ho.packed, ho.typed⟩
  obtain ⟨table, innermost, outer⟩ := S'
  obtain rfl : outer = S.innermost :: S.outer := h.outer
  exact ⟨hinner.packed, hinner.typed⟩

theorem BindingSteps.signed_left {bs bs' : List Binding} (h : BindingSteps S.enter bs bs' S' fs) (hs : S.Signed) :
    ({ S with table := S'.table } : ScopeStack).Signed := by
  have hinner : S'.Signed := h.signed (S := S.enter) hs
  obtain ⟨table, innermost, outer⟩ := S'
  obtain rfl : outer = S.innermost :: S.outer := h.outer
  exact hinner

theorem ItemStep.ordered {i i' : Item} (h : ItemStep S i i' S' fs) (hS : S.Sound) (hset : S.Settled)
    (ho : S.Ordered) (hglobal : i.isStruct = true → S.outer = []) : S'.Ordered := by
  cases h with
  | function => exact ho.add rfl nofun
  | binding hb => exact hb.ordered hS hset ho
  | struct hnew hfields =>
    refine (hfields.ordered_left hS hset ho).addStruct rfl (hglobal rfl) ?_ fun fields hf => ?_
    · exact (ScopeStack.global_find? (hglobal rfl) _ _).trans (S.findLocal?_eq_none hnew .struct)
    · cases hf
      have hrow := hfields.consecutive hS
      have hlength := hrow.length
      -- the scope of the fields began where their row begins
      rw [FieldTable.size, hlength, Nat.add_sub_cancel_right, ← hlength]
      exact hrow
  | _ => exact ho

theorem VisitStep.ordered {v v' : Visit} (h : VisitStep S v v' S' fs) (hS : S.Sound) (hset : S.Settled)
    (ho : S.Ordered) (hglobal : v.isStruct = true → S.outer = []) : S'.Ordered := by
  cases h with
  | enter | leave => exact ⟨ho.packed, ho.typed⟩
  | item hi => exact hi.ordered hS hset ho hglobal

theorem VisitSteps.ordered {vs vs' : List Visit} (h : VisitSteps S vs vs' S' fs) (hS : S.Sound) (hset : S.Settled)
    (ho : S.Ordered) (hno : ∀ v ∈ vs, v.isStruct = false) : S'.Ordered := by
  induction h with
  | nil => exact ho
  | cons hv _ ih =>
    obtain ⟨hfirst, hmore⟩ := List.forall_mem_cons.1 hno
    refine ih (hv.sound hS) ?_ ?_ hmore
    · exact VisitSteps.settled (.single hv) hS hset (List.forall_mem_singleton.2 hfirst)
    · exact hv.ordered hS hset ho fun h => absurd h (Bool.eq_false_iff.1 hfirst)

/-- What stands in a body declares no function, and neither does a struct. -/
theorem ItemStep.signed {i i' : Item} (h : ItemStep S i i' S' fs) (hs : S.Signed)
    (hplace : i.isLocal = true ∨ i.isStruct = true ∧ S.outer = []) : S'.Signed := by
  cases h with
  | function => rcases hplace with hlocal | ⟨hstruct, -⟩ <;> contradiction
  | binding hb => exact hb.signed hs
  | struct hnew hfields =>
    obtain hlocal | ⟨-, hglobal⟩ := hplace
    · contradiction
    · refine (hfields.signed_left hs).addStruct rfl hglobal ?_
      exact (ScopeStack.global_find? hglobal _ _).trans (S.findLocal?_eq_none hnew .struct)
  | _ => exact hs

theorem VisitStep.signed {v v' : Visit} (h : VisitStep S v v' S' fs) (hs : S.Signed)
    (hplace : v.isLocal = true ∨ v.isStruct = true ∧ S.outer = []) : S'.Signed := by
  cases h with
  | enter | leave => exact hs
  | item hi => exact hi.signed hs hplace

theorem VisitSteps.signed {vs vs' : List Visit} (h : VisitSteps S vs vs' S' fs) (hs : S.Signed)
    (hlocal : ∀ v ∈ vs, v.isLocal = true) : S'.Signed := by
  induction h with
  | nil => exact hs
  | cons hv _ ih =>
    obtain ⟨hfirst, hmore⟩ := List.forall_mem_cons.1 hlocal
    exact ih (hv.signed hs (.inl hfirst)) hmore

/-! ### Functions without findings -/

theorem Thread.quiet_cons {σ α ω : Type} {step : σ → α → α → σ → List ω → Prop} {s s' : σ} {x : α} {xs ys : List α}
    (h : Thread step s (x :: xs) ys s' []) :
    ∃ y zs s₁, step s x y s₁ [] ∧ Thread step s₁ xs zs s' [] := by
  generalize hfs : ([] : List ω) = fs at h
  cases h with
  | cons hfirst hmore =>
    obtain ⟨rfl, rfl⟩ := List.append_eq_nil_iff.1 hfs.symm
    exact ⟨_, _, _, hfirst, hmore⟩

/-- Where nothing is found among formals, the structs that they hold are known in the global scope. -/
theorem VisitSteps.formals_known {bs : List Binding} {vs ws : List Visit} (hS : S.Sound) (hset : S.Settled)
    (h : VisitSteps S (Visit.bindings bs ++ vs) ws S' []) : ∀ b ∈ bs, ∀ name, TypeName.ofRef b.type = .struct name →
      ∃ owner, S.global.find? .struct name = some owner := by
  induction bs generalizing S ws with
  | nil => exact fun _ hb => absurd hb List.not_mem_nil
  | cons b bs ih =>
    obtain ⟨v, zs, S₁, hv, hmore⟩ := h.quiet_cons
    cases hv with | item hi =>
    cases hi with | binding hb =>
    have hknown := ih (hb.sound hS) (hb.settled hS hset) hmore
    cases hb with
    | declared _ htype =>
      refine List.forall_mem_cons.2 ⟨fun name hname => ?_, fun c hc name hname => ?_⟩
      · obtain ⟨owner, howner⟩ := S.find?_of_type? htype hname
        exact ⟨owner, (hset.find?_eq hS name).symm.trans howner⟩
      · -- a formal declares no struct, so what is known behind it was known before
        obtain ⟨owner, howner⟩ := hknown c hc name hname
        change (S.add b.symbol).global.find? .struct name = some owner at howner
        rw [ScopeStack.global_add rfl] at howner
        exact ⟨owner, howner⟩

/-- A function in which nothing is found comes after all structs that it takes and gives. -/
theorem VisitSteps.signed_function {f : FunctionDecl} {ws : List Visit} (hS : S.Sound) (hset : S.Settled)
    (hs : S.Signed) (h : VisitSteps S (Decl.function f).visits ws S' []) : S'.Signed := by
  obtain ⟨_, _, S₀, hresult, h⟩ := h.quiet_cons
  obtain ⟨_, _, S₁, hname, hinner⟩ := h.quiet_cons
  cases hresult with | item hresult =>
  cases hresult with | result htype =>
  cases hname with | item hname =>
  have hsettled := hname.settled hS hset nofun
  have hsound := hname.sound hS
  obtain ⟨_, _, _, henter, hformals⟩ := hinner.quiet_cons
  cases henter
  change VisitSteps _ (Visit.bindings f.formals ++ f.body.visits ++ [.leave]) _ _ _ at hformals
  rw [List.append_assoc] at hformals
  have hknown := VisitSteps.formals_known hsound.enter hsettled.enter hformals
  cases hname with | function hnew =>
  refine VisitSteps.signed hinner (hs.add rfl ?_) f.isLocal_inner
  intro params result name hkind hname
  cases hkind
  rcases List.mem_cons.1 hname with hname | hname
  · obtain ⟨owner, howner⟩ := S.find?_of_type? htype hname.symm
    exact hset.names hS ((hset.find?_eq hS name).symm.trans howner)
  · obtain ⟨formal, hformal, hname⟩ := List.mem_map.1 hname
    obtain ⟨owner, howner⟩ := hknown formal hformal name hname
    change (S.add _).global.find? .struct name = some owner at howner
    rw [ScopeStack.global_add rfl] at howner
    exact hset.names hS howner

end

/-! ## All states between declarations -/

namespace Resolve

/-- A walk that ends well has noted what it yields. -/
theorem Yields.findings_of_run_ok {α : Type} {walk : Resolve α} {S' : ScopeStack} {a b : α}
    {fs : List (Finding NameIssue)} {r r' : Resolver} (h : Yields walk r.scopes a S' fs)
    (hrun : walk.run r = .ok (b, r')) : r'.findings = r.findings ++ fs := by
  obtain ⟨more, e⟩ := h r.findings r.events
  rw [e] at hrun
  cases hrun
  rfl

theorem BetweenDecls.programs {ps ps' : List Program} {r r' : Resolver} (hr : BetweenDecls r)
    (h : (programs ps).run r = .ok (ps', r')) : BetweenDecls r' := by
  induction ps generalizing r ps' with
  | nil =>
    cases h
    exact hr
  | cons p ps ih =>
    obtain ⟨p', r₁, hp, h⟩ := exists_of_run_bind h
    obtain ⟨more', r₂, hmore, h⟩ := exists_of_run_bind h
    cases h
    exact ih (hr.program hp) hmore

theorem BetweenDecls.ordered {r : Resolver} (h : BetweenDecls r) :
    r.scopes.Ordered ∧ (r.findings = [] → r.scopes.Signed) := by
  induction h with
  | start =>
    refine ⟨⟨fun id s fields hs => ?_, fun id s name hs => ?_⟩, fun _ id s params result name hs => ?_⟩ <;>
      simp [SymbolTable.get?] at hs
  | @decl d _ r r' hr hrun ih =>
    obtain ⟨ho, hs⟩ := ih
    obtain ⟨hS, hset, hglobal⟩ := hr.settled
    obtain ⟨d', S', vs', fs, hy, hsteps, -, -⟩ := follows_decl d r.scopes hS
    have hfindings := hy.findings_of_run_ok hrun
    obtain ⟨-, rfl⟩ := hy.of_run_ok hrun
    have hquiet (hnone : r'.findings = []) : r.scopes.Signed ∧ fs = [] := by
      obtain ⟨hbefore, hfs⟩ := List.append_eq_nil_iff.1 (hfindings.symm.trans hnone)
      exact ⟨hs hbefore, hfs⟩
    rcases d with b | f | s
    · refine ⟨hsteps.ordered hS hset ho (List.forall_mem_singleton.2 rfl), fun hnone => ?_⟩
      exact hsteps.signed (hquiet hnone).1 (List.forall_mem_singleton.2 rfl)
    · refine ⟨hsteps.ordered hS hset ho f.isStruct_visits, fun hnone => ?_⟩
      obtain ⟨hs, rfl⟩ := hquiet hnone
      exact hsteps.signed_function hS hset hs
    · cases hsteps with | cons hv hnil =>
      cases hnil
      refine ⟨hv.ordered hS hset ho fun _ => hglobal, fun hnone => ?_⟩
      exact hv.signed (hquiet hnone).1 (.inr ⟨rfl, hglobal⟩)

end Resolve

/-! ## Structs -/

/-- The struct `s` has a field that holds the struct `t`. -/
def SymbolTable.Contains (table : SymbolTable) (s t : SymbolId) : Prop :=
  ∃ outer fields e field inner, table.get? s = some outer ∧ outer.fields? = some fields ∧ e ∈ fields.entries ∧
    table.get? e.2 = some field ∧ field.type? = some (.struct inner.name) ∧ table.get? t = some inner ∧
    inner.isStruct = true

/-- A name denotes a struct in the global scope, and this has a smaller number than `id`. -/
def ScopeStack.DenotesBelow (S : ScopeStack) (name : String) (id : SymbolId) : Prop :=
  ∃ owner s, S.global.find? .struct name = some owner ∧ S.table.get? owner = some s ∧ s.isStruct = true ∧
    s.name = name ∧ owner.index < id.index

/-- The structs of a table are closed: each is told by its name and has the symbols just below it as its fields,
and what holds a struct comes after the one that is meant. -/
structure ScopeStack.StructsClosed (S : ScopeStack) : Prop where
  distinct : ∀ i j s t, S.table.get? i = some s → S.table.get? j = some t → s.isStruct = true → t.isStruct = true →
    s.name = t.name → i = j
  fields : ∀ id s fields, S.table.get? id = some s → s.fields? = some fields →
    fields.size ≤ id.index ∧
      (∀ i : SymbolId, (∃ key, (key, i) ∈ fields.entries) ↔ id.index - fields.size ≤ i.index ∧ i.index < id.index) ∧
      ∀ e ∈ fields.entries, S.table.Scalar e
  disjoint : ∀ i j s t fields fields', S.table.get? i = some s → S.table.get? j = some t → i ≠ j →
    s.fields? = some fields → t.fields? = some fields' → ∀ e ∈ fields.entries, ∀ e' ∈ fields'.entries, e.2 ≠ e'.2
  typed : ∀ id s name, S.table.get? id = some s → s.type? = some (.struct name) → S.DenotesBelow name id
  acyclic : ∀ id, ¬ Relation.TransGen S.table.Contains id id

/-- A struct name in a function symbol denotes a struct with a smaller number than the function. -/
def ScopeStack.FunctionsClosed (S : ScopeStack) : Prop :=
  ∀ id s params result name, S.table.get? id = some s → s.kind = .function params result →
    .struct name ∈ result :: params → S.DenotesBelow name id

namespace ScopeStack
variable {S : ScopeStack}

theorem Names.denotesBelow {name : String} {id : SymbolId} (h : S.Names name id.index) (hS : S.Sound)
    (hset : S.Settled) : S.DenotesBelow name id := by
  obtain ⟨owner, howner, hlt⟩ := h
  obtain ⟨s, hs, hname, hc⟩ := hS.find? ((hset.find?_eq hS name).trans howner)
  exact ⟨owner, s, howner, hs, Symbol.isStruct_of_nameClass hc, hname, hlt⟩

/-- Of two structs, none of the lower one's fields is among those of the higher one. -/
theorem Ordered.fields_ne (ho : S.Ordered) (hS : S.Sound) {i j : SymbolId} {s t : Symbol}
    {fields fields' : FieldTable} (hs : S.table.get? i = some s) (ht : S.table.get? j = some t)
    (hf : s.fields? = some fields) (hf' : t.fields? = some fields') (hlt : i.index < j.index) :
    ∀ e ∈ fields.entries, ∀ e' ∈ fields'.entries, e.2 ≠ e'.2 := by
  rintro ⟨key, id⟩ he ⟨key', id'⟩ he' heq
  obtain rfl : id = id' := heq
  have hbelow := ((ho.packed i s fields hs hf).mem id).1 ⟨key, he⟩
  have hrow := ho.packed j t fields' ht hf'
  have hfrom := (hrow.mem id).1 ⟨key', he'⟩
  -- the lower struct would itself be a field of the higher one
  obtain ⟨key, hfield⟩ := (hrow.mem i).2 ⟨by omega, hlt⟩
  obtain ⟨field, type, hget, -, htype⟩ := hS.table j t fields' ht hf' (key, i) hfield
  obtain rfl : s = field := Option.some.inj (hs.symm.trans hget)
  obtain ⟨name, kind, span⟩ := s
  cases kind <;> simp [Symbol.fields?, Symbol.type?] at hf htype

/-- A struct that holds another one comes after it. -/
theorem Ordered.lt_of_contains (ho : S.Ordered) (hset : S.Settled) {s t : SymbolId} (h : S.table.Contains s t) :
    t.index < s.index := by
  obtain ⟨outer, fields, ⟨key, id⟩, field, inner, hs, hf, he, hfield, htype, ht, hstruct⟩ := h
  have hid := ((ho.packed s outer fields hs hf).mem id).1 ⟨key, he⟩
  obtain ⟨owner, howner, hlt⟩ := ho.typed id field inner.name hfield htype
  have hnamed := hset.named t inner ht (Symbol.nameClass_of_isStruct hstruct)
  obtain rfl : owner = t := Option.some.inj (howner.symm.trans hnamed)
  exact Nat.lt_trans hlt hid.2

theorem Ordered.lt_of_transGen (ho : S.Ordered) (hset : S.Settled) {s t : SymbolId}
    (h : Relation.TransGen S.table.Contains s t) : t.index < s.index := by
  induction h with
  | single h => exact ho.lt_of_contains hset h
  | tail _ h ih => exact Nat.lt_trans (ho.lt_of_contains hset h) ih

theorem Ordered.structsClosed (ho : S.Ordered) (hS : S.Sound) (hset : S.Settled) : S.StructsClosed where
  distinct i j s t hs ht hstruct hstruct' hname := by
    have hi := hset.named i s hs (Symbol.nameClass_of_isStruct hstruct)
    rw [hname, hset.named j t ht (Symbol.nameClass_of_isStruct hstruct')] at hi
    exact (Option.some.inj hi).symm
  fields id s fields hs hf := by
    have hrow := ho.packed id s fields hs hf
    have hlength := hrow.length
    refine ⟨?_, hrow.mem, hS.table id s fields hs hf⟩
    unfold FieldTable.size at hlength ⊢
    omega
  disjoint i j s t fields fields' hs ht hne hf hf' e he e' he' := by
    rcases Nat.lt_trichotomy i.index j.index with hlt | heq | hlt
    · exact ho.fields_ne hS hs ht hf hf' hlt e he e' he'
    · exact absurd (congrArg SymbolId.mk heq) hne
    · exact (ho.fields_ne hS ht hs hf' hf hlt e' he' e he).symm
  typed id s name hs htype := (ho.typed id s name hs htype).denotesBelow hS hset
  acyclic _ hcycle := Nat.lt_irrefl _ (ho.lt_of_transGen hset hcycle)

end ScopeStack

/-- After any programs, resolved one after the other from the start with whatever is wrong in them, the structs in
the table are closed, and the names in functions too if nothing was found. -/
theorem programs_structs_closed (ps : List Program) : ∃ ps' r, (Resolve.programs ps).run {} = .ok (ps', r) ∧
    r.scopes.outer = [] ∧ r.scopes.StructsClosed ∧ (r.findings = [] → r.scopes.FunctionsClosed) := by
  obtain ⟨ps', S', fs, hy, -, hout⟩ := Resolve.yields_programs ps ScopeStack.sound_empty
  obtain ⟨events, hrun⟩ := hy [] []
  have hbetween := Resolve.BetweenDecls.start.programs hrun
  obtain ⟨hS, hset, hglobal⟩ := hbetween.settled
  obtain ⟨ho, hsigned⟩ := hbetween.ordered
  refine ⟨ps', _, hrun, hglobal, ho.structsClosed hS hset, fun hnone => ?_⟩
  intro id s params result name hs hkind hname
  exact (hsigned hnone id s params result name hs hkind hname).denotesBelow hS hset

end Namescope
