import Mathlib.Data.List.Forall2
import Namescope.Proofs.Naming.Sites
import Namescope.Proofs.Naming.Soundness
/-!
# Scopes as seen from a tree

The scopes of the resolver hold symbols, the contexts of a tree hold declarations. The resolver is right
about a place if both give the same answer for every name. Which declarations count and what their
symbols must say about them depends on the question, so both are left open here.
-/
namespace Namescope

/-- A way to look at declarations: which of them count, and what a symbol says about one. What a table
says is not taken back when the table grows. -/
structure View where
  counts : Declaration → Bool
  denotes : SymbolTable → SymbolId → Declaration → Prop
  kept : ∀ {table table' id d}, table.Kept table' → denotes table id d → denotes table' id d

variable {view : View}

/-- A scope answers as the declarations do. -/
def Scope.Shows (view : View) (table : SymbolTable) (scope : Scope) (ds : List Declaration) : Prop :=
  ∀ cls name, Option.Rel (view.denotes table) (scope.find? cls name)
    (ds.find? fun d => view.counts d && d.names cls name)

/-- The open scopes answer as those of a context do. -/
def ScopeStack.Shows (view : View) (S : ScopeStack) (Γ : Context) : Prop :=
  List.Forall₂ (Scope.Shows view S.table) S.scopes Γ

theorem Scope.Shows.kept {table table' : SymbolTable} (hk : table.Kept table') {scope : Scope}
    {ds : List Declaration} (h : scope.Shows view table ds) : scope.Shows view table' ds := by
  intro cls name
  have hfound := h cls name
  -- what is found does not depend on the table, only what is said about it
  generalize scope.find? cls name = found at hfound ⊢
  generalize (ds.find? fun d => view.counts d && d.names cls name) = found' at hfound ⊢
  cases hfound with
  | none => exact .none
  | some hd => exact .some (view.kept hk hd)

theorem Scope.shows_empty (table : SymbolTable) : ({} : Scope).Shows view table [] := by
  intro cls name
  cases cls <;> exact .none

/-- A declaration that does not count changes no answer. -/
theorem Scope.Shows.skip {table : SymbolTable} {scope : Scope} {ds : List Declaration} {d : Declaration}
    (h : scope.Shows view table ds) (hd : view.counts d = false) : scope.Shows view table (ds ++ [d]) := by
  intro cls name
  have hsame : (ds ++ [d]).find? (fun d => view.counts d && d.names cls name) =
      ds.find? fun d => view.counts d && d.names cls name := by
    simp [List.find?_append, hd]
  rw [hsame]
  exact h cls name

/-- A declaration that counts is the answer for its name, if the scope did not have the name before. -/
theorem Scope.Shows.bind {table : SymbolTable} {scope : Scope} {ds : List Declaration}
    (h : scope.Shows view table ds) {symbol : Symbol} {d : Declaration} (hd : view.counts d = true)
    (hcls : d.nameClass = symbol.nameClass) (hname : d.ident.name = symbol.name)
    (hnew : scope.find? symbol.nameClass symbol.name = none)
    (hdenotes : view.denotes (table.push symbol) table.nextId d) :
    (scope.bind symbol.nameClass symbol.name table.nextId).Shows view (table.push symbol) (ds ++ [d]) := by
  intro cls name
  rw [Scope.find?_bind, List.find?_append]
  have hold := h.kept (table.kept_push symbol) cls name
  by_cases hsame : cls = symbol.nameClass ∧ name = symbol.name
  · obtain ⟨rfl, rfl⟩ := hsame
    -- the scope did not have the name, so no declaration before `d` is the answer for it
    rw [hnew] at hold
    generalize ds.find? _ = found at hold
    cases hold
    simpa [Declaration.names, hd, hcls, hname] using Option.Rel.some hdenotes
  · have hother : d.names cls name = false := by
      rw [Declaration.names, hcls, hname]
      by_cases hc : symbol.nameClass = cls
      · have hn : symbol.name ≠ name := fun e => hsame ⟨hc.symm, e.symm⟩
        simp [hn]
      · simp [hc]
    rw [if_neg hsame]
    simpa [hother] using hold

namespace ScopeStack.Shows
variable {S : ScopeStack} {Γ : Context}

theorem start : ({} : ScopeStack).Shows view [[]] :=
  List.Forall₂.cons (Scope.shows_empty _) .nil

theorem enter (h : S.Shows view Γ) : S.enter.Shows view ([] :: Γ) :=
  List.Forall₂.cons (Scope.shows_empty _) h

theorem leave {table : SymbolTable} {innermost next : Scope} {outer : List Scope}
    (h : ScopeStack.Shows view ⟨table, innermost, next :: outer⟩ Γ) :
    ScopeStack.Shows view ⟨table, next, outer⟩ Γ.tail := by
  cases h with
  | cons _ h => exact h

/-- The scopes stay as they are while the table grows. -/
theorem kept {table : SymbolTable} (hk : S.table.Kept table) (h : S.Shows view Γ) :
    ({ S with table } : ScopeStack).Shows view Γ :=
  List.Forall₂.imp (fun _ _ hscope => hscope.kept hk) h

theorem skip {d : Declaration} (h : S.Shows view Γ) (hd : view.counts d = false) :
    S.Shows view (Γ.add [d]) := by
  obtain ⟨table, innermost, outer⟩ := S
  cases h with
  | cons hfirst hrest => exact List.Forall₂.cons (hfirst.skip hd) hrest

theorem add (h : S.Shows view Γ) {symbol : Symbol} {d : Declaration} (hd : view.counts d = true)
    (hcls : d.nameClass = symbol.nameClass) (hname : d.ident.name = symbol.name)
    (hnew : S.findLocal? symbol.nameClass symbol.name = none)
    (hdenotes : view.denotes (S.table.push symbol) S.table.nextId d) :
    (S.add symbol).Shows view (Γ.add [d]) := by
  obtain ⟨table, innermost, outer⟩ := S
  cases h with
  | cons hfirst hrest =>
    refine List.Forall₂.cons (hfirst.bind hd hcls hname hnew hdenotes) ?_
    exact List.Forall₂.imp (fun _ _ hscope => hscope.kept (table.kept_push symbol)) hrest

/-- A name means the same in the scopes and in the context. -/
theorem find? (h : S.Shows view Γ) (cls : NameClass) (name : String) :
    Option.Rel (view.denotes S.table) (S.find? cls name) (Γ.visible? view.counts cls name) := by
  unfold ScopeStack.find? Context.visible?
  unfold ScopeStack.Shows at h
  generalize S.scopes = scopes at h ⊢
  -- both sides go on to the next scope if this one does not have the name
  induction h with
  | nil => exact .none
  | @cons scope ds scopes Γ hfirst _ ih =>
    have hfound := hfirst cls name
    rw [List.findSome?_cons, List.findSome?_cons]
    generalize scope.find? cls name = found at hfound
    generalize (ds.find? fun d => view.counts d && d.names cls name) = found' at hfound
    cases hfound with
    | none => exact ih
    | some hd => exact .some hd

/-- The innermost scope has no more than the declarations in it that count. -/
theorem findLocal?_eq_none (h : S.Shows view Γ) (cls : NameClass) (name : String) :
    S.findLocal? cls name = none ↔ ∀ e ∈ Γ.headD [], view.counts e → e.names cls name = false := by
  obtain ⟨table, innermost, outer⟩ := S
  cases h with
  | @cons _ ds _ _ hfirst _ =>
    have hfound := hfirst cls name
    have hnone : ds.find? (fun d => view.counts d && d.names cls name) = none ↔
        ∀ e ∈ ds, view.counts e → e.names cls name = false := by
      simp [List.find?_eq_none]
    rw [List.headD_cons, ← hnone, ScopeStack.findLocal?]
    generalize innermost.find? cls name = found at hfound
    generalize (ds.find? fun d => view.counts d && d.names cls name) = found' at hfound
    cases hfound <;> simp

/-- A name is free for a variable, formal or field of struct type if it is not in the plain class. -/
theorem free_iff_of_struct_type (h : S.Shows view Γ) {d : Declaration}
    (hd : d.hasStructType = true) :
    S.findLocal? .plain d.ident.name = none ↔ ∀ e ∈ Γ.headD [], view.counts e → ¬ d.Clashes e := by
  rw [h.findLocal?_eq_none]
  refine forall_congr' fun e => forall_congr' fun _ => forall_congr' fun _ => ?_
  cases hcls : e.nameClass <;> simp [Declaration.names, Declaration.Clashes, hcls, hd]

/-- For everything else a name is free if it is in neither class. -/
theorem free_iff (h : S.Shows view Γ) {d : Declaration} (hd : d.hasStructType = false) :
    S.hasLocal d.ident.name = false ↔ ∀ e ∈ Γ.headD [], view.counts e → ¬ d.Clashes e := by
  have hnone : S.hasLocal d.ident.name = false ↔
      S.findLocal? .plain d.ident.name = none ∧ S.findLocal? .struct d.ident.name = none := by
    simp [ScopeStack.hasLocal]
  rw [hnone, h.findLocal?_eq_none, h.findLocal?_eq_none, ← forall₂_and]
  refine forall_congr' fun e => forall_congr' fun _ => ?_
  cases hcls : e.nameClass <;> simp [Declaration.names, Declaration.Clashes, hcls, hd]

theorem knows_iff (h : S.Shows view Γ) (type : TypeRef) :
    Γ.Knows view.counts (.ofRef type) ↔ type.kind ≠ .void ∧ (S.type? type).isSome := by
  cases hkind : type.kind with
  | void => simp [TypeName.ofRef, hkind, Context.Knows]
  | int | bool => simp [TypeName.ofRef, hkind, Context.Knows, ScopeStack.type?]
  | struct name =>
    have hfound := h.find? .struct name.name
    simp only [TypeName.ofRef, hkind, Context.Knows, ScopeStack.type?]
    generalize S.find? .struct name.name = found at hfound
    generalize Γ.visible? view.counts .struct name.name = found' at hfound
    cases hfound <;> simp

/-- What the resolver checks before it declares a variable, formal or field. -/
theorem admits_binding_iff (h : S.Shows view Γ) (b : Binding) :
    Γ.Admits view.counts b.declaration ↔
      (b.type.kind ≠ .void ∧ (S.type? b.type).isSome) ∧
        S.bars b = false ∧ S.findLocal? .plain b.name.name = none := by
  -- a type that is no struct type asks both classes for the name, a struct type only the plain one
  have hfree : (S.bars b = false ∧ S.findLocal? .plain b.name.name = none) ↔
      ∀ e ∈ Γ.headD [], view.counts e → ¬ b.declaration.Clashes e := by
    cases hkind : b.type.kind with
    | struct name =>
      have hd : b.declaration.hasStructType = true := by
        simp [Binding.declaration, Declaration.hasStructType, Declaration.type?, TypeName.ofRef, hkind,
          TypeName.structName?]
      rw [← h.free_iff_of_struct_type hd]
      simp [ScopeStack.bars, hkind, Binding.declaration]
    | int | bool | void =>
      have hd : b.declaration.hasStructType = false := by
        simp [Binding.declaration, Declaration.hasStructType, Declaration.type?, TypeName.ofRef, hkind,
          TypeName.structName?]
      rw [← h.free_iff hd]
      simp [ScopeStack.bars, hkind, Binding.declaration, ScopeStack.hasLocal, and_comm]
  rw [hfree, ← h.knows_iff]
  constructor
  · intro hadmits
    exact ⟨hadmits.known _ rfl, hadmits.free⟩
  · rintro ⟨hknown, hfree⟩
    refine ⟨fun type htype => ?_, hfree⟩
    cases htype
    exact hknown

/-- What the resolver checks before it declares a function or a struct. -/
theorem admits_iff (h : S.Shows view Γ) {d : Declaration} (hd : d.type? = none) :
    Γ.Admits view.counts d ↔ S.hasLocal d.ident.name = false := by
  rw [h.free_iff (by rw [Declaration.hasStructType, hd]; rfl)]
  constructor
  · exact fun hadmits => hadmits.free
  · refine fun hfree => ⟨fun type htype => ?_, hfree⟩
    rw [hd] at htype
    cases htype

end ScopeStack.Shows

section
variable {S S' : ScopeStack} {Γ : Context} {fs : List (Finding NameIssue)}

/-- Nothing is found at a variable, formal or field that the context admits, and only there. -/
theorem BindingStep.quiet_iff {b b' : Binding} (h : BindingStep S b b' S' fs) (hΓ : S.Shows view Γ) :
    fs = [] ↔ Γ.Admits view.counts b.declaration := by
  rw [hΓ.admits_binding_iff]
  cases h with
  | void hkind => simp [voidFindings, hkind]
  | unknownType hkind htype => simp [ScopeStack.type?, hkind, htype]
  | barred _ hbars => simp [hbars]
  | taken _ _ _ htaken => simp [htaken]
  | declared hvoid htype hbars hnew => simp [hvoid, htype, hbars, hnew]

end

end Namescope
