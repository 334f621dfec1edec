import Namescope.Proofs.Naming.Annotations
/-!
# Declarations and symbols

The declaring identifiers of a program that got a symbol are numbered in the order of the table, without a
gap and without a second use; a struct has its number after those of its fields. An identifier that got
none is named by a finding: its own name, its type or the struct around it was refused.
-/
namespace Namescope

/-! ## Declaring identifiers -/

/-- An identifier that is declared: a function or struct, or with its type a variable, formal or field, which
stands in a struct. -/
structure Declarer where
  ident : Ident
  type : Option TypeRef := none
  owner : Option Ident := none

/-- The declaring identifier of a variable, formal or field. -/
def Binding.declarer (owner : Option Ident) (b : Binding) : Declarer := ⟨b.name, some b.type, owner⟩

/-- The declaring identifiers of an item. The fields of a struct come before the struct. -/
def Item.declarers : Item → List Declarer
  | .function name _ _ => [⟨name, none, none⟩]
  | .binding b => [b.declarer none]
  | .struct s => s.fields.map (Binding.declarer (some s.name)) ++ [⟨s.name, none, none⟩]
  | _ => []

/-- The declaring identifiers met on a visit. -/
def Visit.declarers : Visit → List Declarer
  | .item i => i.declarers
  | _ => []

/-- All declaring identifiers of a program in source order, but each struct after its fields. -/
def Program.declarers (p : Program) : List Declarer := p.visits.flatMap Visit.declarers

/-- What a table knows of a declaration. -/
structure Entry where
  id : SymbolId
  name : String
  span : Span
  deriving DecidableEq

/-- What a table has to know of a declaring identifier that got a symbol. -/
def Declarer.known? (d : Declarer) : Option Entry :=
  d.ident.sym.map fun id => ⟨id, d.ident.name, d.ident.span⟩

theorem Declarer.id_known? (d : Declarer) : d.known?.map Entry.id = d.ident.sym := by
  cases h : d.ident.sym <;> simp [known?, h]

/-- A finding that says why an identifier got no symbol. -/
inductive Declarer.RefusedBy : Declarer → Finding NameIssue → Prop
  | name {ident type owner} : RefusedBy ⟨ident, type, owner⟩ ⟨.multiplyDeclared, ident.span⟩
  | void {ident type owner} : type.kind = .void →
      RefusedBy ⟨ident, some type, owner⟩ ⟨.voidNonFunction, ident.span⟩
  | type {ident type owner name} : type.kind = .struct name →
      RefusedBy ⟨ident, some type, owner⟩ ⟨.invalidStructType, name.span⟩
  | owner {ident type owner} : owner.sym = none →
      RefusedBy ⟨ident, type, some owner⟩ ⟨.multiplyDeclared, owner.span⟩

/-! ## Entries of a table -/

namespace SymbolTable

/-- The entries of a table in order. -/
def entries (table : SymbolTable) : List Entry :=
  table.symbols.mapIdx fun i s => ⟨⟨i⟩, s.name, s.span⟩

theorem entries_push (table : SymbolTable) (symbol : Symbol) :
    (table.push symbol).entries = table.entries ++ [⟨table.nextId, symbol.name, symbol.span⟩] := by
  simp [entries, push, nextId, size]

theorem entries_ids (table : SymbolTable) :
    table.entries.map Entry.id = (List.range table.size).map SymbolId.mk := by
  refine List.ext_getElem (by simp [entries, size]) fun i _ _ => ?_
  simp [entries]

theorem get?_of_mem_entries {table : SymbolTable} {e : Entry} (h : e ∈ table.entries) :
    ∃ s, table.get? e.id = some s ∧ s.name = e.name ∧ s.span = e.span := by
  obtain ⟨i, hi, rfl⟩ := List.mem_mapIdx.1 h
  exact ⟨table.symbols[i], List.getElem?_eq_getElem hi, rfl, rfl⟩

/-- A table goes on by the symbols of declaring identifiers, and findings tell of those that got none. -/
structure Accounts (table table' : SymbolTable) (ds : List Declarer) (fs : List (Finding NameIssue)) :
    Prop where
  entries : table'.entries = table.entries ++ ds.filterMap Declarer.known?
  refused : ∀ d ∈ ds, d.ident.sym = none → ∃ f ∈ fs, d.RefusedBy f

namespace Accounts
variable {table table₁ table₂ : SymbolTable} {ds es : List Declarer} {fs gs : List (Finding NameIssue)}

theorem nil (table : SymbolTable) (fs : List (Finding NameIssue)) : table.Accounts table [] fs :=
  ⟨by simp, by simp⟩

/-- Identifiers that are all refused leave the table as it is. -/
theorem refusal (hsym : ∀ d ∈ ds, d.ident.sym = none) (hfs : ∀ d ∈ ds, ∃ f ∈ fs, d.RefusedBy f) :
    table.Accounts table ds fs where
  entries := by
    have hnone : ds.filterMap Declarer.known? = [] :=
      List.filterMap_eq_nil_iff.2 fun d hd => by rw [Declarer.known?, hsym d hd, Option.map_none]
    rw [hnone, List.append_nil]
  refused d hd _ := hfs d hd

theorem push {symbol : Symbol} {d : Declarer} (hsym : d.ident.sym = some table.nextId)
    (hname : symbol.name = d.ident.name) (hspan : symbol.span = d.ident.span)
    (fs : List (Finding NameIssue)) : table.Accounts (table.push symbol) [d] fs where
  entries := by simp [entries_push, Declarer.known?, hsym, hname, hspan]
  refused d' hd' hnone := by
    obtain rfl := List.mem_singleton.1 hd'
    rw [hsym] at hnone
    cases hnone

theorem append (h : table.Accounts table₁ ds fs) (h' : table₁.Accounts table₂ es gs) :
    table.Accounts table₂ (ds ++ es) (fs ++ gs) where
  entries := by rw [h'.entries, h.entries, List.filterMap_append, List.append_assoc]
  refused d hd hnone := by
    rcases List.mem_append.1 hd with hd | hd
    · obtain ⟨f, hf, hr⟩ := h.refused d hd hnone
      exact ⟨f, List.mem_append_left _ hf, hr⟩
    · obtain ⟨f, hf, hr⟩ := h'.refused d hd hnone
      exact ⟨f, List.mem_append_right _ hf, hr⟩

end Accounts

end SymbolTable

/-- What every step accounts for, a thread accounts for. -/
theorem Thread.accounts {α : Type} {step : ScopeStack → α → α → ScopeStack → List (Finding NameIssue) → Prop}
    {P : α → Prop} {out : α → List Declarer}
    (hstep : ∀ {S x y S' fs}, step S x y S' fs → P x → S.table.Accounts S'.table (out y) fs)
    {S S' : ScopeStack} {xs ys : List α} {fs : List (Finding NameIssue)} (h : Thread step S xs ys S' fs)
    (hxs : ∀ x ∈ xs, P x) : S.table.Accounts S'.table (ys.flatMap out) fs := by
  induction h with
  | nil => exact .nil _ _
  | cons hs _ ih =>
    rw [List.flatMap_cons]
    exact (hstep hs (hxs _ List.mem_cons_self)).append (ih fun x hx => hxs x (List.mem_cons_of_mem _ hx))

/-! ## What steps account for -/

section
variable {S S' : ScopeStack} {fs : List (Finding NameIssue)}

/-- A binding that is refused leaves the table as it is. -/
theorem Binding.accounts_refusal {table : SymbolTable} {b : Binding} {owner : Option Ident}
    {f : Finding NameIssue} (hb : b.name.sym = none) (hf : f ∈ fs) (hr : (b.declarer owner).RefusedBy f) :
    table.Accounts table [b.declarer owner] fs := by
  refine .refusal (fun d hd => ?_) (fun d hd => ?_) <;> obtain rfl := List.mem_singleton.1 hd
  · exact hb
  · exact ⟨f, hf, hr⟩

theorem BindingStep.accounts {b b' : Binding} (h : BindingStep S b b' S' fs) (hb : b.name.sym = none)
    (owner : Option Ident) : S.table.Accounts S'.table [b'.declarer owner] fs := by
  cases h with
  | void hkind => exact b.accounts_refusal hb List.mem_cons_self (.void hkind)
  | unknownType hkind => exact b.accounts_refusal hb List.mem_cons_self (.type hkind)
  | barred => exact b.accounts_refusal hb List.mem_cons_self .name
  | taken => exact Binding.accounts_refusal rfl List.mem_cons_self .name
  | declared => exact .push rfl rfl rfl _

theorem BindingSteps.accounts {bs bs' : List Binding} (h : BindingSteps S bs bs' S' fs)
    (hbs : ∀ b ∈ bs, b.name.sym = none) (owner : Option Ident) :
    S.table.Accounts S'.table (bs'.map (Binding.declarer owner)) fs := by
  rw [List.map_eq_flatMap]
  exact Thread.accounts (P := fun (b : Binding) => b.name.sym = none) (fun hb hsym => hb.accounts hsym owner)
    h hbs

theorem ItemStep.accounts {i i' : Item} (h : ItemStep S i i' S' fs)
    (hi : ∀ d ∈ i.declarers, d.ident.sym = none) : S.table.Accounts S'.table i'.declarers fs := by
  cases h with
  | result | unknownResult | used | undeclared | chain | noField | broken | callee | noFunction =>
    exact .nil _ _
  | function => exact .push rfl rfl rfl _
  | binding hb => exact hb.accounts (hi _ List.mem_cons_self) none
  | @takenFunction name =>
    refine .refusal hi fun d hd => ⟨_, List.mem_cons_self, ?_⟩
    obtain rfl := List.mem_singleton.1 hd
    exact .name
  | @struct s fields' S₁ _ _ hfields =>
    have hbare : ∀ b ∈ s.fields, b.name.sym = none := fun b hb =>
      hi _ (List.mem_append_left _ (List.mem_map_of_mem hb))
    rw [← List.append_nil fs]
    exact (hfields.accounts hbare _).append (.push rfl rfl rfl [])
  | @takenStruct s =>
    refine .refusal hi fun d hd => ⟨_, List.mem_cons_self, ?_⟩
    -- the body is skipped, so the name of the struct answers for all its fields
    rcases List.mem_append.1 hd with hd | hd
    · obtain ⟨b, -, rfl⟩ := List.mem_map.1 hd
      exact .owner (hi ⟨s.name, none, none⟩ List.mem_concat_self)
    · obtain rfl := List.mem_singleton.1 hd
      exact .name

theorem VisitStep.accounts {v v' : Visit} (h : VisitStep S v v' S' fs)
    (hv : ∀ d ∈ v.declarers, d.ident.sym = none) : S.table.Accounts S'.table v'.declarers fs := by
  cases h with
  | enter | leave => exact .nil _ _
  | item hi => exact hi.accounts hv

theorem Visit.bare_declarers {v : Visit} (h : v.relabel .bare = v) :
    ∀ d ∈ v.declarers, d.ident.sym = none := by
  intro d hd
  rw [← h] at hd
  cases v with
  | enter | leave => cases hd
  | item i =>
    cases i with
    | result | place | callee => cases hd
    | function | binding =>
      obtain rfl := List.mem_singleton.1 hd
      rfl
    | struct s =>
      rcases List.mem_append.1 hd with hd | hd
      · obtain ⟨b, hb, rfl⟩ := List.mem_map.1 hd
        obtain ⟨b, -, rfl⟩ := List.mem_map.1 hb
        rfl
      · obtain rfl := List.mem_singleton.1 hd
        rfl

/-- The symbols that bare visits add are those of their declaring identifiers, in order. -/
theorem VisitSteps.accounts {vs vs' : List Visit} (h : VisitSteps S vs vs' S' fs)
    (hvs : ∀ v ∈ vs, v.relabel .bare = v) :
    S.table.Accounts S'.table (vs'.flatMap Visit.declarers) fs :=
  Thread.accounts (P := fun v => v.relabel .bare = v)
    (fun hv hbare => hv.accounts (Visit.bare_declarers hbare)) h hvs

end

/-! ## Programs -/

/-- Declarations and symbols answer to each other: the identifiers that got a symbol have the numbers of the
table in order, each symbol has the name and place of its identifier, and every other identifier was
refused. -/
structure Analysis.Numbered (a : Analysis) : Prop where
  ids : a.program.declarers.filterMap (fun d => d.ident.sym) = (List.range a.table.size).map SymbolId.mk
  symbol : ∀ d ∈ a.program.declarers, ∀ id, d.ident.sym = some id →
    ∃ s, a.table.get? id = some s ∧ s.name = d.ident.name ∧ s.span = d.ident.span
  refused : ∀ d ∈ a.program.declarers, d.ident.sym = none → ∃ f ∈ a.findings, d.RefusedBy f

/-- The declarations of a program without annotations are numbered. -/
theorem analyze_numbered {p : Program} (h : p.bare = p) :
    ∃ a, analyze p = .ok a ∧ a.program.bare = p ∧ a.Numbered := by
  obtain ⟨a, S', ha, htable, hsteps, hbare⟩ := analyze_steps p
  have haccounts : SymbolTable.Accounts {} a.table a.program.declarers a.findings := by
    rw [htable]
    exact hsteps.accounts fun v => Program.bare_of_mem_visits h
  have hentries : a.table.entries = a.program.declarers.filterMap Declarer.known? := haccounts.entries
  refine ⟨a, ha, hbare.trans h, ?_, ?_, haccounts.refused⟩
  · rw [← SymbolTable.entries_ids, hentries, List.map_filterMap]
    simp only [Declarer.id_known?]
  · intro d hd id hid
    refine SymbolTable.get?_of_mem_entries (e := ⟨id, d.ident.name, d.ident.span⟩) ?_
    rw [hentries]
    exact List.mem_filterMap.2 ⟨d, hd, by rw [Declarer.known?, hid, Option.map_some]⟩

/-- The program `struct P { int x; void y; Q z; } struct P { int x; } int v; bool v; void f(int a) { int a; }`,
without places. -/
def Program.refusals : Program where
  decls :=
    let binding (kind : TypeKind) (name : String) : Binding := ⟨⟨kind, {}⟩, ⟨name, {}, none⟩, {}⟩
    [.struct ⟨⟨"P", {}, none⟩,
       [binding .int "x", binding .void "y", binding (.struct ⟨"Q", {}, none⟩) "z"], {}⟩,
     .struct ⟨⟨"P", {}, none⟩, [binding .int "x"], {}⟩, .variable (binding .int "v"),
     .variable (binding .bool "v"),
     .function ⟨⟨.void, {}⟩, ⟨"f", {}, none⟩, [binding .int "a"], .mk [binding .int "a"] [] {}, {}⟩]

/-- Five of its identifiers are numbered; the others are void, of an unknown type, in a struct that was refused
or declared for the second time. -/
theorem refusals_numbered :
    Program.refusals.bare = Program.refusals ∧ ∃ a, analyze Program.refusals = .ok a ∧ a.Numbered ∧
      a.program.declarers.map (fun d => (d.ident.name, d.ident.sym.map SymbolId.index)) =
        [("x", some 0), ("y", none), ("z", none), ("P", some 1), ("x", none), ("P", none),
         ("v", some 2), ("v", none), ("f", some 3), ("a", some 4), ("a", none)] := by
  obtain ⟨a, ha, -, hnumbered⟩ := analyze_numbered (p := Program.refusals) rfl
  have hrun : (analyze Program.refusals).toOption.map (fun a =>
      a.program.declarers.map (fun d => (d.ident.name, d.ident.sym.map SymbolId.index))) =
        some [("x", some 0), ("y", none), ("z", none), ("P", some 1), ("x", none), ("P", none),
          ("v", some 2), ("v", none), ("f", some 3), ("a", some 4), ("a", none)] := by decide +kernel
  rw [ha] at hrun
  exact ⟨rfl, a, ha, hnumbered, Option.some.inj hrun⟩

end Namescope
