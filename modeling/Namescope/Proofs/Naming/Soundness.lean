import Namescope.Proofs.Naming.Steps
/-!
# Sound scopes

Scopes are sound if every name in them leads to a symbol of that name and class, and every field table to
scalars. Each step keeps this, so no symbol that is looked up is ever missing or of the wrong kind.
-/
namespace Namescope

/-! ## Tables and scopes as look-ups -/

namespace SymbolTable

theorem lt_of_get? {table : SymbolTable} {id : SymbolId} {s : Symbol} (h : table.get? id = some s) :
    id.index < table.size :=
  (List.getElem?_eq_some_iff.1 h).1

theorem get?_push (table : SymbolTable) (symbol : Symbol) :
    (table.push symbol).get? table.nextId = some symbol := by
  simp [get?, push, nextId, size]

/-- A table only grows: what an identifier means stays. -/
theorem get?_push_of_some {table : SymbolTable} {id : SymbolId} {s : Symbol} (h : table.get? id = some s)
    (symbol : Symbol) : (table.push symbol).get? id = some s := by
  unfold get? at h ⊢
  have hid := (List.getElem?_eq_some_iff.1 h).1
  rw [push, List.getElem?_append_left hid, h]

/-- The symbols of a table are kept by another one. -/
def Kept (table table' : SymbolTable) : Prop := ∀ id s, table.get? id = some s → table'.get? id = some s

theorem Kept.refl (table : SymbolTable) : table.Kept table := fun _ _ h => h

theorem Kept.trans {a b c : SymbolTable} (h : a.Kept b) (h' : b.Kept c) : a.Kept c :=
  fun id s hs => h' id s (h id s hs)

theorem Kept.size_le {table table' : SymbolTable} (hk : table.Kept table') :
    table.size ≤ table'.size := by
  refine Nat.le_of_not_lt fun hid => ?_
  have hs := hk table'.nextId _ (List.getElem?_eq_getElem hid)
  exact Nat.lt_irrefl _ (List.getElem?_eq_some_iff.1 hs).1

theorem kept_push (table : SymbolTable) (symbol : Symbol) : table.Kept (table.push symbol) :=
  fun _ _ h => get?_push_of_some h symbol

end SymbolTable

namespace Scope

theorem names_bind (scope : Scope) (cls cls' : NameClass) (name : String) (id : SymbolId) :
    (scope.bind cls name id).names cls' =
      if cls' = cls then (name, id) :: scope.names cls else scope.names cls' := by
  cases cls <;> cases cls' <;> rfl

/-- A name that was bound is found, and no other name of its class or of the other one changes. -/
theorem find?_bind (scope : Scope) (cls cls' : NameClass) (name name' : String) (id : SymbolId) :
    (scope.bind cls name id).find? cls' name' =
      if cls' = cls ∧ name' = name then some id else scope.find? cls' name' := by
  unfold find?
  rw [names_bind]
  by_cases hc : cls' = cls
  · subst hc
    by_cases hn : name' = name
    · simp [hn]
    · simp [hn, List.lookup_cons, beq_eq_false_iff_ne.2 hn]
  · simp [hc]

theorem mem_of_find? {scope : Scope} {cls : NameClass} {name : String} {id : SymbolId}
    (h : scope.find? cls name = some id) : (name, id) ∈ scope.names cls := by
  obtain ⟨before, after, e, -⟩ := List.lookup_eq_some_iff.1 h
  rw [e]
  exact List.mem_append_right _ List.mem_cons_self

/-- A scope that has each name once finds what it has. -/
theorem find?_of_mem {scope : Scope} {cls : NameClass} {name : String} {id : SymbolId}
    (hd : ((scope.names cls).map Prod.fst).Nodup) (hm : (name, id) ∈ scope.names cls) :
    scope.find? cls name = some id := by
  obtain ⟨before, after, e⟩ := List.append_of_mem hm
  refine List.lookup_eq_some_iff.2 ⟨before, after, e, fun p hp => ?_⟩
  rw [e, List.map_append, List.nodup_append] at hd
  have hne : p.1 ≠ name := hd.2.2 p.1 (List.mem_map_of_mem hp) name (by simp)
  simpa using hne.symm

theorem find?_eq_none {scope : Scope} {cls : NameClass} {name : String} (h : scope.find? cls name = none) :
    name ∉ (scope.names cls).map Prod.fst := by
  unfold find? at h
  rw [List.lookup_eq_none_iff] at h
  rintro hm
  obtain ⟨e, he, rfl⟩ := List.mem_map.1 hm
  simpa using h e he

end Scope

theorem FieldTable.mem_insert {table : FieldTable} {name : String} {id : SymbolId} {e : String × SymbolId}
    (h : e ∈ (table.insert name id).entries) : e = (name, id) ∨ e ∈ table.entries :=
  mem_of_mem_insertEntry h

/-- What a table of listed fields holds was listed. -/
theorem FieldTable.mem_ofList {entries : List (String × SymbolId)} {e : String × SymbolId}
    (h : e ∈ (FieldTable.ofList entries).entries) : e ∈ entries := by
  have general : ∀ (l : List (String × SymbolId)) (table : FieldTable),
      e ∈ (l.foldl (fun t x => t.insert x.1 x.2) table).entries → e ∈ l ∨ e ∈ table.entries := by
    intro l
    induction l with
    | nil => intro table h; exact .inr h
    | cons x rest ih =>
      intro table h
      rcases ih _ h with h | h
      · exact .inl (List.mem_cons_of_mem _ h)
      · rcases FieldTable.mem_insert h with rfl | h
        · exact .inl List.mem_cons_self
        · exact .inr h
  rcases general entries .empty h with h | h
  · exact h
  · simp [FieldTable.empty] at h

theorem FieldTable.get?_insert (table : FieldTable) (name name' : String) (id : SymbolId) :
    (table.insert name id).get? name' = if name' = name then some id else table.get? name' := by
  have general : ∀ entries : List (String × SymbolId), (insertEntry name id entries).lookup name' =
      if name' = name then some id else entries.lookup name' := by
    intro entries
    fun_induction insertEntry name id entries with
    | case1 | case2 | case3 =>
      by_cases hn : name' = name
      · simp [hn]
      · simp [List.lookup_cons, hn, beq_eq_false_iff_ne.2 hn]
    | case4 key value rest _ hne ih =>
      rw [List.lookup_cons, List.lookup_cons, ih]
      by_cases hn : name' = name
      · subst hn
        simp [beq_eq_false_iff_ne.2 hne]
      · simp [hn]
  exact general table.entries

/-- A table of listed fields has each of them under its name, if every name is listed once. -/
theorem FieldTable.get?_ofList {entries : List (String × SymbolId)} (h : (entries.map Prod.fst).Nodup)
    (name : String) : (FieldTable.ofList entries).get? name = entries.lookup name := by
  have general : ∀ (l : List (String × SymbolId)) (table : FieldTable), (l.map Prod.fst).Nodup →
      (l.foldl (fun t x => t.insert x.1 x.2) table).get? name = (l.lookup name).or (table.get? name) := by
    intro l
    induction l with
    | nil => intro table _; rfl
    | cons x rest ih =>
      intro table hnodup
      obtain ⟨key, id⟩ := x
      obtain ⟨hkey, hrest⟩ := List.nodup_cons.1 hnodup
      rw [List.foldl_cons, ih _ hrest, get?_insert, List.lookup_cons]
      by_cases hn : name = key
      · subst hn
        have hnone : rest.lookup name = none := by
          rw [List.lookup_eq_none_iff]
          intro e he
          simpa using fun e' => hkey (List.mem_map.2 ⟨e, he, e'.symm⟩)
        simp [hnone]
      · simp [hn, beq_eq_false_iff_ne.2 hn]
  rw [ofList, general entries .empty h]
  cases entries.lookup name <;> rfl

/-! ## The invariant -/

/-- An entry leads to a variable, formal or field of its name. -/
def SymbolTable.Scalar (table : SymbolTable) (e : String × SymbolId) : Prop :=
  ∃ symbol type, table.get? e.2 = some symbol ∧ symbol.name = e.1 ∧ symbol.type? = some type

/-- Every field table leads to scalars. -/
def SymbolTable.Sound (table : SymbolTable) : Prop :=
  ∀ id s fields, table.get? id = some s → s.fields? = some fields → ∀ e ∈ fields.entries, table.Scalar e

/-- Every name leads to a symbol of its name and class, and stands once in its class. -/
structure Scope.Sound (table : SymbolTable) (scope : Scope) : Prop where
  bound : ∀ cls, ∀ e ∈ scope.names cls,
    ∃ symbol, table.get? e.2 = some symbol ∧ symbol.name = e.1 ∧ symbol.nameClass = cls
  distinct : ∀ cls, ((scope.names cls).map Prod.fst).Nodup

/-- The table and all open scopes are sound. -/
structure ScopeStack.Sound (S : ScopeStack) : Prop where
  table : S.table.Sound
  scopes : ∀ scope ∈ S.scopes, scope.Sound S.table

theorem SymbolTable.Scalar.kept {table table' : SymbolTable} {e : String × SymbolId}
    (hk : table.Kept table') : table.Scalar e → table'.Scalar e := by
  rintro ⟨symbol, type, hs, hn, ht⟩
  exact ⟨symbol, type, hk _ _ hs, hn, ht⟩

theorem SymbolTable.Sound.push {table : SymbolTable} (h : table.Sound) {symbol : Symbol}
    (hf : ∀ fields, symbol.fields? = some fields → ∀ e ∈ fields.entries, table.Scalar e) :
    (table.push symbol).Sound := by
  intro id s fields hs hfields e he
  have hk := table.kept_push symbol
  by_cases hid : id.index < table.symbols.length
  · refine (h id s fields ?_ hfields e he).kept hk
    rw [SymbolTable.get?, SymbolTable.push, List.getElem?_append_left hid] at hs
    exact hs
  · have hlast : s = symbol := by
      rw [SymbolTable.get?, SymbolTable.push, List.getElem?_append_right (by omega)] at hs
      have := List.mem_of_getElem? hs
      simpa using this
    subst hlast
    exact (hf fields hfields e he).kept hk

theorem Scope.Sound.kept {table table' : SymbolTable} {scope : Scope} (hk : table.Kept table')
    (h : scope.Sound table) : scope.Sound table' where
  bound cls e he := by
    obtain ⟨symbol, hs, hn, hc⟩ := h.bound cls e he
    exact ⟨symbol, hk _ _ hs, hn, hc⟩
  distinct := h.distinct

theorem Scope.sound_empty (table : SymbolTable) : ({} : Scope).Sound table where
  bound cls e he := by cases cls <;> simp [Scope.names] at he
  distinct cls := by cases cls <;> simp [Scope.names]

theorem Scope.Sound.bind {table : SymbolTable} {scope : Scope} (h : scope.Sound table) {symbol : Symbol}
    (hnew : scope.find? symbol.nameClass symbol.name = none) :
    (scope.bind symbol.nameClass symbol.name table.nextId).Sound (table.push symbol) where
  bound cls e he := by
    rw [Scope.names_bind] at he
    split at he
    · rename_i hc
      rcases List.mem_cons.1 he with rfl | he
      · exact ⟨symbol, table.get?_push symbol, rfl, hc.symm⟩
      · exact (h.kept (table.kept_push symbol)).bound cls e (hc ▸ he)
    · exact (h.kept (table.kept_push symbol)).bound cls e he
  distinct cls := by
    rw [Scope.names_bind]
    split
    · exact List.nodup_cons.2 ⟨Scope.find?_eq_none hnew, h.distinct _⟩
    · exact h.distinct cls

theorem Symbol.fields?_of_nameClass {s : Symbol} (h : s.nameClass = .struct) :
    ∃ fields, s.fields? = some fields := by
  unfold Symbol.nameClass at h
  unfold Symbol.fields?
  split at h <;> simp_all

theorem Symbol.isStruct_of_nameClass {s : Symbol} (h : s.nameClass = .struct) : s.isStruct = true := by
  unfold Symbol.nameClass at h
  unfold Symbol.isStruct
  split at h <;> simp_all

namespace ScopeStack

theorem sound_empty : ({} : ScopeStack).Sound where
  table := by simp [SymbolTable.Sound, SymbolTable.get?]
  scopes scope hs := by
    simp only [ScopeStack.scopes, List.mem_singleton] at hs
    subst hs
    exact Scope.sound_empty _

namespace Sound
variable {S : ScopeStack}

theorem enter (h : S.Sound) : S.enter.Sound where
  table := h.table
  scopes scope hs := by
    rcases List.mem_cons.1 hs with rfl | hs
    · exact Scope.sound_empty _
    · exact h.scopes scope hs

theorem add (h : S.Sound) {symbol : Symbol} (hnew : S.findLocal? symbol.nameClass symbol.name = none)
    (hf : ∀ fields, symbol.fields? = some fields → ∀ e ∈ fields.entries, S.table.Scalar e) :
    (S.add symbol).Sound where
  table := h.table.push hf
  scopes scope hs := by
    rcases List.mem_cons.1 hs with rfl | hs
    · exact (h.scopes _ List.mem_cons_self).bind hnew
    · exact (h.scopes scope (List.mem_cons_of_mem _ hs)).kept (S.table.kept_push symbol)

/-- A name that is found leads to a symbol of that name and class. -/
theorem find? (h : S.Sound) {cls : NameClass} {name : String} {id : SymbolId}
    (hid : S.find? cls name = some id) :
    ∃ symbol, S.table.get? id = some symbol ∧ symbol.name = name ∧ symbol.nameClass = cls := by
  obtain ⟨scope, hs, hfind⟩ := List.exists_of_findSome?_eq_some hid
  exact (h.scopes scope hs).bound cls (name, id) (Scope.mem_of_find? hfind)

/-- What a symbol holds is a struct type. -/
theorem held? (h : S.Sound) {id owner : SymbolId} (hid : S.held? id = some owner) :
    ∃ s fields, S.table.get? owner = some s ∧ s.fields? = some fields := by
  obtain ⟨name, -, hfind⟩ := Option.bind_eq_some_iff.1 hid
  obtain ⟨s, hs, -, hc⟩ := h.find? hfind
  obtain ⟨fields, hf⟩ := Symbol.fields?_of_nameClass hc
  exact ⟨s, fields, hs, hf⟩

/-- What a location holds is a struct type. -/
theorem holds (h : S.Sound) {l l' : Location} {owner : SymbolId} (hl : Holds S l l' owner) :
    ∃ s fields, S.table.get? owner = some s ∧ s.fields? = some fields := by
  cases hl with
  | name _ hid | field _ _ hid => exact h.held? hid

/-- A field that is found leads to a scalar of that name. -/
theorem field? (h : S.Sound) {owner id : SymbolId} {name : String} (hid : S.field? owner name = some id) :
    S.table.Scalar (name, id) := by
  unfold ScopeStack.field? at hid
  simp only [Option.bind_eq_some_iff] at hid
  obtain ⟨fields, ⟨s, hs, hfields⟩, hget⟩ := hid
  refine h.table owner s fields hs hfields (name, id) ?_
  exact @Scope.mem_of_find? ⟨fields.entries, []⟩ .plain name id hget

end Sound

end ScopeStack

/-! ## Steps keep it -/

section
variable {S S' : ScopeStack} {fs : List (Finding NameIssue)}

theorem BindingStep.outer {b b' : Binding} (h : BindingStep S b b' S' fs) : S'.outer = S.outer := by
  cases h <;> rfl

theorem BindingStep.kept {b b' : Binding} (h : BindingStep S b b' S' fs) : S.table.Kept S'.table := by
  cases h with
  | void | unknownType | barred | taken => exact .refl _
  | declared => exact S.table.kept_push _

theorem BindingStep.sound {b b' : Binding} (h : BindingStep S b b' S' fs) (hS : S.Sound) : S'.Sound := by
  cases h with
  | void | unknownType | barred | taken => exact hS
  | declared _ _ _ hnew => exact hS.add hnew (by simp [Binding.symbol, Symbol.fields?])

/-- In a scope that only bindings are declared in, every plain name leads to a scalar. -/
theorem BindingStep.scalars {b b' : Binding} (h : BindingStep S b b' S' fs)
    (hS : ∀ e ∈ S.innermost.plain, S.table.Scalar e) :
    ∀ e ∈ S'.innermost.plain, S'.table.Scalar e := by
  cases h with
  | void | unknownType | barred | taken => exact hS
  | declared _ _ _ hnew =>
    intro e he
    rcases List.mem_cons.1 he with rfl | he
    · exact ⟨b.symbol, .ofRef b.type, S.table.get?_push _, rfl, rfl⟩
    · exact (hS e he).kept (S.table.kept_push _)

namespace BindingSteps
variable {bs bs' : List Binding}

theorem outer (h : BindingSteps S bs bs' S' fs) : S'.outer = S.outer :=
  Thread.preserves (P := fun T => T.outer = S.outer) (fun hb e => hb.outer.trans e) h rfl

theorem kept (h : BindingSteps S bs bs' S' fs) : S.table.Kept S'.table :=
  Thread.preserves (P := fun T => S.table.Kept T.table) (fun hb hk => hk.trans hb.kept) h (.refl _)

theorem sound (h : BindingSteps S bs bs' S' fs) (hS : S.Sound) : S'.Sound :=
  Thread.preserves (P := ScopeStack.Sound) BindingStep.sound h hS

theorem scalars (h : BindingSteps S.enter bs bs' S' fs) : ∀ e ∈ S'.innermost.plain, S'.table.Scalar e :=
  Thread.preserves (P := fun T => ∀ e ∈ T.innermost.plain, T.table.Scalar e) BindingStep.scalars h
    (by simp [ScopeStack.enter])

/-- After bindings in a scope of their own the scopes around it are sound with the new symbols. -/
theorem sound_left (h : BindingSteps S.enter bs bs' S' fs) (hS : S.Sound) :
    ({ S with table := S'.table } : ScopeStack).Sound where
  table := (h.sound hS.enter).table
  scopes scope hs := by
    refine (h.sound hS.enter).scopes scope (List.mem_cons_of_mem _ ?_)
    rw [h.outer]
    exact hs

end BindingSteps

theorem ScopeStack.findLocal?_eq_none {S : ScopeStack} {name : String} (h : S.hasLocal name = false)
    (cls : NameClass) : S.findLocal? cls name = none := by
  simp only [ScopeStack.hasLocal, Bool.or_eq_false_iff, Option.isSome_eq_false_iff,
    Option.isNone_iff_eq_none] at h
  cases cls
  · exact h.1
  · exact h.2

/-- Symbols are only added. -/
theorem ItemStep.kept {i i' : Item} (h : ItemStep S i i' S' fs) : S.table.Kept S'.table := by
  cases h with
  | function => exact S.table.kept_push _
  | binding hb => exact hb.kept
  | struct _ hfields => exact hfields.kept.trans (SymbolTable.kept_push _ _)
  | _ => exact .refl _

theorem ItemStep.sound {i i' : Item} (h : ItemStep S i i' S' fs) (hS : S.Sound) : S'.Sound := by
  cases h with
  | function hnew =>
    exact hS.add (S.findLocal?_eq_none hnew _) (by simp [Symbol.fields?])
  | binding hb => exact hb.sound hS
  | struct hnew hfields =>
    -- the fields are scalars in the table by the time the struct that lists them is added
    refine (hfields.sound_left hS).add (S.findLocal?_eq_none hnew _) fun fields hf e he => ?_
    cases hf
    exact hfields.scalars e (FieldTable.mem_ofList he)
  | _ => exact hS

theorem VisitStep.sound {v v' : Visit} (h : VisitStep S v v' S' fs) (hS : S.Sound) : S'.Sound := by
  cases h with
  | enter => exact hS.enter
  | leave => exact ⟨hS.table, fun scope hs => hS.scopes scope (List.mem_cons_of_mem _ hs)⟩
  | item hi => exact hi.sound hS

theorem VisitStep.kept {v v' : Visit} (h : VisitStep S v v' S' fs) : S.table.Kept S'.table := by
  cases h with
  | enter | leave => exact .refl _
  | item hi => exact hi.kept

theorem VisitSteps.kept {vs vs' : List Visit} (h : VisitSteps S vs vs' S' fs) : S.table.Kept S'.table :=
  Thread.preserves (P := fun T => S.table.Kept T.table) (fun hv hk => hk.trans hv.kept) h (.refl _)

theorem VisitSteps.sound {vs vs' : List Visit} (h : VisitSteps S vs vs' S' fs) (hS : S.Sound) : S'.Sound :=
  Thread.preserves (P := ScopeStack.Sound) VisitStep.sound h hS

end

end Namescope
