import Mathlib.Data.List.Forall2
import Namescope.Proofs.Naming.FieldTables
import Namescope.Proofs.Naming.Identifiers
/-!
# Walks that are alike

Names matter to the resolver only in whether they are equal, places only in that they are reported, and
symbols only in what the table says about them. So one walk may stand for another one with other names,
places and symbols, and whatever is looked up in the scopes of the one is found likewise in the other.
-/
namespace Namescope

/-- What stands in another walk for the names, places and symbols of this one. The place of a symbol in the table
is that of its identifier when it is declared, and is never read afterwards; so it may be left open for some. -/
structure Likeness where
  name : String → String
  span : Span → Span → Prop
  place : SymbolId → Span → Span → Prop
  id : SymbolId → SymbolId
  place_of_span : ∀ {i s t}, span s t → place i s t
  name_injective : Function.Injective name
  id_injective : Function.Injective id

/-- The relabelling of names alone. -/
def Likeness.renaming (ℓ : Likeness) : Relabel := { name := ℓ.name }

/-! ## Trees -/

section
variable (ℓ : Likeness)

/-- Identifiers that stand for each other. What name resolution has written at them does not count. -/
structure Ident.Alike (ident ident' : Ident) : Prop where
  name : ident'.name = ℓ.name ident.name
  span : ℓ.span ident.span ident'.span

/-- Types that stand for each other. -/
inductive TypeKind.Alike : TypeKind → TypeKind → Prop
  | int : Alike .int .int
  | bool : Alike .bool .bool
  | void : Alike .void .void
  | struct {name name'} : name.Alike ℓ name' → Alike (.struct name) (.struct name')

/-- Variables, formals or fields that stand for each other. -/
structure Binding.Alike (b b' : Binding) : Prop where
  type : b.type.kind.Alike ℓ b'.type.kind
  name : b.name.Alike ℓ b'.name

/-- Locations that stand for each other. -/
inductive Location.Alike : Location → Location → Prop
  | name {ident ident'} : ident.Alike ℓ ident' → Alike (.name ident) (.name ident')
  | field {base base' ident ident' resolved resolved'} : Alike base base' → ident.Alike ℓ ident' →
      Alike (.field base ident resolved) (.field base' ident' resolved')

/-- Items that stand for each other. -/
inductive Item.Alike : Item → Item → Prop
  | result {type type'} : type.kind.Alike ℓ type'.kind → Alike (.result type) (.result type')
  | function {name name' params result} : name.Alike ℓ name' →
      Alike (.function name params result)
        (.function name' (params.map (TypeName.relabel ℓ.renaming)) (result.relabel ℓ.renaming))
  | binding {b b'} : b.Alike ℓ b' → Alike (.binding b) (.binding b')
  | struct {s s'} : s.name.Alike ℓ s'.name → List.Forall₂ (Binding.Alike ℓ) s.fields s'.fields →
      Alike (.struct s) (.struct s')
  | place {l l'} : l.Alike ℓ l' → Alike (.place l) (.place l')
  | callee {ident ident'} : ident.Alike ℓ ident' → Alike (.callee ident) (.callee ident')

/-- Visits that stand for each other. -/
inductive Visit.Alike : Visit → Visit → Prop
  | enter : Alike .enter .enter
  | leave : Alike .leave .leave
  | item {i i'} : i.Alike ℓ i' → Alike (.item i) (.item i')

end

theorem TypeKind.Alike.ofRef {ℓ : Likeness} {type type' : TypeRef} (h : type.kind.Alike ℓ type'.kind) :
    TypeName.ofRef type' = (TypeName.ofRef type).relabel ℓ.renaming := by
  obtain ⟨kind, span⟩ := type
  obtain ⟨kind', span'⟩ := type'
  cases h with
  | int | bool | void => rfl
  | struct hname => exact congrArg TypeName.struct hname.name

theorem TypeKind.Alike.eq_void {ℓ : Likeness} {kind kind' : TypeKind} (h : kind.Alike ℓ kind') :
    kind' = .void ↔ kind = .void := by
  cases h <;> simp

/-! ## Trees that one relabelling makes the same -/

/-- Elements of equal shapes are related one by one if their parts are related all together. -/
theorem forall₂_of_flatMap {α β γ : Type} {f g : α → γ} {parts : α → List β} {R : β → β → Prop}
    {A : α → α → Prop} (hlength : ∀ {y x}, g y = f x → (parts y).length = (parts x).length)
    (hparts : ∀ {x y}, g y = f x → List.Forall₂ R (parts x) (parts y) → A x y) {xs ys : List α}
    (e : ys.map g = xs.map f) (h : List.Forall₂ R (xs.flatMap parts) (ys.flatMap parts)) :
    List.Forall₂ A xs ys := by
  induction xs generalizing ys with
  | nil =>
    rw [List.map_nil, List.map_eq_nil_iff] at e
    rw [e]
    exact .nil
  | cons x xs ih =>
    obtain ⟨y, ys, rfl, hxy, hmore⟩ := List.map_eq_cons_iff.1 e
    rw [List.flatMap_cons, List.flatMap_cons] at h
    have hfirst := List.forall₂_take (parts x).length h
    have hrest := List.forall₂_drop (parts x).length h
    rw [List.take_left, ← hlength hxy, List.take_left] at hfirst
    rw [List.drop_left, ← hlength hxy, List.drop_left] at hrest
    exact .cons (hparts hxy hfirst) (ih hmore hrest)

/-- The places of two identifiers stand for each other. -/
def Likeness.spans (ℓ : Likeness) (o o' : Occurrence) : Prop := ℓ.span o.ident.span o'.ident.span

section
variable {ℓ : Likeness} {g h : Relabel} (hname : ∀ {name name'}, g.name name' = h.name name → name' = ℓ.name name)
include hname

theorem Ident.alike {ident ident' : Ident} (e : ident'.relabel g = ident.relabel h)
    (hs : ℓ.span ident.span ident'.span) : ident.Alike ℓ ident' :=
  ⟨hname (Ident.mk.inj e).1, hs⟩

theorem TypeRef.alike {type type' : TypeRef} (e : type'.relabel g = type.relabel h)
    (hs : List.Forall₂ ℓ.spans type.occurrences type'.occurrences) : type.kind.Alike ℓ type'.kind := by
  obtain ⟨kind, span⟩ := type
  obtain ⟨kind', span'⟩ := type'
  have hkind := (TypeRef.mk.inj e).1
  cases kind with
  | int | bool | void =>
    cases kind' <;> first | constructor | cases hkind
  | struct name =>
    cases kind' with
    | struct name' =>
      obtain ⟨hspan, -⟩ := List.forall₂_cons.1 hs
      exact .struct (Ident.alike hname (TypeKind.struct.inj hkind) hspan)
    | _ => cases hkind

theorem Binding.alike {b b' : Binding} (e : b'.relabel g = b.relabel h)
    (hs : List.Forall₂ ℓ.spans b.occurrences b'.occurrences) : b.Alike ℓ b' := by
  obtain ⟨htype, hident, -⟩ := Binding.mk.inj e
  have hfirst := List.forall₂_take b.type.occurrences.length hs
  have hrest := List.forall₂_drop b.type.occurrences.length hs
  rw [occurrences, List.take_left, ← TypeRef.length_occurrences htype, occurrences, List.take_left] at hfirst
  rw [occurrences, List.drop_left, ← TypeRef.length_occurrences htype, occurrences, List.drop_left] at hrest
  obtain ⟨hspan, -⟩ := List.forall₂_cons.1 hrest
  exact ⟨TypeRef.alike hname htype hfirst, Ident.alike hname hident hspan⟩

theorem Location.alike {l l' : Location} (e : l'.relabel g = l.relabel h)
    (hs : List.Forall₂ ℓ.spans l.links l'.links) : l.Alike ℓ l' := by
  induction l generalizing l' with
  | name ident =>
    cases l' with
    | name ident' =>
      obtain ⟨hspan, -⟩ := List.forall₂_cons.1 hs
      exact .name (Ident.alike hname (Location.name.inj e) hspan)
    | field => cases e
  | field base ident resolved ih =>
    cases l' with
    | name => cases e
    | field base' ident' resolved' =>
      obtain ⟨hbase, hident, -⟩ := Location.field.inj e
      -- the last identifier of a chain is the one to compare first
      rw [links, links, ← List.forall₂_reverse_iff, List.reverse_append, List.reverse_append] at hs
      obtain ⟨hspan, hs⟩ := List.forall₂_cons.1 hs
      exact .field (ih hbase (List.forall₂_reverse_iff.1 hs)) (Ident.alike hname hident hspan)

theorem TypeName.eq_relabel {type type' : TypeName} (e : type'.relabel g = type.relabel h) :
    type' = type.relabel ℓ.renaming := by
  cases type with
  | int | bool | void => cases type' <;> first | rfl | cases e
  | struct name =>
    cases type' with
    | struct name' => exact congrArg TypeName.struct (hname (TypeName.struct.inj e))
    | _ => cases e

theorem TypeName.eq_map_relabel {types types' : List TypeName}
    (e : types'.map (TypeName.relabel g) = types.map (TypeName.relabel h)) :
    types' = types.map (TypeName.relabel ℓ.renaming) := by
  induction types generalizing types' with
  | nil => exact List.map_eq_nil_iff.1 e
  | cons type types ih =>
    obtain ⟨type', types', rfl, hfirst, hmore⟩ := List.map_eq_cons_iff.1 e
    rw [List.map_cons, TypeName.eq_relabel hname hfirst, ih hmore]

theorem Item.alike {i i' : Item} (e : i'.relabel g = i.relabel h)
    (hs : List.Forall₂ ℓ.spans i.occurrences i'.occurrences) : i.Alike ℓ i' := by
  cases i with
  | result type =>
    cases i' with
    | result type' => exact .result (TypeRef.alike hname (Item.result.inj e) hs)
    | _ => cases e
  | function name params result =>
    cases i' with
    | function name' params' result' =>
      obtain ⟨hident, hparams, hresult⟩ := Item.function.inj e
      obtain ⟨hspan, -⟩ := List.forall₂_cons.1 hs
      rw [TypeName.eq_map_relabel hname hparams, TypeName.eq_relabel hname hresult]
      exact .function (Ident.alike hname hident hspan)
    | _ => cases e
  | binding b =>
    cases i' with
    | binding b' => exact .binding (Binding.alike hname (Item.binding.inj e) hs)
    | _ => cases e
  | struct s =>
    cases i' with
    | struct s' =>
      obtain ⟨hident, hfields, -⟩ := StructDecl.mk.inj (Item.struct.inj e)
      obtain ⟨hspan, hs⟩ := List.forall₂_cons.1 hs
      refine .struct (Ident.alike hname hident hspan) ?_
      exact forall₂_of_flatMap Binding.length_occurrences (Binding.alike hname) hfields hs
    | _ => cases e
  | place l =>
    cases i' with
    | place l' =>
      have el := Item.place.inj e
      cases l with
      | name ident =>
        cases l' with
        | name ident' =>
          obtain ⟨hspan, -⟩ := List.forall₂_cons.1 hs
          exact .place (.name (Ident.alike hname (Location.name.inj el) hspan))
        | field => cases el
      | field base ident resolved =>
        cases l' with
        | name => cases el
        | field => exact .place (Location.alike hname el hs)
    | _ => cases e
  | callee ident =>
    cases i' with
    | callee ident' =>
      obtain ⟨hspan, -⟩ := List.forall₂_cons.1 hs
      exact .callee (Ident.alike hname (Item.callee.inj e) hspan)
    | _ => cases e

/-- Visits of one shape with names and places that stand for each other are alike. -/
theorem Visit.alike {vs ws : List Visit} (e : ws.map (Visit.relabel g) = vs.map (Visit.relabel h))
    (hs : List.Forall₂ ℓ.spans (vs.flatMap occurrences) (ws.flatMap occurrences)) :
    List.Forall₂ (Visit.Alike ℓ) vs ws := by
  refine forall₂_of_flatMap Visit.length_occurrences (fun {v w} hv hvs => ?_) e hs
  cases v with
  | enter | leave => cases w <;> first | constructor | cases hv
  | item i =>
    cases w with
    | item j => exact .item (Item.alike hname (Visit.item.inj hv) hvs)
    | _ => cases hv

/-- Programs of one shape with names and places that stand for each other are alike. -/
theorem Program.alike {p q : Program} (e : q.relabel g = p.relabel h)
    (hs : List.Forall₂ ℓ.spans p.occurrences q.occurrences) :
    List.Forall₂ (Visit.Alike ℓ) p.visits q.visits := by
  refine Visit.alike hname ?_ hs
  rw [← Program.visits_relabel, ← Program.visits_relabel, e]

end

/-! ## Symbols and scopes -/

/-- The kind of a symbol with other names and symbols in the place of its own. -/
def SymbolKind.map (kind : SymbolKind) (name : String → String) (id : SymbolId → SymbolId) : SymbolKind :=
  match kind with
  | .scalar type => .scalar (type.relabel { name })
  | .function params result =>
    .function (params.map (TypeName.relabel { name })) (result.relabel { name })
  | .struct fields => .struct (fields.map name id)

/-- A scope with other names and symbols in the place of its own. -/
def Scope.map (scope : Scope) (name : String → String) (id : SymbolId → SymbolId) : Scope where
  plain := scope.plain.map (Prod.map name id)
  structs := scope.structs.map (Prod.map name id)

namespace Scope
variable (scope : Scope) {name : String → String} (id : SymbolId → SymbolId)

theorem names_map (cls : NameClass) : (scope.map name id).names cls = (scope.names cls).map (Prod.map name id) := by
  cases cls <;> rfl

theorem map_bind (cls : NameClass) (key : String) (i : SymbolId) :
    (scope.bind cls key i).map name id = (scope.map name id).bind cls (name key) (id i) := by
  cases cls <;> rfl

theorem find?_map (hname : Function.Injective name) (cls : NameClass) (key : String) :
    (scope.map name id).find? cls (name key) = (scope.find? cls key).map id := by
  rw [find?, names_map, lookup_prodMap hname]
  rfl

theorem fieldTable_map (hname : Function.Injective name) (h : (scope.plain.map Prod.fst).Nodup) :
    (scope.map name id).fieldTable = scope.fieldTable.map name id :=
  FieldTable.ofList_map hname id h

end Scope

section
variable (ℓ : Likeness)

/-- Symbols that stand for each other, the first of them numbered `id`. -/
structure Symbol.Alike (id : SymbolId) (symbol symbol' : Symbol) : Prop where
  name : symbol'.name = ℓ.name symbol.name
  span : ℓ.place id symbol.span symbol'.span
  kind : symbol'.kind = symbol.kind.map ℓ.name ℓ.id

/-- Every symbol of one table stands for one of the other, and so will the symbols to come. -/
structure SymbolTable.Alike (table table' : SymbolTable) : Prop where
  symbols : ∀ id, Option.Rel (Symbol.Alike ℓ id) (table.get? id) (table'.get? (ℓ.id id))
  next : ∀ n, ℓ.id ⟨table.size + n⟩ = ⟨table'.size + n⟩

/-- The open scopes have names and symbols that stand for each other. -/
structure ScopeStack.Alike (S T : ScopeStack) : Prop where
  table : S.table.Alike ℓ T.table
  innermost : T.innermost = S.innermost.map ℓ.name ℓ.id
  outer : T.outer = S.outer.map (Scope.map · ℓ.name ℓ.id)

end

namespace Symbol.Alike
variable {ℓ : Likeness} {id : SymbolId} {s t : Symbol} (h : s.Alike ℓ id t)
include h

theorem nameClass : t.nameClass = s.nameClass := by
  rw [Symbol.nameClass, h.kind, Symbol.nameClass]
  cases s.kind <;> rfl

theorem isFunction : t.isFunction = s.isFunction := by
  rw [Symbol.isFunction, h.kind, Symbol.isFunction]
  cases s.kind <;> rfl

theorem type? : t.type? = s.type?.map (TypeName.relabel ℓ.renaming) := by
  rw [Symbol.type?, h.kind, Symbol.type?]
  cases s.kind <;> rfl

theorem fields? : t.fields? = s.fields?.map (FieldTable.map · ℓ.name ℓ.id) := by
  rw [Symbol.fields?, h.kind, Symbol.fields?]
  cases s.kind <;> rfl

end Symbol.Alike

theorem SymbolTable.get?_push_eq (table : SymbolTable) (symbol : Symbol) (id : SymbolId) :
    (table.push symbol).get? id = if id = table.nextId then some symbol else table.get? id := by
  obtain ⟨index⟩ := id
  simp only [get?, push, nextId, size, SymbolId.mk.injEq, List.getElem?_append]
  split
  · rename_i hlt
    rw [if_neg (Nat.ne_of_lt hlt)]
  · rename_i hge
    rw [List.getElem?_singleton, List.getElem?_eq_none (Nat.le_of_not_lt hge)]
    congr 1
    simp only [eq_iff_iff]
    omega

namespace SymbolTable.Alike
variable {ℓ : Likeness} {table table' : SymbolTable} (h : table.Alike ℓ table')
include h

theorem nextId : ℓ.id table.nextId = table'.nextId := h.next 0

theorem push {s t : Symbol} (hs : s.Alike ℓ table.nextId t) : (table.push s).Alike ℓ (table'.push t) where
  symbols id := by
    rw [get?_push_eq, get?_push_eq, ← h.nextId]
    by_cases hid : id = table.nextId
    · rw [if_pos hid, if_pos (congrArg ℓ.id hid), hid]
      exact .some hs
    · rw [if_neg hid, if_neg (ℓ.id_injective.ne hid)]
      exact h.symbols id
  next n := by
    have hsize (t : SymbolTable) (s : Symbol) : (t.push s).size + n = t.size + (n + 1) := by
      simp only [size, SymbolTable.push, List.length_append, List.length_singleton]
      omega
    rw [hsize, hsize, h.next]

/-- What is read off a symbol is read likewise off the symbol that stands for it. -/
theorem bind_get? {α β : Type} {read : Symbol → Option α} {read' : Symbol → Option β} {f : α → β}
    (hread : ∀ {id : SymbolId} {s t : Symbol}, s.Alike ℓ id t → read' t = (read s).map f) (id : SymbolId) :
    (table'.get? (ℓ.id id)).bind read' = ((table.get? id).bind read).map f := by
  have hsymbol := h.symbols id
  generalize table.get? id = found at hsymbol ⊢
  generalize table'.get? (ℓ.id id) = found' at hsymbol ⊢
  cases hsymbol with
  | none => rfl
  | some hs => exact hread hs

end SymbolTable.Alike

/-! ## Looking names up -/

namespace ScopeStack.Alike
variable {ℓ : Likeness} {S T : ScopeStack} (h : S.Alike ℓ T)
include h

theorem findLocal? (cls : NameClass) (name : String) :
    T.findLocal? cls (ℓ.name name) = (S.findLocal? cls name).map ℓ.id := by
  rw [ScopeStack.findLocal?, h.innermost, Scope.find?_map _ _ ℓ.name_injective, ScopeStack.findLocal?]

theorem find? (cls : NameClass) (name : String) : T.find? cls (ℓ.name name) = (S.find? cls name).map ℓ.id := by
  have hscopes : T.scopes = S.scopes.map (Scope.map · ℓ.name ℓ.id) := by
    rw [scopes, scopes, h.innermost, h.outer, List.map_cons]
  rw [ScopeStack.find?, ScopeStack.find?, hscopes, List.findSome?_map, List.map_findSome?]
  congr 1
  funext scope
  exact scope.find?_map ℓ.id ℓ.name_injective cls name

theorem hasLocal (name : String) : T.hasLocal (ℓ.name name) = S.hasLocal name := by
  rw [ScopeStack.hasLocal, h.findLocal?, h.findLocal?, Option.isSome_map, Option.isSome_map, ScopeStack.hasLocal]

theorem type? (id : SymbolId) : (T.table.get? (ℓ.id id)).bind Symbol.type? =
    ((S.table.get? id).bind Symbol.type?).map (TypeName.relabel ℓ.renaming) :=
  h.table.bind_get? Symbol.Alike.type? id

theorem held? (id : SymbolId) : T.held? (ℓ.id id) = (S.held? id).map ℓ.id := by
  rw [ScopeStack.held?, h.type?, ScopeStack.held?]
  cases (S.table.get? id).bind Symbol.type? with
  | none => rfl
  | some type =>
    cases type with
    | int | bool | void => rfl
    | struct name => exact h.find? .struct name

theorem noted? (id : SymbolId) : T.noted? (ℓ.id id) =
    ((S.table.get? id).bind Symbol.type?).map fun type => (type.relabel ℓ.renaming).display := by
  rw [ScopeStack.noted?, h.type?, Option.map_map]
  rfl

theorem field? (owner : SymbolId) (name : String) :
    T.field? (ℓ.id owner) (ℓ.name name) = (S.field? owner name).map ℓ.id := by
  rw [ScopeStack.field?, h.table.bind_get? Symbol.Alike.fields?, ScopeStack.field?]
  cases (S.table.get? owner).bind Symbol.fields? with
  | none => rfl
  | some fields => exact fields.get?_map ℓ.name_injective ℓ.id name

theorem function? (name : String) : T.function? (ℓ.name name) = (S.function? name).map ℓ.id := by
  rw [ScopeStack.function?, h.find?, ScopeStack.function?, Option.filter_map]
  congr 2
  funext id
  have hsymbol := h.table.symbols id
  generalize S.table.get? id = found at hsymbol ⊢
  simp only [Function.comp]
  generalize T.table.get? (ℓ.id id) = found' at hsymbol ⊢
  cases hsymbol with
  | none => rfl
  | some hs => exact hs.isFunction

theorem bars {b b' : Binding} (hb : b.Alike ℓ b') : T.bars b' = S.bars b := by
  have htype := hb.type
  rw [ScopeStack.bars, ScopeStack.bars, hb.name.name, h.findLocal?, Option.isSome_map]
  generalize b.type.kind = kind at htype ⊢
  generalize b'.type.kind = kind' at htype ⊢
  cases htype <;> rfl

/-! ### What is looked up for an identifier -/

section
variable {ident ident' : Ident} {cls : NameClass} {owner : SymbolId} {found : Option SymbolId}

theorem find?_eq (hident : ident.Alike ℓ ident') (e : S.find? cls ident.name = found) :
    T.find? cls ident'.name = found.map ℓ.id := by
  rw [hident.name, h.find?, e]

theorem findLocal?_eq (hident : ident.Alike ℓ ident') (e : S.findLocal? cls ident.name = found) :
    T.findLocal? cls ident'.name = found.map ℓ.id := by
  rw [hident.name, h.findLocal?, e]

theorem hasLocal_eq (hident : ident.Alike ℓ ident') {taken : Bool} (e : S.hasLocal ident.name = taken) :
    T.hasLocal ident'.name = taken := by
  rw [hident.name, h.hasLocal, e]

theorem field?_eq (hident : ident.Alike ℓ ident') (e : S.field? owner ident.name = found) :
    T.field? (ℓ.id owner) ident'.name = found.map ℓ.id := by
  rw [hident.name, h.field?, e]

theorem function?_eq (hident : ident.Alike ℓ ident') (e : S.function? ident.name = found) :
    T.function? ident'.name = found.map ℓ.id := by
  rw [hident.name, h.function?, e]

theorem held?_eq {id : SymbolId} (e : S.held? id = found) : T.held? (ℓ.id id) = found.map ℓ.id := by
  rw [h.held?, e]

end

/-! ## What a step does to the scopes -/

theorem enter : S.enter.Alike ℓ T.enter where
  table := h.table
  innermost := rfl
  outer := by rw [ScopeStack.enter, ScopeStack.enter, h.innermost, h.outer, List.map_cons]

theorem add {s t : Symbol} (hs : s.Alike ℓ S.table.nextId t) : (S.add s).Alike ℓ (T.add t) where
  table := h.table.push hs
  innermost := by
    rw [ScopeStack.add, ScopeStack.add, h.innermost, Scope.map_bind, hs.nameClass, hs.name, h.table.nextId]
  outer := h.outer

/-- The scopes around a scope that is left. -/
theorem within {table table' : SymbolTable} (htable : table.Alike ℓ table') :
    ScopeStack.Alike ℓ { S with table } { T with table := table' } :=
  ⟨htable, h.innermost, h.outer⟩

end ScopeStack.Alike

/-! ## Names that stand for themselves -/

theorem TypeName.relabel_name_id (type : TypeName) : type.relabel { name := id } = type := by
  cases type <;> rfl

/-- The kind of a symbol stays as it is if names and the symbols of fields do. -/
theorem SymbolKind.map_eq {kind : SymbolKind} {id : SymbolId → SymbolId}
    (h : ∀ fields, kind = .struct fields → ∀ e ∈ fields.entries, id e.2 = e.2) :
    kind.map (fun name => name) id = kind := by
  cases kind with
  | scalar type => exact congrArg SymbolKind.scalar type.relabel_name_id
  | function params result =>
    have hparams : params.map (TypeName.relabel { name := fun name => name }) = params :=
      (List.map_inj_left.2 fun type _ => type.relabel_name_id).trans params.map_id
    rw [map, hparams]
    exact congrArg (SymbolKind.function params) result.relabel_name_id
  | struct fields => exact congrArg SymbolKind.struct (FieldTable.map_eq fun e he => ⟨rfl, h fields rfl e he⟩)

/-- Every name, place and symbol stands for itself. -/
def Likeness.same : Likeness where
  name name := name
  span := Eq
  place _ := Eq
  id id := id
  place_of_span h := h
  name_injective _ _ h := h
  id_injective _ _ h := h

/-- A table in which every symbol stands for itself is the same table. -/
theorem SymbolTable.Alike.eq {table table' : SymbolTable} (h : table.Alike .same table') : table' = table := by
  obtain ⟨symbols⟩ := table
  obtain ⟨symbols'⟩ := table'
  congr 1
  refine List.ext_getElem? fun k => ?_
  have hsymbol : Option.Rel (Symbol.Alike .same ⟨k⟩) symbols[k]? symbols'[k]? := h.symbols ⟨k⟩
  generalize symbols[k]? = found at hsymbol ⊢
  generalize symbols'[k]? = found' at hsymbol ⊢
  cases hsymbol with
  | none => rfl
  | @some s t hs =>
    obtain ⟨name, kind, span⟩ := s
    obtain ⟨name', kind', span'⟩ := t
    have hkind : kind' = kind := hs.kind.trans (SymbolKind.map_eq fun _ _ _ _ => rfl)
    have hname : name' = name := hs.name
    have hspan : span = span' := hs.span
    rw [hkind, hname, hspan]

end Namescope
