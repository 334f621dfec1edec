import Mathlib.Data.List.Nodup
import Namescope.Proofs.Naming.Soundness
/-!
# Tables of fields

A table of fields is kept in the order of their names, so it is determined by which fields it has. A table
made of a list has the fields of the list, and changing names or symbols may come before or after that.
-/
namespace Namescope

theorem lookup_prodMap {β : Type} {name : String → String} (hname : Function.Injective name) (f : β → β)
    (entries : List (String × β)) (key : String) :
    (entries.map (Prod.map name f)).lookup (name key) = (entries.lookup key).map f := by
  induction entries with
  | nil => rfl
  | cons e rest ih =>
    rw [List.map_cons, List.lookup_cons, List.lookup_cons, ih]
    by_cases hkey : key = e.1
    · simp [hkey]
    · have hne : name key ≠ name e.1 := hname.ne hkey
      simp [beq_eq_false_iff_ne.2 hkey, beq_eq_false_iff_ne.2 hne]

namespace FieldTable

/-- The table with other names and symbols in the place of its own. -/
def map (table : FieldTable) (name : String → String) (id : SymbolId → SymbolId) : FieldTable :=
  .ofList (table.entries.map (Prod.map name id))

theorem nodup_keys (table : FieldTable) : (table.entries.map Prod.fst).Nodup := by
  refine List.pairwise_map.2 (table.sorted.imp fun hlt heq => ?_)
  rw [heq] at hlt
  exact String.lt_irrefl _ hlt

/-- Tables of the same fields are the same. -/
theorem eq_of_perm {table table' : FieldTable} (h : table.entries.Perm table'.entries) : table = table' := by
  have e : table.entries = table'.entries :=
    h.eq_of_pairwise (fun _ _ _ _ hab hba => absurd (String.lt_trans hab hba) (String.lt_irrefl _))
      table.sorted table'.sorted
  cases table
  cases table'
  cases e
  rfl

theorem insertEntry_perm {name : String} (id : SymbolId) {entries : List (String × SymbolId)}
    (h : name ∉ entries.map Prod.fst) : (insertEntry name id entries).Perm ((name, id) :: entries) := by
  induction entries with
  | nil => exact .refl _
  | cons e rest ih =>
    simp only [List.map_cons, List.mem_cons, not_or] at h
    unfold insertEntry
    split
    · exact .refl _
    · rw [if_neg h.1]
      exact ((ih h.2).cons e).trans (.swap _ _ _)

/-- A table of listed fields has all of them, if every name is listed once. -/
theorem ofList_perm {entries : List (String × SymbolId)} (h : (entries.map Prod.fst).Nodup) :
    (ofList entries).entries.Perm entries := by
  have general : ∀ (l : List (String × SymbolId)) (table : FieldTable),
      (∀ e ∈ l, e.1 ∉ table.entries.map Prod.fst) → (l.map Prod.fst).Nodup →
      (l.foldl (fun t x => t.insert x.1 x.2) table).entries.Perm (l ++ table.entries) := by
    intro l
    induction l with
    | nil => exact fun _ _ _ => .refl _
    | cons x rest ih =>
      intro table hnew hnodup
      obtain ⟨hx, hrest⟩ := List.nodup_cons.1 hnodup
      obtain ⟨hxt, hnew⟩ := List.forall_mem_cons.1 hnew
      have hinsert : (table.insert x.1 x.2).entries.Perm (x :: table.entries) := insertEntry_perm x.2 hxt
      refine (ih (table.insert x.1 x.2) (fun e he hmem => ?_) hrest).trans ?_
      · rw [(hinsert.map Prod.fst).mem_iff, List.map_cons, List.mem_cons] at hmem
        rcases hmem with heq | hmem
        · exact hx (heq ▸ List.mem_map_of_mem he)
        · exact hnew e he hmem
      · exact (hinsert.append_left rest).trans List.perm_middle
  have hperm := general entries empty (fun _ _ => List.not_mem_nil) h
  rwa [show (empty : FieldTable).entries = [] from rfl, List.append_nil] at hperm

/-- A table is made of its own fields. -/
theorem ofList_entries (table : FieldTable) : ofList table.entries = table :=
  eq_of_perm (ofList_perm table.nodup_keys)

section
variable {name : String → String} (hname : Function.Injective name) (id : SymbolId → SymbolId)
include hname

theorem nodup_keys_map {entries : List (String × SymbolId)} (h : (entries.map Prod.fst).Nodup) :
    ((entries.map (Prod.map name id)).map Prod.fst).Nodup := by
  have e : (entries.map (Prod.map name id)).map Prod.fst = (entries.map Prod.fst).map name := by
    simp only [List.map_map]
    rfl
  rw [e]
  exact h.map hname

theorem map_perm (table : FieldTable) :
    (table.map name id).entries.Perm (table.entries.map (Prod.map name id)) :=
  ofList_perm (nodup_keys_map hname id table.nodup_keys)

/-- Whether the listed fields are changed before they make a table or after it comes to the same. -/
theorem ofList_map {entries : List (String × SymbolId)} (h : (entries.map Prod.fst).Nodup) :
    ofList (entries.map (Prod.map name id)) = (ofList entries).map name id := by
  refine eq_of_perm ((ofList_perm (nodup_keys_map hname id h)).trans ?_)
  exact (((ofList entries).map_perm hname id).trans ((ofList_perm h).map _)).symm

theorem get?_map (table : FieldTable) (key : String) :
    (table.map name id).get? (name key) = (table.get? key).map id := by
  rw [map, get?_ofList (nodup_keys_map hname id table.nodup_keys), lookup_prodMap hname]
  rfl

end

/-- A table stays as it is if its names and symbols do. -/
theorem map_eq {name : String → String} {id : SymbolId → SymbolId} {table : FieldTable}
    (h : ∀ e ∈ table.entries, name e.1 = e.1 ∧ id e.2 = e.2) : table.map name id = table := by
  have e : table.entries.map (Prod.map name id) = table.entries := by
    conv_rhs => rw [← List.map_id table.entries]
    exact List.map_inj_left.2 fun e he => Prod.ext (h e he).1 (h e he).2
  rw [map, e]
  exact ofList_entries table

end FieldTable

end Namescope
