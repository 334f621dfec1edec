import Namescope.Proofs.Naming.Stamps
import Namescope.Proofs.Tree.Words
/-!
# Symbols that are numbered higher

A table that has got some more symbols shifts all symbols to come by as many. What is written from then on is
shifted with them, and reads the same next to the new table.
-/
namespace Namescope

/-- The symbols from the `n`-th on, numbered higher by `k`. -/
def SymbolId.shift (n k : Nat) (id : SymbolId) : SymbolId := if id.index < n then id else ⟨id.index + k⟩

/-- The relabelling that shifts symbols. -/
def Relabel.shift (n k : Nat) : Relabel := { sym := Option.map (SymbolId.shift n k) }

section
variable {n k : Nat}

theorem SymbolId.shift_of_lt {id : SymbolId} (h : id.index < n) : id.shift n k = id := if_pos h

theorem SymbolId.shift_of_le {id : SymbolId} (h : n ≤ id.index) : id.shift n k = ⟨id.index + k⟩ :=
  if_neg (Nat.not_lt.2 h)

variable (n k) in
theorem SymbolId.shift_injective : Function.Injective (SymbolId.shift n k) := by
  have hindex (i : Nat) : (shift n k ⟨i⟩).index = if i < n then i else i + k := apply_ite index _ _ _
  rintro ⟨i⟩ ⟨j⟩ h
  have hij := congrArg index h
  rw [hindex, hindex] at hij
  congr 1
  split at hij <;> split at hij <;> omega

end

/-- Names and places stand for themselves, and symbols are shifted. -/
def Likeness.shift (n k : Nat) : Likeness where
  name name := name
  span := Eq
  place _ := Eq
  id := SymbolId.shift n k
  place_of_span h := h
  name_injective _ _ h := h
  id_injective := SymbolId.shift_injective n k

theorem Likeness.shift_id (n k : Nat) (id : SymbolId) : (shift n k).id id = id.shift n k := rfl

/-! ## Tables and scopes -/

theorem SymbolTable.get?_eq_none {table : SymbolTable} {id : SymbolId} (h : table.size ≤ id.index) :
    table.get? id = none :=
  List.getElem?_eq_none h

/-- A symbol of a sound table has no symbol that is shifted. -/
theorem SymbolTable.Sound.kind_shift {table : SymbolTable} (h : table.Sound) (k : Nat) {id : SymbolId} {s : Symbol}
    (hs : table.get? id = some s) : s.kind.map (fun name => name) (SymbolId.shift table.size k) = s.kind := by
  refine SymbolKind.map_eq fun fields hkind e he => SymbolId.shift_of_lt ?_
  have hfields : s.fields? = some fields := by rw [Symbol.fields?, hkind]
  obtain ⟨field, -, hfield, -, -⟩ := h id s fields hs hfields e he
  exact SymbolTable.lt_of_get? hfield

theorem SymbolTable.Sound.alike {table table' : SymbolTable} (h : table.Sound) (hk : table.Kept table') :
    table.Alike (.shift table.size (table'.size - table.size)) table' where
  symbols id := by
    cases hs : table.get? id with
    | some s =>
      have hid : id.shift table.size (table'.size - table.size) = id := SymbolId.shift_of_lt (lt_of_get? hs)
      rw [Likeness.shift_id, hid, hk id s hs]
      exact .some ⟨rfl, rfl, (h.kind_shift _ hs).symm⟩
    | none =>
      have hid : table.size ≤ id.index := List.getElem?_eq_none_iff.1 hs
      have hsize := hk.size_le
      rw [Likeness.shift_id, SymbolId.shift_of_le hid, get?_eq_none]
      · exact .none
      · dsimp only
        omega
  next m := by
    have hsize := hk.size_le
    rw [Likeness.shift_id, SymbolId.shift_of_le (Nat.le_add_right _ _)]
    congr 1
    dsimp only
    omega

theorem Scope.Sound.map_shift {table : SymbolTable} {scope : Scope} (h : scope.Sound table) (k : Nat) :
    scope.map (fun name => name) (SymbolId.shift table.size k) = scope := by
  have hnames (cls : NameClass) :
      (scope.names cls).map (Prod.map (fun name => name) (SymbolId.shift table.size k)) = scope.names cls := by
    refine (List.map_inj_left.2 fun e he => ?_).trans (scope.names cls).map_id
    obtain ⟨s, hs, -, -⟩ := h.bound cls e he
    exact Prod.ext rfl (SymbolId.shift_of_lt (SymbolTable.lt_of_get? hs))
  obtain ⟨plain, structs⟩ := scope
  exact congrArg₂ Scope.mk (hnames .plain) (hnames .struct)

/-- Scopes whose table has got more symbols are as they were, with the symbols to come shifted. -/
theorem ScopeStack.Sound.alike {S : ScopeStack} (h : S.Sound) {table : SymbolTable} (hk : S.table.Kept table) :
    S.Alike (.shift S.table.size (table.size - S.table.size)) { S with table } where
  table := h.table.alike hk
  innermost := ((h.scopes _ List.mem_cons_self).map_shift _).symm
  outer := by
    refine ((List.map_inj_left.2 fun scope hs => ?_).trans S.outer.map_id).symm
    exact (h.scopes scope (List.mem_cons_of_mem _ hs)).map_shift _

/-! ## Trees -/

section
variable {n k : Nat}

theorem Likeness.labels_shift : (Likeness.shift n k).Labels (.shift n k) :=
  ⟨fun _ => rfl, fun _ => rfl, rfl, fun _ => rfl⟩

/-- Where every identifier has no symbol or one that is not shifted, nothing is shifted. -/
theorem Occurrence.Bare.relabel_shift {o : Occurrence} (h : o.Bare) : o.relabel (.shift n k) = o := by
  obtain ⟨role, ⟨name, span, sym⟩, resolved⟩ := o
  obtain ⟨hsym, hresolved⟩ := h
  cases hsym
  cases hresolved
  cases role <;> rfl

theorem Occurrence.Sound.relabel_shift {table : SymbolTable} {o : Occurrence} (h : o.Sound table) :
    o.relabel (.shift table.size k) = o := by
  obtain ⟨role, ⟨name, span, sym⟩, resolved⟩ := o
  have hsym : sym.map (SymbolId.shift table.size k) = sym := by
    cases sym with
    | none => rfl
    | some id =>
      obtain ⟨s, hs, -, -⟩ := h.sym id rfl
      exact congrArg some (SymbolId.shift_of_lt (SymbolTable.lt_of_get? hs))
  have hresolved : role ≠ .field → resolved = none := fun hrole => by
    cases resolved with
    | none => rfl
    | some type => exact absurd (h.resolved type rfl).1 hrole
  have hident : Ident.relabel (.shift table.size k) ⟨name, span, sym⟩ = ⟨name, span, sym⟩ := by
    simp only [Ident.relabel, Relabel.shift, hsym, id]
  cases role with
  | field => exact congrArg (Occurrence.mk .field · resolved) hident
  | _ =>
    rw [hresolved (by decide)]
    exact congrArg (Occurrence.mk _ · none) hident

/-- Shifted stamps on bare identifiers leave shifted identifiers. -/
theorem Stamped.shift {stamps : List Stamp} {os us us' : List Occurrence} (h : Stamped stamps os us)
    (h' : Stamped (stamps.map (Stamp.map (.shift n k))) os us') (hbare : ∀ o ∈ os, o.Bare) :
    us' = us.map (Occurrence.relabel (.shift n k)) := by
  have hos : os.map (Occurrence.relabel (.shift n k)) = os :=
    (List.map_inj_left.2 fun o ho => (hbare o ho).relabel_shift).trans os.map_id
  exact h.relabel Likeness.labels_shift (hos.symm ▸ h')

/-- The shape of a program does not show that its symbols are shifted. -/
theorem Program.bare_relabel_shift (p : Program) : (p.relabel (.shift n k)).bare = p.bare := by
  rw [bare, relabel_relabel]
  rfl

/-- A program whose identifiers come to be shifted is shifted. -/
theorem Program.eq_relabel_shift {p q : Program} (h : q.bare = p.bare)
    (ho : q.occurrences = p.occurrences.map (Occurrence.relabel (.shift n k))) : q = p.relabel (.shift n k) := by
  refine Program.eq_of_occurrences (h.trans p.bare_relabel_shift.symm) ?_
  rw [ho, Program.occurrences_relabel]

end

/-! ## Texts -/

section
variable {n k : Nat} {table table' : SymbolTable}

theorem Symbol.Alike.display {id : SymbolId} {s t : Symbol} (h : s.Alike (.shift n k) id t) :
    t.display = s.display := by
  have hkind := h.kind
  obtain ⟨name, kind, span⟩ := s
  obtain ⟨name', kind', span'⟩ := t
  obtain rfl : kind' = _ := hkind
  cases kind with
  | scalar type => exact congrArg TypeName.display type.relabel_name_id
  | function params result =>
    have hparams : params.map (TypeName.relabel { name := fun name => name }) = params :=
      (List.map_inj_left.2 fun type _ => type.relabel_name_id).trans params.map_id
    simp only [Likeness.shift, SymbolKind.map, Symbol.display, hparams]
    exact congrArg _ (congrArg TypeName.display result.relabel_name_id)
  | struct fields => rfl

theorem SymbolTable.Alike.noteText (h : table.Alike (.shift n k) table') (note : Note) :
    Program.noteText table' (note.relabel (.shift n k)) = Program.noteText table note := by
  cases note with
  | type name => rfl
  | symbol id =>
    cases id with
    | none => rfl
    | some id =>
      have hsymbol : Option.Rel _ (table.get? id) (table'.get? (id.shift n k)) := h.symbols id
      simp only [Program.noteText, Note.relabel, Relabel.shift, Option.map_some, Option.bind_some]
      generalize table.get? id = found at hsymbol ⊢
      generalize table'.get? (id.shift n k) = found' at hsymbol ⊢
      cases hsymbol with
      | none => rfl
      | some hs => rw [Option.map_some, Option.map_some, hs.display]

/-- A program with shifted symbols reads the same next to the table that they are shifted for. -/
theorem SymbolTable.Alike.printAnnotated (h : table.Alike (.shift n k) table') (p : Program) :
    (p.relabel (.shift n k)).printAnnotated table' = p.printAnnotated table := by
  unfold Program.printAnnotated Program.text
  rw [p.words_relabel, List.flatMap_map]
  congr 2
  funext w
  rcases w with kind | text | note
  · cases kind <;> rfl
  · rfl
  · exact h.noteText note

end

end Namescope
