import Namescope.Proofs.Naming.Stamps
import Namescope.Proofs.Token.Lines
/-!
# Programs in other places

A walk never looks at a place. Over a program that stands elsewhere it is the same walk, with each of its
places elsewhere; where the symbols from before were declared plays no part.
-/
namespace Namescope

/-- A symbol with another place. -/
def Symbol.mapSpan (f : Span → Span) (symbol : Symbol) : Symbol := { symbol with span := f symbol.span }

/-- Names and symbols stand for themselves, and places are put elsewhere by `f`, but those of the first `n`
symbols are left open. -/
def Likeness.moved (f : Span → Span) (n : Nat) : Likeness where
  name name := name
  span s t := t = f s
  place id s t := id.index < n ∨ t = f s
  id id := id
  place_of_span := .inr
  name_injective _ _ h := h
  id_injective _ _ h := h

/-! ## Labels that stay -/

theorem TypeRef.occurrences_same (type : TypeRef) : ∀ o ∈ type.occurrences, o.relabel {} = o := by
  intro o ho
  obtain ⟨kind, span⟩ := type
  cases kind with
  | struct name =>
    obtain rfl := List.mem_singleton.1 ho
    rfl
  | int | bool | void => cases ho

theorem Location.links_same : ∀ l : Location, ∀ o ∈ l.links, o.relabel {} = o
  | .name ident, o, ho => by
    obtain rfl := List.mem_singleton.1 ho
    rfl
  | .field base _ _, o, ho => Location.forall_links base.links_same rfl o ho

/-- Only beside fields types are noted, so relabelling leaves nothing out. -/
theorem Item.occurrences_same (i : Item) : ∀ o ∈ i.occurrences, o.relabel {} = o := by
  intro o ho
  cases i with
  | result type => exact type.occurrences_same o ho
  | binding b => exact Binding.forall_occurrences b.type.occurrences_same rfl o ho
  | struct s =>
    exact StructDecl.forall_occurrences (P := fun o => o.relabel {} = o) rfl
      (fun b _ => Binding.forall_occurrences b.type.occurrences_same rfl) o ho
  | function | callee =>
    obtain rfl := List.mem_singleton.1 ho
    rfl
  | place l =>
    cases l with
    | name ident =>
      obtain rfl := List.mem_singleton.1 ho
      rfl
    | field base ident resolved => exact (Location.field base ident resolved).links_same o ho

/-- A relabelling that changes no label changes no program. -/
theorem Program.relabel_same (p : Program) : p.relabel {} = p := by
  refine Program.eq_of_occurrences (p.relabel_relabel .bare {}) ?_
  rw [occurrences_relabel]
  refine (List.map_inj_left.2 fun o ho => ?_).trans p.occurrences.map_id
  obtain ⟨v, -, ho⟩ := List.mem_flatMap.1 ho
  cases v with
  | enter | leave => cases ho
  | item i => exact i.occurrences_same o ho

section
variable {f : Span → Span} {n : Nat}

/-! ## Trees -/

theorem Program.bare_relabel_span (p : Program) : (p.relabel { span := f }).bare = p.bare.relabel { span := f } := by
  rw [bare, bare, relabel_relabel, relabel_relabel]
  rfl

/-- Programs that come of a program and of its copy elsewhere by changing what is written at identifiers only are
copies of each other if their identifiers are. -/
theorem Program.eq_relabel_span {p p' q' : Program} (hp : p'.bare = p.bare)
    (hq : q'.bare = (p.relabel { span := f }).bare)
    (ho : q'.occurrences = p'.occurrences.map (Occurrence.relabel { span := f })) :
    q' = p'.relabel { span := f } := by
  refine Program.eq_of_occurrences ?_ (by rw [ho, occurrences_relabel])
  rw [hq, bare_relabel_span, bare_relabel_span, hp]

theorem Program.alike_moved (p : Program) (f : Span → Span) (n : Nat) :
    List.Forall₂ (Visit.Alike (.moved f n)) p.visits (p.relabel { span := f }).visits := by
  refine Program.alike (ℓ := .moved f n) (g := .bare) (h := Relabel.bare.comp { span := f }) (fun e => e)
    (p.relabel_relabel .bare { span := f }) ?_
  rw [occurrences_relabel, List.forall₂_map_right_iff]
  refine List.forall₂_same.2 fun o _ => ?_
  rw [Likeness.spans, Occurrence.relabel_ident]
  rfl

theorem Likeness.labels_moved : (Likeness.moved f n).Labels { span := f } :=
  ⟨fun _ => rfl, fun _ => rfl, rfl, fun _ => rfl⟩

/-! ## Tables -/

namespace SymbolTable
variable {table table' : SymbolTable}

/-- What a table that goes on had at first, and what it has got. -/
theorem Kept.append (h : table.Kept table') :
    table'.symbols = table.symbols ++ table'.symbols.drop table.size := by
  refine List.ext_getElem? fun k => ?_
  rcases Nat.lt_or_ge k table.size with hk | hk
  · rw [List.getElem?_append_left hk, List.getElem?_eq_getElem hk]
    exact h ⟨k⟩ _ (List.getElem?_eq_getElem hk)
  · rw [List.getElem?_append_right hk, List.getElem?_drop]
    congr 1
    exact (Nat.add_sub_cancel' hk).symm

namespace Alike

theorem size_moved (h : table.Alike (.moved f n) table') : table'.size = table.size :=
  (SymbolId.mk.inj (h.next 0)).symm

/-- The symbols from the `n`-th on are elsewhere. -/
theorem drop_moved (h : table.Alike (.moved f n) table') :
    table'.symbols.drop n = (table.symbols.drop n).map (Symbol.mapSpan f) := by
  refine List.ext_getElem? fun k => ?_
  have hsymbol : Option.Rel _ table.symbols[n + k]? table'.symbols[n + k]? := h.symbols ⟨n + k⟩
  rw [List.getElem?_map, List.getElem?_drop, List.getElem?_drop]
  generalize table.symbols[n + k]? = found at hsymbol ⊢
  generalize table'.symbols[n + k]? = found' at hsymbol ⊢
  cases hsymbol with
  | none => rfl
  | @some s t hs =>
    obtain ⟨name, kind, span⟩ := s
    obtain ⟨name', kind', span'⟩ := t
    have hkind : kind' = kind := hs.kind.trans (SymbolKind.map_eq fun _ _ _ _ => rfl)
    have hname : name' = name := hs.name
    have hspan : span' = f span := hs.span.resolve_left (Nat.not_lt.2 (Nat.le_add_right n k))
    rw [hkind, hname, hspan]
    rfl

/-- Once they are declared, symbols may be anywhere. -/
theorem moved_on (h : table.Alike (.moved f n) table') (g : Span → Span) :
    table.Alike (.moved g table.size) table' where
  symbols id := by
    have hdeclared : ∀ s, table.get? id = some s → id.index < table.size := fun _ => lt_of_get?
    have hsymbol : Option.Rel (Symbol.Alike (.moved f n) id) (table.get? id) (table'.get? id) := h.symbols id
    show Option.Rel _ (table.get? id) (table'.get? id)
    generalize table.get? id = found at hdeclared hsymbol ⊢
    generalize table'.get? id = found' at hsymbol ⊢
    cases hsymbol with
    | none => exact .none
    | some hs => exact .some ⟨hs.name, .inl (hdeclared _ rfl), hs.kind⟩
  next := h.next

end Alike

end SymbolTable

/-- Scopes whose symbols may be anywhere. -/
theorem ScopeStack.Alike.moved_on {S T : ScopeStack} (h : S.Alike (.moved f n) T) (g : Span → Span) :
    S.Alike (.moved g S.table.size) T :=
  ⟨h.table.moved_on g, h.innermost, h.outer⟩

/-! ## Walks -/

/-- From scopes that are the same but for places, a program that stands elsewhere is walked over as if it did
not, and what it gets is there, too. -/
theorem Program.steps_moved {S S' T : ScopeStack} {p p' : Program} {fs : List (Finding NameIssue)}
    (h : VisitSteps S p.visits p'.visits S' fs) (hp : p'.bare = p.bare) (hS : S.Sound) (hT : T.Sound)
    (halike : S.Alike (.moved f n) T) : ∃ T', S'.Alike (.moved f n) T' ∧
      VisitSteps T (p.relabel { span := f }).visits (p'.relabel { span := f }).visits T'
        (fs.map (Finding.mapSpan f)) := by
  obtain ⟨stamps, hstamped, -, hlike⟩ := h.mirrors hS
  obtain ⟨ws, T', gs, hsteps, hfound, hT', hstamped'⟩ := hlike _ T _ halike (p.alike_moved f n)
  obtain rfl : gs = fs.map (Finding.mapSpan f) := Likeness.findings_map (fun h => h) hfound
  -- the visits leave no choice, so the walk over the copy is the alike walk
  obtain ⟨q', T'', us, gs', -, hsteps', -, rfl, hq⟩ := Resolve.follows_program (p.relabel { span := f }) T hT
  obtain ⟨rfl, rfl, rfl⟩ := hsteps.unique hsteps'
  refine ⟨T', hT', ?_⟩
  have hoccurrences : q'.occurrences = p'.occurrences.map (Occurrence.relabel { span := f }) := by
    rw [Program.visits_relabel, Visit.flatMap_occurrences_relabel] at hstamped'
    exact hstamped.relabel Likeness.labels_moved hstamped'
  rw [← Program.eq_relabel_span hp hq hoccurrences]
  exact hsteps

end

end Namescope
