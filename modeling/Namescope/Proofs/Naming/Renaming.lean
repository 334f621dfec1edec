import Namescope.Proofs.Naming.Stamps
/-!
# Other names, other places

No name is special to name resolution, and no place is: if the names of a program are replaced by others, equal
ones by equal ones and different ones by different ones, and its identifiers moved elsewhere, then all that
comes of it is the same but for these names and places.
-/
namespace Namescope

/-! ## Renamed programs -/

/-- The program `q` is `p` with other names, and its parts may stand anywhere. -/
def Program.RenamedTo (name : String → String) (p q : Program) : Prop :=
  q.relabel { span := fun _ => {} } = p.relabel { name, span := fun _ => {} }

/-- Replacing names and places of a program renames it. -/
theorem Program.renamedTo_relabel (name : String → String) (span : Span → Span) (p : Program) :
    p.RenamedTo name (p.relabel { name, span }) :=
  p.relabel_relabel _ _

/-- One identifier stands at `s` in `p` and at `t` in `q`. -/
def Program.Moved (p q : Program) (s t : Span) : Prop :=
  ∃ (k : Nat) (o o' : Occurrence),
    p.occurrences[k]? = some o ∧ q.occurrences[k]? = some o' ∧ o.ident.span = s ∧ o'.ident.span = t

/-- Where every place is replaced by a function of it, this says where a place is moved. -/
theorem Program.Moved.eq_relabel {name : String → String} {span : Span → Span} {p : Program} {s t : Span}
    (h : p.Moved (p.relabel { name, span }) s t) : t = span s := by
  obtain ⟨k, o, o', ho, ho', rfl, rfl⟩ := h
  rw [Program.occurrences_relabel, List.getElem?_map, ho, Option.map_some] at ho'
  cases ho'
  rw [Occurrence.relabel_ident]
  rfl

/-- A symbol renamed: its name, the structs in its type, the names of its fields. -/
structure Symbol.RenamedTo (rename : String → String) (s t : Symbol) : Prop where
  name : t.name = rename s.name
  kind : t.kind = s.kind.map rename fun id => id

/-- What stands at an identifier after an analysis, `o`, and what stands there after that of a renamed program,
`o'`: the same symbol; and beside a field the noted types that both came with, or else the declared type of the
symbol, renamed. -/
structure Occurrence.RenamedTo (name : String → String) (table : SymbolTable) (before o o' : Occurrence) : Prop where
  sym : o'.ident.sym = o.ident.sym
  resolved : before.role = .field →
    o.resolved = before.resolved ∧ o'.resolved = before.resolved ∨
      ∃ id type, o.ident.sym = some id ∧ (table.get? id).bind Symbol.type? = some type ∧
        o.resolved = some type.display ∧ o'.resolved = some (type.relabel { name }).display

/-- The analysis `b` of `q` is the analysis `a` of `p` with other names and places: the same issues in the same
order, the same symbols, and the same symbol at every identifier. -/
structure Analysis.RenamedTo (a : Analysis) (name : String → String) (p q : Program) (b : Analysis) : Prop where
  findings : List.Forall₂ (fun f g => g.issue = f.issue ∧ p.Moved q f.span g.span) a.findings b.findings
  table : ∀ id, Option.Rel (fun s t => s.RenamedTo name t ∧ p.Moved q s.span t.span) (a.table.get? id) (b.table.get? id)
  program : b.program.relabel { span := fun _ => {}, resolved := fun _ => none } =
    a.program.relabel { name, span := fun _ => {}, resolved := fun _ => none }
  identifiers : ∀ (k : Nat) (before : Occurrence), p.occurrences[k]? = some before → ∃ o o',
    a.program.occurrences[k]? = some o ∧ b.program.occurrences[k]? = some o' ∧ before.RenamedTo name a.table o o'

section
variable {name : String → String} {p q : Program}

theorem Program.RenamedTo.occurrences (h : p.RenamedTo name q) :
    q.occurrences.map (Occurrence.relabel { span := fun _ => {} }) =
      p.occurrences.map (Occurrence.relabel { name, span := fun _ => {} }) := by
  rw [← Program.occurrences_relabel, ← Program.occurrences_relabel, h]

theorem Program.RenamedTo.length_occurrences (h : p.RenamedTo name q) :
    p.occurrences.length = q.occurrences.length := by
  have hlength := congrArg List.length h.occurrences
  rw [List.length_map, List.length_map] at hlength
  exact hlength.symm

/-- How the walk over a renamed program is alike. -/
def Likeness.renamed (hname : Function.Injective name) (p q : Program) : Likeness where
  name := name
  span := p.Moved q
  place _ := p.Moved q
  id id := id
  place_of_span h := h
  name_injective := hname
  id_injective _ _ h := h

theorem Program.RenamedTo.alike (h : p.RenamedTo name q) (hname : Function.Injective name) :
    List.Forall₂ (Visit.Alike (.renamed hname p q)) p.visits q.visits := by
  refine Program.alike (fun e => e) h (List.forall₂_iff_get.2 ⟨h.length_occurrences, fun k hp hq => ?_⟩)
  exact ⟨k, _, _, List.getElem?_eq_getElem hp, List.getElem?_eq_getElem hq, rfl, rfl⟩

/-- Programs that come of renamed ones by changing what is written at identifiers only are renamed in the same way
if their identifiers are. -/
theorem Program.RenamedTo.eq_of_occurrences (h : p.RenamedTo name q) {p' q' : Program} (hp : p'.bare = p.bare)
    (hq : q'.bare = q.bare)
    (ho : q'.occurrences.map (Occurrence.relabel { span := fun _ => {}, resolved := fun _ => none }) =
      p'.occurrences.map (Occurrence.relabel { name, span := fun _ => {}, resolved := fun _ => none })) :
    q'.relabel { span := fun _ => {}, resolved := fun _ => none } =
      p'.relabel { name, span := fun _ => {}, resolved := fun _ => none } := by
  -- what is taken away in the end may be taken away first
  have hfirst (name : String → String) (p : Program) :
      (p.relabel { name, span := fun _ => {}, resolved := fun _ => none }).bare =
        p.bare.relabel { name, span := fun _ => {} } := by
    rw [bare, bare, relabel_relabel, relabel_relabel]
    rfl
  have hlast (name : String → String) (p : Program) :
      p.bare.relabel { name, span := fun _ => {} } = (p.relabel { name, span := fun _ => {} }).bare := by
    rw [bare, bare, relabel_relabel, relabel_relabel]
    rfl
  refine Program.eq_of_occurrences ?_ ?_
  · calc (q'.relabel { span := fun _ => {}, resolved := fun _ => none }).bare
        = q'.bare.relabel { span := fun _ => {} } := hfirst id q'
      _ = (q.relabel { span := fun _ => {} }).bare := by rw [hq]; exact hlast id q
      _ = (p.relabel { name, span := fun _ => {} }).bare := congrArg bare h
      _ = p'.bare.relabel { name, span := fun _ => {} } := by rw [hp]; exact (hlast name p).symm
      _ = (p'.relabel { name, span := fun _ => {}, resolved := fun _ => none }).bare := (hfirst name p').symm
  · rw [Program.occurrences_relabel, Program.occurrences_relabel, ho]

end

/-! ## Renamed stamps -/

/-- A relabelling that takes noted types away leaves the role and the identifier. -/
theorem Occurrence.relabel_unnoted {f : Relabel} (hf : f.resolved = fun _ => none) (o : Occurrence) :
    o.relabel f = ⟨o.role, o.ident.relabel f, none⟩ := by
  obtain ⟨role, ident, resolved⟩ := o
  cases role with
  | field => exact congrArg (Occurrence.mk .field (ident.relabel f)) (congrFun hf resolved)
  | _ => rfl

section
variable {name : String → String} {o o' : Occurrence}
  (h : o'.relabel { span := fun _ => {} } = o.relabel { name, span := fun _ => {} })
include h

theorem Occurrence.role_of_relabel : o'.role = o.role := by
  have hrole := congrArg role h
  rwa [relabel_role, relabel_role] at hrole

theorem Occurrence.ident_of_relabel : o'.ident.name = name o.ident.name ∧ o'.ident.sym = o.ident.sym := by
  have hident := congrArg ident h
  rw [relabel_ident, relabel_ident] at hident
  obtain ⟨hname, -, hsym⟩ := Ident.mk.inj hident
  exact ⟨hname, hsym⟩

theorem Occurrence.resolved_of_relabel (hfield : o.role = .field) : o'.resolved = o.resolved := by
  have hrole := Occurrence.role_of_relabel h
  obtain ⟨role, ident, resolved⟩ := o
  obtain ⟨role', ident', resolved'⟩ := o'
  obtain rfl : role = .field := hfield
  obtain rfl : role' = .field := hrole
  exact (Occurrence.mk.inj h).2.2

theorem Stamp.write_renamed {p q : Program} (hname : Function.Injective name) (stamp : Stamp) :
    ((stamp.map (.renamed hname p q)).write o').relabel { span := fun _ => {}, resolved := fun _ => none } =
      (stamp.write o).relabel { name, span := fun _ => {}, resolved := fun _ => none } := by
  have hrole := Occurrence.role_of_relabel h
  obtain ⟨hident, hsym⟩ := Occurrence.ident_of_relabel h
  rw [Occurrence.relabel_unnoted rfl, Occurrence.relabel_unnoted rfl]
  cases stamp with
  | keep => simp only [map, write, Ident.relabel, hrole, hident, hsym, id]
  | clear | mark | field => simp only [map, write, Ident.mark, Ident.relabel, hrole, hident, id, Likeness.renamed]

theorem Stamp.renamedTo {p q : Program} (hname : Function.Injective name) {stamp : Stamp} {table : SymbolTable}
    (hholds : stamp.Holds table) :
    o.RenamedTo name table (stamp.write o) ((stamp.map (.renamed hname p q)).write o') := by
  have hrole := Occurrence.role_of_relabel h
  have hresolved := Occurrence.resolved_of_relabel h
  cases stamp with
  | keep => exact ⟨(Occurrence.ident_of_relabel h).2, fun hfield => .inl ⟨rfl, hresolved hfield⟩⟩
  | clear | mark => exact ⟨rfl, fun hfield => .inl ⟨rfl, hresolved hfield⟩⟩
  | field id type =>
    refine ⟨rfl, fun hfield => .inr ⟨id, type, rfl, hholds, ?_, ?_⟩⟩
    · rw [write, if_pos hfield]
    · rw [map, write, if_pos (hrole.trans hfield)]
      rfl

end

/-! ## The analysis of a renamed program -/

/-- Whatever the names of a program are replaced by, as long as different ones stay different, and wherever its
identifiers are put, its analysis is the same with the new names and places. -/
theorem analyze_renamed {name : String → String} (hname : Function.Injective name) {p q : Program}
    (h : p.RenamedTo name q) :
    ∃ a b, analyze p = .ok a ∧ analyze q = .ok b ∧ a.RenamedTo name p q b := by
  obtain ⟨a, stamps, ha, hbare, hstamped, hholds, hlike⟩ := analyze_mirrors p
  obtain ⟨b, hb, hbare', hfindings, htable, hstamped'⟩ :=
    hlike (.renamed hname p q) q (fun _ => rfl) (h.alike hname)
  refine ⟨a, b, ha, hb, hfindings, fun id => ?_, ?_, fun k before hk => ?_⟩
  · have hsymbol : Option.Rel _ (a.table.get? id) (b.table.get? id) := htable.symbols id
    generalize a.table.get? id = found at hsymbol ⊢
    generalize b.table.get? id = found' at hsymbol ⊢
    cases hsymbol with
    | none => exact .none
    | some hs => exact .some ⟨⟨hs.name, hs.kind⟩, hs.span⟩
  · refine h.eq_of_occurrences hbare hbare' (hstamped.map_eq (fun stamp o o' ho => ?_) hstamped' h.occurrences)
    exact Stamp.write_renamed ho hname stamp
  · obtain ⟨stamp, hstamp, hafter⟩ := hstamped.getElem? hk
    have hk' := congrArg (·[k]?) h.occurrences
    simp only [List.getElem?_map, hk, Option.map_some, Option.map_eq_some_iff] at hk'
    obtain ⟨before', hk', hrelabel⟩ := hk'
    obtain ⟨stamp', hstamp', hafter'⟩ := hstamped'.getElem? hk'
    rw [List.getElem?_map, hstamp, Option.map_some] at hstamp'
    cases hstamp'
    exact ⟨_, _, hafter, hafter', Stamp.renamedTo hrelabel hname (hholds stamp (List.mem_of_getElem? hstamp))⟩

/-- A variable may even be named as if it were a struct. -/
theorem access_renamed :
    let prefixed : String → String := ("struct " ++ ·)
    let q := Program.access.relabel { name := prefixed, span := fun _ => ⟨3, 4, 1, 4⟩ }
    Function.Injective prefixed ∧ Program.access.RenamedTo prefixed q ∧
      ∃ a b, analyze Program.access = .ok a ∧ analyze q = .ok b ∧ a.RenamedTo prefixed Program.access q b ∧
        b.findings.length = 0 ∧
        b.table.symbols.map Symbol.name = ["struct x", "struct P", "struct p", "struct f", "struct a"] := by
  intro prefixed q
  have hprefixed : Function.Injective prefixed := fun _ _ h => (String.append_right_inj "struct ").1 h
  have hq : Program.access.RenamedTo prefixed q := Program.renamedTo_relabel _ _ _
  obtain ⟨a, b, ha, hb, hrenamed⟩ := analyze_renamed hprefixed hq
  have hrun : (analyze q).toOption.map (fun b => (b.findings.length, b.table.symbols.map Symbol.name)) =
      some (0, ["struct x", "struct P", "struct p", "struct f", "struct a"]) := by decide +kernel
  rw [hb] at hrun
  obtain ⟨hfindings, hnames⟩ := Prod.mk.inj (Option.some.inj hrun)
  exact ⟨hprefixed, hq, a, b, ha, hb, hrenamed, hfindings, hnames⟩

end Namescope
