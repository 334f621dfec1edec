import Namescope.Proofs.Naming.Trees
import Namescope.Proofs.Naming.Views
/-!
# Lexical scoping

A use of a plain name means the declaration of it in the innermost scope around the use that has one
before the use. A declaration counts if it was recorded, which is so exactly if its scope did not have the
name yet and its type is known, and has a symbol of its own. A use that means nothing is reported, once and
in its place.
-/
namespace Namescope

/-! ## Uses of plain names -/

/-- Whether a declaration was given a symbol. -/
def Declaration.recorded (d : Declaration) : Bool := d.ident.sym.isSome

/-- The first name of a location. -/
def Location.first : Location → Ident
  | .name ident => ident
  | .field base _ _ => base.first

/-- A plain name that is used: a variable, the first name of a chain, or the name of a called function. -/
structure Use where
  context : Context
  ident : Ident
  called : Bool

/-- The plain name that is used at a site. -/
def Site.use? (s : Site) : Option Use :=
  match s.item with
  | .place l => some ⟨s.context, l.first, false⟩
  | .callee ident => some ⟨s.context, ident, true⟩
  | _ => none

/-- The uses of plain names in a program in order. -/
def Program.uses (p : Program) : List Use := p.sites.filterMap Site.use?

/-- What a used name means: the recorded declaration that it sees, which must be a function if it is
called. -/
def Use.selected? (u : Use) : Option Declaration :=
  (u.context.visible? Declaration.recorded .plain u.ident.name).filter fun d => !u.called || d.isFunction

/-- A use that means nothing. -/
def Use.finding (u : Use) : Finding NameIssue := ⟨.undeclared, u.ident.span⟩

/-- The findings that say that a name is not declared. -/
def undeclaredIn (fs : List (Finding NameIssue)) : List (Finding NameIssue) :=
  fs.filter (·.issue = .undeclared)

theorem undeclaredIn_append (fs gs : List (Finding NameIssue)) :
    undeclaredIn (fs ++ gs) = undeclaredIn fs ++ undeclaredIn gs :=
  List.filter_append ..

/-- A symbol is the one of a declaration. -/
def SymbolTable.Declares (table : SymbolTable) (id : SymbolId) (d : Declaration) : Prop :=
  ∃ s, table.get? id = some s ∧ s.name = d.ident.name ∧ s.span = d.ident.span ∧
    s.isFunction = d.isFunction

/-- What is right about a site: what is declared there is recorded exactly if the context admits it, its
symbol is in the table, and a used name has the symbol of the declaration that it means. -/
structure Site.Scoped (table : SymbolTable) (s : Site) : Prop where
  recorded : ∀ d ∈ s.item.declarations, d.recorded ↔ s.context.Admits Declaration.recorded d
  declares : ∀ d ∈ s.item.declarations, ∀ id, d.ident.sym = some id → table.Declares id d
  selected : ∀ u, s.use? = some u → u.ident.sym = u.selected?.bind (·.ident.sym)

/-- The symbols of what is declared at a site. -/
def Site.symbols (s : Site) : List SymbolId := s.item.declarations.filterMap (·.ident.sym)

/-! ## New symbols -/

/-- Symbols that a table has and an earlier one had not, each listed once. -/
structure SymbolTable.Fresh (table table' : SymbolTable) (ids : List SymbolId) : Prop where
  range : ∀ id ∈ ids, table.size ≤ id.index ∧ id.index < table'.size
  nodup : ids.Nodup

namespace SymbolTable.Fresh
variable {table table₁ table₂ : SymbolTable}

theorem nil : Fresh table table₁ [] where
  range id hid := by cases hid
  nodup := .nil

theorem push (hk : table.Kept table₁) (symbol : Symbol) :
    Fresh table (table₁.push symbol) [table₁.nextId] where
  range id hid := by
    obtain rfl := List.mem_singleton.1 hid
    refine ⟨hk.size_le, ?_⟩
    rw [SymbolTable.size, SymbolTable.push, List.length_append]
    exact Nat.lt_succ_self _
  nodup := by simp

theorem append {ids ids' : List SymbolId} (hk : table.Kept table₁) (hk' : table₁.Kept table₂)
    (h : Fresh table table₁ ids) (h' : Fresh table₁ table₂ ids') : Fresh table table₂ (ids ++ ids') where
  range id hid := by
    have hsize := hk.size_le
    have hsize' := hk'.size_le
    rcases List.mem_append.1 hid with hid | hid
    · have := h.range id hid
      omega
    · have := h'.range id hid
      omega
  nodup := by
    refine List.nodup_append.2 ⟨h.nodup, h'.nodup, ?_⟩
    rintro id hid _ hid' rfl
    have := h.range id hid
    have := h'.range id hid'
    omega

end SymbolTable.Fresh

/-! ## What the scopes know of recorded declarations -/

theorem SymbolTable.Declares.kept {table table' : SymbolTable} {id : SymbolId} {d : Declaration}
    (hk : table.Kept table') : table.Declares id d → table'.Declares id d := by
  rintro ⟨s, hs, hd⟩
  exact ⟨s, hk _ _ hs, hd⟩

/-- Only recorded declarations count, and each stands for its own symbol. -/
def View.recorded : View where
  counts := Declaration.recorded
  denotes table id d := d.ident.sym = some id ∧ table.Declares id d
  kept hk h := ⟨h.1, h.2.kept hk⟩

section
variable {S S' : ScopeStack} {Γ : Context} {fs : List (Finding NameIssue)}

/-- A plain name has the symbol of the recorded declaration that it sees. -/
theorem ScopeStack.Shows.plain_symbol (hΓ : S.Shows .recorded Γ) (name : String) :
    S.find? .plain name = (Γ.visible? Declaration.recorded .plain name).bind (·.ident.sym) := by
  have hfound := hΓ.find? .plain name
  change Option.Rel _ _ (Γ.visible? Declaration.recorded .plain name) at hfound
  generalize S.find? .plain name = found at hfound
  generalize Γ.visible? Declaration.recorded .plain name = found' at hfound
  cases hfound with
  | none => rfl
  | some hd => exact hd.1.symm

/-- The name of a called function has the symbol of the recorded function that it sees. -/
theorem ScopeStack.Shows.function_symbol (hΓ : S.Shows .recorded Γ) (name : String) :
    S.function? name =
      ((Γ.visible? Declaration.recorded .plain name).filter Declaration.isFunction).bind (·.ident.sym) := by
  have hfound := hΓ.find? .plain name
  change Option.Rel _ _ (Γ.visible? Declaration.recorded .plain name) at hfound
  unfold ScopeStack.function?
  generalize S.find? .plain name = found at hfound
  generalize Γ.visible? Declaration.recorded .plain name = found' at hfound
  cases hfound with
  | none => rfl
  | @some id d hd =>
    obtain ⟨hid, s, hs, -, -, hfunction⟩ := hd
    simp only [Option.filter_some, hs, Option.any_some, hfunction]
    cases d.isFunction with
    | false => rfl
    | true => exact hid.symm

theorem Location.bare_first : ∀ l : Location, l.relabel .bare = l → l.first.sym = none
  | .name _, h => (congrArg (·.sym) (Location.name.inj h)).symm
  | .field base _ _, h => base.bare_first (Location.field.inj h).1

/-- What is found out about the first name of a location: it means nothing, which is the one finding that
says so, or it has the symbol that it means. -/
def MarksFirst (S : ScopeStack) (l l' : Location) (fs : List (Finding NameIssue)) : Prop :=
  S.find? .plain l.first.name = none ∧ l'.first = l.first ∧ undeclaredIn fs = [⟨.undeclared, l.first.span⟩] ∨
    ∃ id, S.find? .plain l.first.name = some id ∧ l'.first = l.first.mark id ∧ undeclaredIn fs = []

theorem Holds.first {l l' : Location} {owner : SymbolId} (h : Holds S l l' owner) :
    MarksFirst S l l' [] := by
  induction h with
  | name hid => exact .inr ⟨_, hid, rfl, rfl⟩
  | field _ _ _ ih => exact ih

theorem MarksFirst.note {l l' : Location} (h : MarksFirst S l l' []) {f : Finding NameIssue}
    (hf : f.issue ≠ .undeclared) : MarksFirst S l l' [f] := by
  have hnone : undeclaredIn [f] = [] := by simp [undeclaredIn, hf]
  rcases h with ⟨_, _, hfs⟩ | ⟨id, hid, hfirst, -⟩
  · cases hfs
  · exact .inr ⟨id, hid, hfirst, hnone⟩

theorem Fails.first {l l' : Location} {f : Finding NameIssue} (h : Fails S l l' f) :
    MarksFirst S l l' [f] := by
  induction h with
  | undeclared hid => exact .inl ⟨hid, rfl, rfl⟩
  | scalar hid => exact .inr ⟨_, hid, rfl, rfl⟩
  | inner _ ih => exact ih
  | noField hbase => exact hbase.first.note (by simp)
  | scalarField hbase => exact hbase.first.note (by simp)

theorem ItemStep.place {l : Location} {i' : Item} (h : ItemStep S (.place l) i' S' fs) :
    S' = S ∧ ∃ l', i' = .place l' ∧ MarksFirst S l l' fs := by
  cases h with
  | used hid => exact ⟨rfl, _, rfl, .inr ⟨_, hid, rfl, rfl⟩⟩
  | undeclared hid => exact ⟨rfl, _, rfl, .inl ⟨hid, rfl, rfl⟩⟩
  | chain hbase => exact ⟨rfl, _, rfl, hbase.first⟩
  | noField hbase => exact ⟨rfl, _, rfl, hbase.first.note (by simp)⟩
  | broken hbase => exact ⟨rfl, _, rfl, hbase.first⟩

/-! ## Steps -/

/-- What is found at a site says that a name is not declared exactly if a name is used there that means
nothing. -/
def Site.undeclared (s : Site) : List (Finding NameIssue) :=
  (s.use?.toList.filter (·.selected?.isNone)).map Use.finding

/-- The symbol that a use means is that of a declaration, so there is none only if nothing is meant. -/
theorem Use.selected?_isNone (u : Use) :
    u.selected?.isNone = (u.selected?.bind (·.ident.sym)).isNone := by
  cases h : u.selected? with
  | none => rfl
  | some d =>
    obtain ⟨hd, -⟩ := Option.filter_eq_some_iff.1 h
    obtain ⟨scope, -, hfind⟩ := List.exists_of_findSome?_eq_some hd
    have hrecorded := List.find?_some hfind
    simp only [Bool.and_eq_true, Declaration.recorded] at hrecorded
    obtain ⟨id, hid⟩ := Option.isSome_iff_exists.1 hrecorded.1
    simp [hid]

theorem Use.selected?_of_not_called (Γ : Context) (ident : Ident) :
    (Use.mk Γ ident false).selected? = Γ.visible? Declaration.recorded .plain ident.name := by
  unfold Use.selected?
  cases Γ.visible? Declaration.recorded .plain ident.name <;> rfl

/-- A site where a name is used is right if the name has the symbol that it means. -/
theorem Site.scoped_of_use {s : Site} {u : Use} (table : SymbolTable) (hu : s.use? = some u)
    (hsym : u.ident.sym = u.selected?.bind (·.ident.sym)) :
    s.Scoped table ∧ s.undeclared = if u.ident.sym.isNone then [u.finding] else [] := by
  have hnone : s.item.declarations = [] := by
    unfold Site.use? at hu
    cases hitem : s.item <;> rw [hitem] at hu <;> first | rfl | cases hu
  refine ⟨⟨?_, ?_, ?_⟩, ?_⟩
  · rw [hnone]
    intro d hd
    cases hd
  · rw [hnone]
    intro d hd
    cases hd
  · intro u' hu'
    cases hu.symm.trans hu'
    exact hsym
  · rw [Site.undeclared, hu, hsym, ← Use.selected?_isNone, Option.toList_some]
    cases h : u.selected?.isNone <;> simp [h]

theorem ItemStep.place_scoped {l : Location} {i' : Item} (h : ItemStep S (.place l) i' S' fs)
    (hΓ : S.Shows .recorded Γ) (hl : l.first.sym = none) (table : SymbolTable) :
    Site.Scoped table ⟨Γ, i'⟩ ∧ undeclaredIn fs = Site.undeclared ⟨Γ, i'⟩ := by
  -- fields are no uses of plain names, so only the first name of a chain matters here
  obtain ⟨rfl, l', rfl, hfirst⟩ := h.place
  have hname : l'.first.name = l.first.name := by
    rcases hfirst with ⟨-, e, -⟩ | ⟨id, -, e, -⟩ <;> simp [e, Ident.mark]
  have hsym : l'.first.sym = (Use.mk Γ l'.first false).selected?.bind (·.ident.sym) := by
    rw [Use.selected?_of_not_called, hname, ← hΓ.plain_symbol]
    rcases hfirst with ⟨hid, e, -⟩ | ⟨id, hid, e, -⟩
    · rw [e, hl, hid]
    · rw [e, hid]
      rfl
  obtain ⟨hscoped, hundeclared⟩ := Site.scoped_of_use (s := ⟨Γ, .place l'⟩) table rfl hsym
  refine ⟨hscoped, ?_⟩
  rw [hundeclared]
  rcases hfirst with ⟨-, e, hfs⟩ | ⟨id, -, e, hfs⟩
  · rw [hfs, e, hl]
    rfl
  · rw [hfs, e]
    rfl

theorem ItemStep.callee_scoped {ident : Ident} {i' : Item} (h : ItemStep S (.callee ident) i' S' fs)
    (hΓ : S.Shows .recorded Γ) (hident : ident.sym = none) (table : SymbolTable) :
    Site.Scoped table ⟨Γ, i'⟩ ∧ undeclaredIn fs = Site.undeclared ⟨Γ, i'⟩ := by
  have hmeans : ∀ ident' : Ident, ident'.name = ident.name →
      (Use.mk Γ ident' true).selected?.bind (·.ident.sym) = S.function? ident.name := by
    intro ident' hname
    rw [hΓ.function_symbol, ← hname]
    simp [Use.selected?]
  cases h with
  | @callee _ id hid =>
    obtain ⟨hscoped, hundeclared⟩ := Site.scoped_of_use (s := ⟨Γ, .callee (ident.mark id)⟩)
      (u := ⟨Γ, ident.mark id, true⟩) table rfl ((hmeans _ rfl).trans hid).symm
    exact ⟨hscoped, hundeclared.symm⟩
  | noFunction hid =>
    obtain ⟨hscoped, hundeclared⟩ := Site.scoped_of_use (s := ⟨Γ, .callee ident⟩)
      (u := ⟨Γ, ident, true⟩) table rfl (hident.trans ((hmeans _ rfl).trans hid).symm)
    refine ⟨hscoped, ?_⟩
    rw [hundeclared, hident]
    rfl

/-- What a step that declares must have done: the declaration is recorded if the context admits it, its
symbol is in the table, and the scopes show it. -/
structure Records (S' : ScopeStack) (Γ : Context) (d : Declaration) (fs : List (Finding NameIssue)) : Prop where
  recorded : d.recorded ↔ Γ.Admits Declaration.recorded d
  declares : ∀ id, d.ident.sym = some id → S'.table.Declares id d
  shows : S'.Shows .recorded (Γ.add [d])
  undeclared : undeclaredIn fs = []

/-- Nothing is recorded of a declaration that the context does not admit. -/
theorem Records.refused {d : Declaration} (hΓ : S.Shows .recorded Γ) (hd : d.ident.sym = none)
    (hadmits : ¬ Γ.Admits Declaration.recorded d) (hfs : undeclaredIn fs = []) : Records S Γ d fs where
  recorded := by simp [Declaration.recorded, hd, hadmits]
  declares id hid := by simp [hd] at hid
  shows := hΓ.skip (by simp [View.recorded, Declaration.recorded, hd])
  undeclared := hfs

/-- A declaration that the context admits gets the next symbol. -/
theorem Records.added {d : Declaration} {symbol : Symbol} (hΓ : S.Shows .recorded Γ)
    (hd : d.ident.sym = some S.table.nextId) (hadmits : Γ.Admits Declaration.recorded d)
    (hcls : d.nameClass = symbol.nameClass) (hname : d.ident.name = symbol.name)
    (hspan : d.ident.span = symbol.span) (hfunction : symbol.isFunction = d.isFunction)
    (hnew : S.findLocal? symbol.nameClass symbol.name = none) : Records (S.add symbol) Γ d [] := by
  have hdeclares : (S.table.push symbol).Declares S.table.nextId d :=
    ⟨symbol, S.table.get?_push symbol, hname.symm, hspan.symm, hfunction⟩
  have hrecorded : d.recorded = true := by simp [Declaration.recorded, hd]
  refine ⟨?_, ?_, hΓ.add hrecorded hcls hname hnew ⟨hd, hdeclares⟩, rfl⟩
  · simp [hrecorded, hadmits]
  · intro id hid
    cases hd.symm.trans hid
    exact hdeclares

/-- Whether a context admits a declaration does not depend on its symbol and place. -/
theorem Context.admits_congr {counts : Declaration → Bool} {d d' : Declaration}
    (hname : d'.ident.name = d.ident.name) (hmeaning : d'.meaning = d.meaning) :
    Γ.Admits counts d' ↔ Γ.Admits counts d := by
  have htype : d'.type? = d.type? := by rw [Declaration.type?, Declaration.type?, hmeaning]
  have hclash : ∀ e, d'.Clashes e ↔ d.Clashes e := by
    intro e
    rw [Declaration.Clashes, Declaration.Clashes, Declaration.hasStructType, Declaration.hasStructType,
      hname, htype]
  constructor
  · rintro ⟨hknown, hfree⟩
    exact ⟨htype ▸ hknown, fun e he hc h => hfree e he hc ((hclash e).2 h)⟩
  · rintro ⟨hknown, hfree⟩
    exact ⟨htype ▸ hknown, fun e he hc h => hfree e he hc ((hclash e).1 h)⟩

theorem BindingStep.records {b b' : Binding} (h : BindingStep S b b' S' fs) (hΓ : S.Shows .recorded Γ)
    (hb : b.name.sym = none) : Records S' Γ b'.declaration fs := by
  have hbare := h.bare
  -- the step changes symbols only, and admission does not look at the symbol of what is admitted
  have hadmits : Γ.Admits Declaration.recorded b'.declaration ↔ fs = [] := by
    refine Iff.trans (Context.admits_congr ?_ ?_) (h.quiet_iff hΓ).symm
    · exact congrArg (·.name.name) hbare
    · exact congrArg Meaning.scalar (TypeName.ofRef_of_bare (congrArg (·.type) hbare))
  cases h with
  | void =>
    refine .refused hΓ hb (fun h => by cases hadmits.1 h) ?_
    simp only [voidFindings]
    split <;> rfl
  | unknownType | barred => exact .refused hΓ hb (fun h => by cases hadmits.1 h) rfl
  | taken => exact .refused hΓ rfl (fun h => by cases hadmits.1 h) rfl
  | declared _ _ _ hnew => exact .added hΓ rfl (hadmits.2 rfl) rfl rfl rfl rfl hnew

theorem BindingStep.undeclared {b b' : Binding} (h : BindingStep S b b' S' fs) : undeclaredIn fs = [] := by
  cases h with
  | void =>
    simp only [voidFindings]
    split <;> rfl
  | unknownType | barred | taken | declared => rfl

theorem BindingSteps.undeclared {bs bs' : List Binding} (h : BindingSteps S bs bs' S' fs) :
    undeclaredIn fs = [] := by
  induction h with
  | nil => rfl
  | cons hb _ ih => rw [undeclaredIn_append, hb.undeclared, ih, List.append_nil]

/-- The site of an item that declares one name. -/
theorem Records.site {d : Declaration} (h : Records S' Γ d fs) {i : Item} (hi : i.declarations = [d])
    (hu : Site.use? ⟨Γ, i⟩ = none) :
    S'.Shows .recorded (Γ.add i.declarations) ∧ Site.Scoped S'.table ⟨Γ, i⟩ ∧
      undeclaredIn fs = Site.undeclared ⟨Γ, i⟩ := by
  rw [hi]
  refine ⟨h.shows, ⟨?_, ?_, ?_⟩, ?_⟩
  · intro e he
    obtain rfl := List.mem_singleton.1 (hi ▸ he)
    exact h.recorded
  · intro e he
    obtain rfl := List.mem_singleton.1 (hi ▸ he)
    exact h.declares
  · intro u hu'
    cases hu.symm.trans hu'
  · rw [h.undeclared, Site.undeclared, hu]
    rfl

/-- What a step does to an item without annotations, seen from the tree: the scopes show what it declares,
the site is right, and a name that is not declared is reported if one is used there. -/
theorem ItemStep.scoped {i i' : Item} (h : ItemStep S i i' S' fs) (hΓ : S.Shows .recorded Γ)
    (hi : i.relabel .bare = i) :
    S'.Shows .recorded (Γ.add i'.declarations) ∧ Site.Scoped S'.table ⟨Γ, i'⟩ ∧
      undeclaredIn fs = Site.undeclared ⟨Γ, i'⟩ := by
  have hstep := h
  cases h with
  | result | unknownResult =>
    refine ⟨by simpa [Item.declarations, Context.add_nil] using hΓ, ⟨?_, ?_, ?_⟩, rfl⟩
    · intro d hd
      cases hd
    · intro d hd
      cases hd
    · intro u hu
      cases hu
  | binding hb =>
    have hname := congrArg (·.name.sym) (Item.binding.inj hi)
    exact (hb.records hΓ hname.symm).site rfl rfl
  | @function name params type hnew =>
    refine (Records.added hΓ rfl ?_ rfl rfl rfl rfl (S.findLocal?_eq_none hnew _)).site rfl rfl
    exact (hΓ.admits_iff rfl).2 hnew
  | @takenFunction name params type htaken =>
    have hname := congrArg (·.sym) (Item.function.inj hi).1
    refine (Records.refused hΓ (d := ⟨name, .function params type⟩) hname.symm ?_ rfl).site rfl rfl
    intro hadmits
    simp [(hΓ.admits_iff rfl).1 hadmits] at htaken
  | @struct s fields' S₁ _ hnew hfields =>
    -- the scope of the fields is left before the struct is added, so of them only the symbols remain
    have hk : S.table.Kept S₁.table := hfields.kept
    let declared : StructDecl := ⟨s.name.mark S₁.table.nextId, fields', s.span⟩
    let symbol : Symbol := ⟨s.name.name, .struct S₁.innermost.fieldTable, s.name.span⟩
    have hadded :
        Records (ScopeStack.add ⟨S₁.table, S.innermost, S.outer⟩ symbol) Γ declared.declaration [] := by
      refine .added (hΓ.kept hk) rfl ?_ rfl rfl rfl rfl (S.findLocal?_eq_none hnew _)
      exact (hΓ.admits_iff rfl).2 hnew
    exact Records.site ⟨hadded.recorded, hadded.declares, hadded.shows, hfields.undeclared⟩
      (i := .struct declared) rfl rfl
  | @takenStruct s htaken =>
    have hname := congrArg (·.name.sym) (Item.struct.inj hi)
    refine (Records.refused hΓ (d := s.declaration) hname.symm ?_ rfl).site rfl rfl
    intro hadmits
    have hfree := (hΓ.admits_iff rfl).1 hadmits
    exact absurd htaken (by simpa [StructDecl.declaration] using hfree)
  | used | undeclared | chain | noField | broken =>
    refine ⟨by simpa [Item.declarations, Context.add_nil] using hΓ, ?_⟩
    exact hstep.place_scoped hΓ (Location.bare_first _ (Item.place.inj hi)) S.table
  | callee | noFunction =>
    refine ⟨by simpa [Item.declarations, Context.add_nil] using hΓ, ?_⟩
    exact hstep.callee_scoped hΓ (congrArg (·.sym) (Item.callee.inj hi)).symm S.table

theorem Item.bare_symbols {i : Item} (h : i.relabel .bare = i) (Γ : Context) : Site.symbols ⟨Γ, i⟩ = [] := by
  rw [← h]
  cases i <;> rfl

/-- What an item without annotations declares gets a symbol that was not there before, if it gets one. -/
theorem ItemStep.fresh {i i' : Item} (h : ItemStep S i i' S' fs) (hi : i.relabel .bare = i) :
    S.table.Fresh S'.table (Site.symbols ⟨Γ, i'⟩) := by
  have hsame : S.table.Fresh S.table (Site.symbols ⟨Γ, i⟩) := by
    rw [Item.bare_symbols hi]
    exact .nil
  cases h with
  | takenFunction | takenStruct => exact hsame
  | function => exact .push (.refl _) _
  | struct _ hfields => exact .push hfields.kept _
  | binding hb =>
    cases hb with
    | void | unknownType | barred => exact hsame
    | taken => exact .nil
    | declared => exact .push (.refl _) _
  | _ => exact .nil

theorem VisitSteps.fresh {vs vs' : List Visit} (h : VisitSteps S vs vs' S' fs)
    (hvs : ∀ v ∈ vs, v.relabel .bare = v) :
    S.table.Fresh S'.table ((Visit.listSites Γ vs').flatMap Site.symbols) := by
  induction h generalizing Γ with
  | nil => exact .nil
  | @cons S S₁ S₂ v v' vs vs' fs gs hv hrest ih =>
    have hfirst : S.table.Fresh S₁.table ((v'.sites Γ).flatMap Site.symbols) := by
      cases hv with
      | enter | leave => exact .nil
      | item hi =>
        simpa [Visit.sites] using hi.fresh (Visit.item.inj (hvs _ List.mem_cons_self))
    rw [Visit.listSites, List.flatMap_append]
    exact hfirst.append hv.kept (VisitSteps.kept hrest) (ih fun w hw => hvs w (List.mem_cons_of_mem _ hw))

theorem Site.Scoped.kept {table table' : SymbolTable} {s : Site} (hk : table.Kept table')
    (h : s.Scoped table) : s.Scoped table' where
  recorded := h.recorded
  declares d hd id hid := (h.declares d hd id hid).kept hk
  selected := h.selected

theorem VisitStep.scoped {v v' : Visit} (h : VisitStep S v v' S' fs) (hΓ : S.Shows .recorded Γ)
    (hv : v.relabel .bare = v) :
    S'.Shows .recorded (v'.after Γ) ∧ (∀ s ∈ v'.sites Γ, s.Scoped S'.table) ∧
      undeclaredIn fs = (v'.sites Γ).flatMap Site.undeclared := by
  cases h with
  | enter => exact ⟨hΓ.enter, by simp [Visit.sites], rfl⟩
  | leave => exact ⟨hΓ.leave, by simp [Visit.sites], rfl⟩
  | item hi =>
    obtain ⟨hshows, hscoped, hfs⟩ := hi.scoped hΓ (Visit.item.inj hv)
    exact ⟨hshows, by simpa [Visit.sites] using hscoped, by simpa [Visit.sites] using hfs⟩

/-- Along a walk all sites are right, and the names that are not declared are reported in order. -/
theorem VisitSteps.scoped {vs vs' : List Visit} (h : VisitSteps S vs vs' S' fs) (hΓ : S.Shows .recorded Γ)
    (hvs : ∀ v ∈ vs, v.relabel .bare = v) :
    (∀ s ∈ Visit.listSites Γ vs', s.Scoped S'.table) ∧
      undeclaredIn fs = (Visit.listSites Γ vs').flatMap Site.undeclared := by
  -- the contexts are made of the visits that come out: their symbols say what was recorded
  induction h generalizing Γ with
  | nil => exact ⟨by simp [Visit.listSites], rfl⟩
  | @cons S S₁ S₂ v v' vs vs' fs gs hv hrest ih =>
    obtain ⟨hshows, hsites, hfs⟩ := hv.scoped hΓ (hvs v List.mem_cons_self)
    obtain ⟨hsites', hgs⟩ := ih hshows fun w hw => hvs w (List.mem_cons_of_mem _ hw)
    constructor
    · intro s hs
      rcases List.mem_append.1 hs with hs | hs
      · exact (hsites s hs).kept (VisitSteps.kept hrest)
      · exact hsites' s hs
    · rw [Visit.listSites, List.flatMap_append, ← hfs, ← hgs, undeclaredIn_append]

end

/-! ## Programs -/

theorem Site.flatMap_undeclared (sites : List Site) :
    sites.flatMap Site.undeclared =
      ((sites.filterMap Site.use?).filter (·.selected?.isNone)).map Use.finding := by
  induction sites with
  | nil => rfl
  | cons s sites ih =>
    rw [List.flatMap_cons, ih, Site.undeclared, List.filterMap_cons]
    cases hu : s.use? with
    | none => rfl
    | some u =>
      cases hnone : u.selected?.isNone <;> simp [hnone]

/-- The scoping of a resolved program: every site is right, no two declarations have the same symbol, and
what is reported as not declared is, in order, the uses that mean nothing. -/
structure Analysis.Scoped (a : Analysis) : Prop where
  sites : ∀ s ∈ a.program.sites, s.Scoped a.table
  distinct : (a.program.sites.flatMap Site.symbols).Nodup
  undeclared : undeclaredIn a.findings = (a.program.uses.filter (·.selected?.isNone)).map Use.finding

/-- The names of a program without annotations are lexically scoped. -/
theorem analyze_scoped {p : Program} (h : p.bare = p) :
    ∃ a, analyze p = .ok a ∧ a.program.bare = p ∧ a.Scoped := by
  obtain ⟨a, S', ha, htable, hsteps, hbare⟩ := analyze_steps p
  have hvs : ∀ v ∈ p.visits, v.relabel .bare = v := fun v hv => Program.bare_of_mem_visits h hv
  obtain ⟨hsites, hundeclared⟩ := VisitSteps.scoped hsteps .start hvs
  have hfresh := VisitSteps.fresh (Γ := [[]]) hsteps hvs
  rw [Program.listSites_visits] at hsites hundeclared hfresh
  refine ⟨a, ha, hbare.trans h, ?_, hfresh.nodup, ?_⟩
  · rw [htable]
    exact hsites
  · rw [hundeclared, Site.flatMap_undeclared]
    rfl

/-- The program `int x; void f() { int x; if (true) { int x; x = 1; } x = y; }`, without places. -/
def Program.shadowing : Program where
  decls :=
    let name (s : String) : Expr := .place (.name ⟨s, {}, none⟩) {}
    let x : Binding := ⟨⟨.int, {}⟩, ⟨"x", {}, none⟩, {}⟩
    [.variable x,
     .function ⟨⟨.void, {}⟩, ⟨"f", {}, none⟩, [],
       .mk [x] [.ifThen (.literal (.bool true) {}) (.mk [x] [.assign (name "x") (.literal (.int 1) {}) {}] {}) {},
         .assign (name "x") (name "y") {}] {}, {}⟩]

/-- The first use means the innermost variable, the second the one around it, and `y` means nothing. -/
theorem shadowing_scoped :
    Program.shadowing.bare = Program.shadowing ∧ ∃ a, analyze Program.shadowing = .ok a ∧ a.Scoped ∧
      a.program.uses.map (·.ident.sym) = [some ⟨3⟩, some ⟨2⟩, none] := by
  obtain ⟨a, ha, -, hscoped⟩ := analyze_scoped (p := Program.shadowing) rfl
  have hrun : (analyze Program.shadowing).toOption.map (fun a => a.program.uses.map (·.ident.sym)) =
      some [some ⟨3⟩, some ⟨2⟩, none] := by decide +kernel
  rw [ha] at hrun
  exact ⟨rfl, a, ha, hscoped, Option.some.inj hrun⟩

end Namescope
