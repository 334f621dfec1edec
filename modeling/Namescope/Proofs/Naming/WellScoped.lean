import Namescope.Proofs.Naming.Trees
import Namescope.Proofs.Naming.Views
/-!
# Well-scoped programs

The rules that a program must keep for nothing to be found in it, said of its tree alone: every
declaration is admitted where it stands, every name that is used is declared, and every chain of fields
has a type. Name resolution finds nothing in exactly the programs that keep them.
-/
namespace Namescope

/-! ## The rules -/

/-- Every declaration counts, whatever became of it. -/
def Declaration.any (_ : Declaration) : Bool := true

namespace Context
variable (Γ : Context)

/-- What a name means, if every declaration counts. -/
abbrev declared? (cls : NameClass) (name : String) : Option Declaration :=
  Γ.visible? Declaration.any cls name

/-- The type of a field of a type, which must be a struct type that has the field. -/
def fieldType? (type : TypeName) (name : String) : Option TypeName :=
  (((type.structName?.bind (Γ.declared? .struct)).bind Declaration.fields?).bind fun fields =>
    fields.find? (·.name.name = name)).map fun b => .ofRef b.type

/-- The type of a location: that of a variable, or that of a field of the type before it. -/
def typeOf? : Location → Option TypeName
  | .name ident => (Γ.declared? .plain ident.name).bind Declaration.type?
  | .field base ident _ => (typeOf? base).bind (Γ.fieldType? · ident.name)

/-- Variables, formals or fields that can be declared here one after the other. -/
def AdmitsAll : Context → List Binding → Prop
  | _, [] => True
  | Γ, b :: more => Γ.Admits Declaration.any b.declaration ∧ AdmitsAll (Γ.add [b.declaration]) more

end Context

/-- The rule for a site. A result type may be `void`; the fields of a struct are declared in a scope of
their own, before the struct; a variable must be declared, and a chain of fields must have a type; the
name of a called function must mean a function. -/
def Site.WellScoped (s : Site) : Prop :=
  match s.item with
  | .result type => TypeName.ofRef type = .void ∨ s.context.Knows Declaration.any (.ofRef type)
  | .function name params type => s.context.Admits Declaration.any ⟨name, .function params type⟩
  | .binding b => s.context.Admits Declaration.any b.declaration
  | .struct d => Context.AdmitsAll ([] :: s.context) d.fields ∧ s.context.Admits Declaration.any d.declaration
  | .place (.name ident) => (s.context.declared? .plain ident.name).isSome
  | .place (.field base ident resolved) => (s.context.typeOf? (.field base ident resolved)).isSome
  | .callee ident => (s.context.declared? .plain ident.name).any Declaration.isFunction

/-- A program is well-scoped if every site keeps the rule for it. -/
def Program.WellScoped (p : Program) : Prop := ∀ s ∈ p.sites, s.WellScoped

instance : ∀ (Γ : Context) (bs : List Binding), Decidable (Γ.AdmitsAll bs)
  | _, [] => .isTrue trivial
  | Γ, b :: more =>
    have := instDecidableAdmitsAll (Γ.add [b.declaration]) more
    inferInstanceAs (Decidable (_ ∧ _))

instance (s : Site) : Decidable s.WellScoped :=
  match s with
  | ⟨_, .result _⟩ => inferInstanceAs (Decidable (_ ∨ _))
  | ⟨Γ, .function name params type⟩ =>
    inferInstanceAs (Decidable (Γ.Admits Declaration.any ⟨name, .function params type⟩))
  | ⟨Γ, .binding b⟩ => inferInstanceAs (Decidable (Γ.Admits Declaration.any b.declaration))
  | ⟨_, .struct _⟩ => inferInstanceAs (Decidable (_ ∧ _))
  | ⟨_, .place (.name _)⟩ | ⟨_, .place (.field _ _ _)⟩ | ⟨_, .callee _⟩ =>
    inferInstanceAs (Decidable (_ = true))

instance (p : Program) : Decidable p.WellScoped := inferInstanceAs (Decidable (∀ s ∈ p.sites, s.WellScoped))

/-! ## What the scopes know while nothing is found -/

/-- An identifier stands for a variable, formal or field of a type. -/
def SymbolTable.HasType (table : SymbolTable) (type : TypeName) (id : SymbolId) : Prop :=
  ∃ s, table.get? id = some s ∧ s.type? = some type

/-- What a symbol is agrees with what its declaration says. -/
inductive Meaning.Matches (table : SymbolTable) : Meaning → SymbolKind → Prop
  | scalar {type} : Matches table (.scalar type) (.scalar type)
  | function {params result} : Matches table (.function params result) (.function params result)
  | struct {bs fields} : (∀ name, Option.Rel (fun id (b : Binding) => table.HasType (.ofRef b.type) id)
      (fields.get? name) (bs.find? (·.name.name = name))) → Matches table (.struct bs) (.struct fields)

theorem SymbolTable.HasType.kept {table table' : SymbolTable} {type : TypeName} {id : SymbolId}
    (hk : table.Kept table') : table.HasType type id → table'.HasType type id := by
  rintro ⟨s, hs, ht⟩
  exact ⟨s, hk _ _ hs, ht⟩

theorem Meaning.Matches.kept {table table' : SymbolTable} (hk : table.Kept table') {meaning : Meaning}
    {kind : SymbolKind} (h : meaning.Matches table kind) : meaning.Matches table' kind := by
  cases h with
  | scalar => exact .scalar
  | function => exact .function
  | @struct bs fields hfields =>
    refine .struct fun name => ?_
    have hfound := hfields name
    generalize fields.get? name = found at hfound ⊢
    generalize bs.find? (·.name.name = name) = found' at hfound ⊢
    cases hfound with
    | none => exact .none
    | some ht => exact .some (ht.kept hk)

/-- Every declaration counts, and its symbol agrees with it. -/
def View.all : View where
  counts := Declaration.any
  denotes table id d := ∃ s, table.get? id = some s ∧ d.meaning.Matches table s.kind
  kept := by
    rintro table table' id d hk ⟨s, hs, hm⟩
    exact ⟨s, hk _ _ hs, hm.kept hk⟩

theorem Meaning.Matches.type?_eq {table : SymbolTable} {d : Declaration} {s : Symbol}
    (h : d.meaning.Matches table s.kind) : d.type? = s.type? := by
  obtain ⟨ident, meaning⟩ := d
  obtain ⟨name, kind, span⟩ := s
  cases h <;> rfl

theorem Meaning.Matches.isFunction_eq {table : SymbolTable} {d : Declaration} {s : Symbol}
    (h : d.meaning.Matches table s.kind) : d.isFunction = s.isFunction := by
  obtain ⟨ident, meaning⟩ := d
  obtain ⟨name, kind, span⟩ := s
  cases h <;> rfl

theorem Meaning.Matches.fields {table : SymbolTable} {d : Declaration} {s : Symbol} {fields : FieldTable}
    (h : d.meaning.Matches table s.kind) (hs : s.fields? = some fields) :
    ∃ bs, d.fields? = some bs ∧ ∀ name, Option.Rel (fun id (b : Binding) => table.HasType (.ofRef b.type) id)
      (fields.get? name) (bs.find? (·.name.name = name)) := by
  obtain ⟨ident, meaning⟩ := d
  obtain ⟨name, kind, span⟩ := s
  cases h with
  | scalar | function => cases hs
  | @struct bs fields' hfields =>
    cases hs
    exact ⟨bs, rfl, hfields⟩

/-- The declared type of a variable, formal or field. -/
def ScopeStack.typeName? (S : ScopeStack) (id : SymbolId) : Option TypeName :=
  (S.table.get? id).bind Symbol.type?

theorem ScopeStack.held?_eq_some {S : ScopeStack} {id owner : SymbolId} (h : S.held? id = some owner) :
    ∃ name, S.typeName? id = some (.struct name) ∧ S.find? .struct name = some owner := by
  obtain ⟨name, hname, hfind⟩ := Option.bind_eq_some_iff.1 h
  obtain ⟨type, htype, hstruct⟩ := Option.bind_eq_some_iff.1 hname
  cases type <;> cases hstruct
  exact ⟨name, htype, hfind⟩

theorem ScopeStack.held?_eq_none {S : ScopeStack} {id : SymbolId} (h : S.held? id = none) {name : String}
    (hname : S.typeName? id = some (.struct name)) : S.find? .struct name = none := by
  unfold ScopeStack.held? at h
  rw [← ScopeStack.typeName?, hname] at h
  exact h

/-! ## Types of locations -/

section
variable {S S' : ScopeStack} {Γ : Context} {fs : List (Finding NameIssue)}

theorem ScopeStack.Shows.declared? (hΓ : S.Shows .all Γ) (cls : NameClass) (name : String) :
    Option.Rel (View.all.denotes S.table) (S.find? cls name) (Γ.declared? cls name) :=
  hΓ.find? cls name

theorem ScopeStack.Shows.typeOf?_name (hΓ : S.Shows .all Γ) (ident : Ident) :
    Γ.typeOf? (.name ident) = (S.find? .plain ident.name).bind S.typeName? := by
  have hfound := hΓ.declared? .plain ident.name
  unfold Context.typeOf?
  generalize S.find? .plain ident.name = found at hfound
  generalize Γ.declared? .plain ident.name = found' at hfound
  cases hfound with
  | none => rfl
  | some hd =>
    obtain ⟨s, hs, hm⟩ := hd
    rw [Option.bind_some, Option.bind_some, ScopeStack.typeName?, hs, hm.type?_eq]
    rfl

/-- A field of a struct type that is found has the type of the symbol that is found. -/
theorem ScopeStack.Shows.fieldType?_of_find? (hΓ : S.Shows .all Γ) (hS : S.Sound) {name : String}
    {owner : SymbolId} (howner : S.find? .struct name = some owner) (field : String) :
    Γ.fieldType? (.struct name) field = (S.field? owner field).bind S.typeName? := by
  have hfound := hΓ.declared? .struct name
  obtain ⟨s, hs, -, hcls⟩ := hS.find? howner
  obtain ⟨fields, hfields⟩ := Symbol.fields?_of_nameClass hcls
  rw [howner] at hfound
  unfold Context.fieldType? ScopeStack.field?
  rw [TypeName.structName?, Option.bind_some, hs, Option.bind_some, hfields, Option.bind_some]
  generalize Γ.declared? .struct name = found' at hfound
  cases hfound with
  | @some _ d hd =>
    obtain ⟨s', hs', hm⟩ := hd
    cases hs.symm.trans hs'
    obtain ⟨bs, hbs, hlook⟩ := hm.fields hfields
    rw [Option.bind_some, hbs, Option.bind_some]
    have hfield := hlook field
    generalize fields.get? field = found at hfield
    generalize bs.find? (·.name.name = field) = found' at hfield
    cases hfield with
    | none => rfl
    | some ht =>
      obtain ⟨s, hs, ht⟩ := ht
      rw [Option.bind_some, ScopeStack.typeName?, hs, Option.bind_some, ht]
      rfl

theorem ScopeStack.Shows.fieldType?_of_none (hΓ : S.Shows .all Γ) {name : String}
    (howner : S.find? .struct name = none) (field : String) : Γ.fieldType? (.struct name) field = none := by
  have hfound := hΓ.declared? .struct name
  rw [howner] at hfound
  unfold Context.fieldType?
  rw [TypeName.structName?, Option.bind_some]
  generalize Γ.declared? .struct name = found' at hfound
  cases hfound
  rfl

/-- Only struct types have fields. -/
theorem Context.fieldType?_of_structName? {type : TypeName} (h : type.structName? = none) (field : String) :
    Γ.fieldType? type field = none := by
  rw [Context.fieldType?, h]
  rfl

/-- A location that holds a struct has the type of that struct. -/
theorem Holds.typeOf? {l l' : Location} {owner : SymbolId} (h : Holds S l l' owner) (hΓ : S.Shows .all Γ)
    (hS : S.Sound) : ∃ name, Γ.typeOf? l = some (.struct name) ∧ S.find? .struct name = some owner := by
  induction h with
  | name hid hheld =>
    obtain ⟨name, htype, hfind⟩ := ScopeStack.held?_eq_some hheld
    exact ⟨name, by rw [hΓ.typeOf?_name, hid, Option.bind_some, htype], hfind⟩
  | field _ hfield hheld ih =>
    obtain ⟨base, hbase, howner⟩ := ih
    obtain ⟨name, htype, hfind⟩ := ScopeStack.held?_eq_some hheld
    refine ⟨name, ?_, hfind⟩
    rw [Context.typeOf?, hbase, Option.bind_some, hΓ.fieldType?_of_find? hS howner, hfield,
      Option.bind_some, htype]

/-- A location that fails has no type from which a field could be taken. -/
theorem Fails.fieldType? {l l' : Location} {f : Finding NameIssue} (h : Fails S l l' f)
    (hΓ : S.Shows .all Γ) (hS : S.Sound) : ∀ field, (Γ.typeOf? l).bind (Γ.fieldType? · field) = none := by
  -- a type that is no struct has no fields, and one that names a struct that is not there has none either
  have hnone : ∀ id, S.held? id = none → ∀ field, (S.typeName? id).bind (Γ.fieldType? · field) = none := by
    intro id hheld field
    cases htype : S.typeName? id with
    | none => rfl
    | some type =>
      cases type with
      | struct name => exact hΓ.fieldType?_of_none (ScopeStack.held?_eq_none hheld htype) field
      | int | bool | void => exact Context.fieldType?_of_structName? rfl field
  intro field
  induction h generalizing field with
  | undeclared hid => rw [hΓ.typeOf?_name, hid]; rfl
  | scalar hid hheld => rw [hΓ.typeOf?_name, hid, Option.bind_some, hnone _ hheld]
  | inner _ ih => rw [Context.typeOf?, ih]; rfl
  | noField hbase hfield =>
    obtain ⟨name, htype, howner⟩ := hbase.typeOf? hΓ hS
    rw [Context.typeOf?, htype, Option.bind_some, hΓ.fieldType?_of_find? hS howner, hfield]
    rfl
  | scalarField hbase hfield hheld =>
    obtain ⟨name, htype, howner⟩ := hbase.typeOf? hΓ hS
    rw [Context.typeOf?, htype, Option.bind_some, hΓ.fieldType?_of_find? hS howner, hfield,
      Option.bind_some, hnone _ hheld]

/-! ## Steps that find nothing -/

theorem ScopeStack.Shows.isSome_iff (hΓ : S.Shows .all Γ) (cls : NameClass) (name : String) :
    (Γ.declared? cls name).isSome ↔ (S.find? cls name).isSome := by
  have hfound := hΓ.declared? cls name
  generalize S.find? cls name = found at hfound
  generalize Γ.declared? cls name = found' at hfound
  cases hfound <;> simp

theorem ScopeStack.Shows.function_iff (hΓ : S.Shows .all Γ) (name : String) :
    (Γ.declared? .plain name).any Declaration.isFunction ↔ (S.function? name).isSome := by
  have hfound := hΓ.declared? .plain name
  unfold ScopeStack.function?
  generalize S.find? .plain name = found at hfound
  generalize Γ.declared? .plain name = found' at hfound
  cases hfound with
  | none => simp
  | some hd =>
    obtain ⟨s, hs, hm⟩ := hd
    simp [hs, hm.isFunction_eq, Option.isSome_filter]

/-- Nothing is found at a location that keeps its rule, and only there. -/
theorem ItemStep.quiet_place {l : Location} {i' : Item} (h : ItemStep S (.place l) i' S' fs)
    (hΓ : S.Shows .all Γ) (hS : S.Sound) : fs = [] ↔ Site.WellScoped ⟨Γ, .place l⟩ := by
  cases h with
  | used hid => simp [Site.WellScoped, hΓ.isSome_iff, hid]
  | undeclared hid => simp [Site.WellScoped, hΓ.isSome_iff, hid]
  | chain hbase hfield =>
    obtain ⟨name, htype, howner⟩ := hbase.typeOf? hΓ hS
    obtain ⟨s, type, hs, -, ht⟩ := hS.field? hfield
    simp [Site.WellScoped, Context.typeOf?, htype, hΓ.fieldType?_of_find? hS howner, hfield,
      ScopeStack.typeName?, hs, ht]
  | noField hbase hfield =>
    obtain ⟨name, htype, howner⟩ := hbase.typeOf? hΓ hS
    simp [Site.WellScoped, Context.typeOf?, htype, hΓ.fieldType?_of_find? hS howner, hfield]
  | broken hbase => simp [Site.WellScoped, Context.typeOf?, hbase.fieldType? hΓ hS]

theorem ItemStep.quiet_result {type : TypeRef} {i' : Item} (h : ItemStep S (.result type) i' S' fs)
    (hΓ : S.Shows .all Γ) : fs = [] ↔ Site.WellScoped ⟨Γ, .result type⟩ := by
  have hrule : Site.WellScoped ⟨Γ, .result type⟩ ↔ (S.type? type).isSome := by
    have hknows := hΓ.knows_iff type
    change Γ.Knows Declaration.any _ ↔ _ at hknows
    simp only [Site.WellScoped, hknows]
    cases hkind : type.kind <;> simp [TypeName.ofRef, hkind, ScopeStack.type?]
  rw [hrule]
  cases h with
  | result htype => simp [htype]
  | unknownResult hkind htype => simp [ScopeStack.type?, hkind, htype]

/-- A binding that nothing is found at is declared, and the scopes show it. -/
theorem BindingStep.shows {b b' : Binding} (h : BindingStep S b b' S' fs) (hΓ : S.Shows .all Γ)
    (hf : fs = []) : S'.Shows .all (Γ.add [b.declaration]) := by
  cases h with
  | void | unknownType | barred | taken => cases hf
  | declared _ _ _ hnew =>
    exact hΓ.add rfl rfl rfl hnew ⟨b.symbol, S.table.get?_push _, .scalar⟩

theorem Context.add_add (Γ : Context) (ds es : List Declaration) : (Γ.add ds).add es = Γ.add (ds ++ es) := by
  cases Γ with
  | nil => rfl
  | cons scope outer => rw [Context.add, Context.add, Context.add, List.append_assoc]

theorem BindingSteps.quiet {bs bs' : List Binding} (h : BindingSteps S bs bs' S' fs) (hΓ : S.Shows .all Γ) :
    (fs = [] ↔ Γ.AdmitsAll bs) ∧ (fs = [] → S'.Shows .all (Γ.add (bs.map Binding.declaration))) := by
  induction h generalizing Γ with
  | nil => exact ⟨by simp [Context.AdmitsAll], fun _ => by simpa [Context.add_nil] using hΓ⟩
  | @cons S S₁ S₂ b b' bs bs' fs gs hb hrest ih =>
    have hquiet : fs = [] ↔ Γ.Admits Declaration.any b.declaration := hb.quiet_iff hΓ
    -- only a binding that nothing was found at is shown, which is all that the others need
    rw [List.append_eq_nil_iff, Context.AdmitsAll, ← hquiet]
    constructor
    · exact and_congr_right fun hf => (ih (hb.shows hΓ hf)).1
    · rintro ⟨hf, hg⟩
      have hshows := (ih (hb.shows hΓ hf)).2 hg
      rwa [Context.add_add] at hshows

/-- The field table of a struct agrees with its fields, if nothing is found in them. -/
theorem BindingSteps.fieldTable {bs bs' : List Binding} (h : BindingSteps S.enter bs bs' S' fs)
    (hΓ : S.Shows .all Γ) (hS : S.Sound) (hf : fs = []) :
    (Meaning.struct bs).Matches S'.table (.struct S'.innermost.fieldTable) := by
  refine .struct fun name => ?_
  have hshows := (h.quiet hΓ.enter).2 hf
  have hsound := (h.sound hS.enter).scopes _ List.mem_cons_self
  -- the table is made of the plain names of the scope, each of which stands there once
  have hget : S'.innermost.fieldTable.get? name = S'.innermost.find? .plain name :=
    FieldTable.get?_ofList (hsound.distinct .plain) name
  have hfirst : S'.innermost.Shows .all S'.table (bs.map Binding.declaration) := by
    obtain ⟨table, innermost, outer⟩ := S'
    cases hshows with
    | cons hfirst => exact hfirst
  have hfound := hfirst .plain name
  have hlist : (bs.map Binding.declaration).find? (fun d => View.all.counts d && d.names .plain name) =
      (bs.find? (·.name.name = name)).map Binding.declaration := by
    rw [List.find?_map]
    rfl
  rw [hlist] at hfound
  rw [hget]
  generalize S'.innermost.find? .plain name = found at hfound ⊢
  generalize bs.find? (·.name.name = name) = found' at hfound ⊢
  cases found' with
  | none =>
    cases hfound
    exact .none
  | some b =>
    cases hfound with
    | some hd =>
      obtain ⟨s, hs, hm⟩ := hd
      exact .some ⟨s, hs, hm.type?_eq.symm⟩

/-- At each item nothing is found exactly if its site keeps its rule. -/
theorem ItemStep.quiet_iff {i i' : Item} (h : ItemStep S i i' S' fs) (hΓ : S.Shows .all Γ) (hS : S.Sound) :
    fs = [] ↔ Site.WellScoped ⟨Γ, i⟩ := by
  have hstep := h
  have hfree : ∀ {d : Declaration}, d.type? = none →
      (Γ.Admits Declaration.any d ↔ S.hasLocal d.ident.name = false) := hΓ.admits_iff
  cases h with
  | result | unknownResult => exact hstep.quiet_result hΓ
  | binding hb => exact hb.quiet_iff hΓ
  | @function name params type hnew =>
    exact iff_of_true rfl ((hfree (d := ⟨name, .function params type⟩) rfl).2 hnew)
  | @takenFunction name params type htaken =>
    refine iff_of_false (by simp) fun hrule => ?_
    have hnew := (hfree (d := ⟨name, .function params type⟩) rfl).1 hrule
    exact absurd (htaken.symm.trans hnew) (by simp)
  | @struct s _ _ _ hnew hfields =>
    have hadmits := (hfree (d := s.declaration) rfl).2 hnew
    simpa [Site.WellScoped, hadmits] using (hfields.quiet hΓ.enter).1
  | @takenStruct s htaken =>
    refine iff_of_false (by simp) fun hrule => ?_
    have hnew := (hfree (d := s.declaration) rfl).1 hrule.2
    exact absurd (htaken.symm.trans hnew) (by simp)
  | used | undeclared | chain | noField | broken => exact hstep.quiet_place hΓ hS
  | callee hid => simp [Site.WellScoped, hΓ.function_iff, hid]
  | noFunction hid => simp [Site.WellScoped, hΓ.function_iff, hid]

/-- The scopes keep showing everything that was declared as long as nothing is found. -/
theorem ItemStep.shows {i i' : Item} (h : ItemStep S i i' S' fs) (hΓ : S.Shows .all Γ) (hS : S.Sound)
    (hf : fs = []) : S'.Shows .all (Γ.add i.declarations) := by
  have hsame : S.Shows .all (Γ.add []) := by rwa [Context.add_nil]
  cases h with
  | unknownResult | takenFunction | takenStruct | undeclared | noField | broken | noFunction => cases hf
  | result | used | chain | callee => exact hsame
  | binding hb => exact hb.shows hΓ hf
  | function hnew =>
    exact hΓ.add rfl rfl rfl (S.findLocal?_eq_none hnew _) ⟨_, S.table.get?_push _, .function⟩
  | @struct s fields' S₁ _ hnew hfields =>
    -- the field table is built in the scope of the fields and read with the struct in the table
    have hk : S.table.Kept S₁.table := hfields.kept
    refine (hΓ.kept hk).add rfl rfl rfl (S.findLocal?_eq_none hnew _) ⟨_, S₁.table.get?_push _, ?_⟩
    exact (hfields.fieldTable hΓ hS hf).kept (S₁.table.kept_push _)

/-- Along a walk nothing is found exactly if every site keeps its rule. The rules are those of the tree that
came in, so a walk that finds something is of no more interest after its first finding. -/
theorem VisitSteps.quiet_iff {vs vs' : List Visit} (h : VisitSteps S vs vs' S' fs) (hΓ : S.Shows .all Γ)
    (hS : S.Sound) : fs = [] ↔ ∀ s ∈ Visit.listSites Γ vs, s.WellScoped := by
  induction h generalizing Γ with
  | nil => simp [Visit.listSites]
  | @cons S S₁ S₂ v v' vs vs' fs gs hv _ ih =>
    have hfirst : fs = [] ↔ ∀ s ∈ v.sites Γ, s.WellScoped := by
      cases hv with
      | enter | leave => simp [Visit.sites]
      | item hi => simpa [Visit.sites] using hi.quiet_iff hΓ hS
    have hnext : fs = [] → S₁.Shows .all (v.after Γ) := by
      intro hf
      cases hv with
      | enter => exact hΓ.enter
      | leave => exact hΓ.leave
      | item hi => exact hi.shows hΓ hS hf
    rw [List.append_eq_nil_iff, Visit.listSites, List.forall_mem_append, ← hfirst]
    exact and_congr_right fun hf => ih (hnext hf) (hv.sound hS)

end

/-- Nothing is found in a program exactly if it is well-scoped, whatever annotations it comes with. -/
theorem analyze_quiet_iff (p : Program) : ∃ a, analyze p = .ok a ∧ (a.findings = [] ↔ p.WellScoped) := by
  obtain ⟨a, S', ha, -, hsteps, -⟩ := analyze_steps p
  refine ⟨a, ha, ?_⟩
  rw [VisitSteps.quiet_iff hsteps .start ScopeStack.sound_empty, Program.listSites_visits, Program.WellScoped]

/-- A variable may share its name with the struct type that it is of. -/
example : (Program.mk [.struct ⟨⟨"P", {}, none⟩, [⟨⟨.int, {}⟩, ⟨"x", {}, none⟩, {}⟩], {}⟩,
    .variable ⟨⟨.struct ⟨"P", {}, none⟩, {}⟩, ⟨"P", {}, none⟩, {}⟩,
    .function ⟨⟨.void, {}⟩, ⟨"f", {}, none⟩, [], .mk []
      [.increment (.place (.field (.name ⟨"P", {}, none⟩) ⟨"x", {}, none⟩ none) {}) {}] {}, {}⟩]).WellScoped := by
  decide

/-- A function that is called must be declared. -/
example : ¬ (Program.mk [.function ⟨⟨.void, {}⟩, ⟨"f", {}, none⟩, [],
    .mk [] [.call ⟨"g", {}, none⟩ [] {}] {}, {}⟩]).WellScoped := by
  decide

end Namescope
