import Namescope.Proofs.Naming.Trees
/-!
# Annotations

Every identifier of a tree has a place that says what kind of symbol it may stand for. In a tree that
came without annotations each symbol written by name resolution is in the table, has the name of the
identifier and is of the kind of its place; a noted type is the one of the field beside it. Nothing is
left out if nothing was wrong.
-/
namespace Namescope

/-! ## Occurrences of identifiers -/

/-- What an identifier is in its place. -/
inductive Role where
  | structName | functionName | bindingName | typeName | variable | callee | base | field
  deriving DecidableEq

/-- Whether a symbol is of the kind of a place. Where a variable can be used, everything but a struct type
is found. -/
def Role.fits : Role → Symbol → Bool
  | .structName, symbol | .typeName, symbol => symbol.isStruct
  | .functionName, symbol | .callee, symbol => symbol.isFunction
  | .bindingName, symbol | .field, symbol => symbol.type?.isSome
  | .variable, symbol | .base, symbol => !symbol.isStruct

/-- An identifier in its place; a field has a noted type beside it. -/
structure Occurrence where
  role : Role
  ident : Ident
  resolved : Option String := none
  deriving DecidableEq

/-- The identifiers of a location that a field is taken of. -/
def Location.links : Location → List Occurrence
  | .name ident => [⟨.base, ident, none⟩]
  | .field base ident resolved => base.links ++ [⟨.field, ident, resolved⟩]

/-- The identifiers of a location: a variable, or the base and the fields of a chain. -/
def Location.occurrences : Location → List Occurrence
  | .name ident => [⟨.variable, ident, none⟩]
  | .field base ident resolved => (Location.field base ident resolved).links

/-- The identifier of a type. -/
def TypeRef.occurrences (type : TypeRef) : List Occurrence :=
  match type.kind with
  | .struct name => [⟨.typeName, name, none⟩]
  | _ => []

/-- The identifiers of a variable, formal or field. -/
def Binding.occurrences (b : Binding) : List Occurrence :=
  b.type.occurrences ++ [⟨.bindingName, b.name, none⟩]

/-- The identifiers of an item. -/
def Item.occurrences : Item → List Occurrence
  | .result type => type.occurrences
  | .function name _ _ => [⟨.functionName, name, none⟩]
  | .binding b => b.occurrences
  | .struct s => ⟨.structName, s.name, none⟩ :: s.fields.flatMap Binding.occurrences
  | .place location => location.occurrences
  | .callee ident => [⟨.callee, ident, none⟩]

/-- The identifiers met on a visit. -/
def Visit.occurrences : Visit → List Occurrence
  | .item i => i.occurrences
  | _ => []

/-- All identifiers of a program in the order in which they are met. -/
def Program.occurrences (p : Program) : List Occurrence := p.visits.flatMap Visit.occurrences

section
variable {P : Occurrence → Prop}

/-- What holds at the identifiers before a field and at the field holds along the chain. -/
theorem Location.forall_links {base : Location} {ident : Ident} {resolved : Option String}
    (hbase : ∀ o ∈ base.links, P o) (hfield : P ⟨.field, ident, resolved⟩) :
    ∀ o ∈ (Location.field base ident resolved).links, P o := by
  intro o ho
  rcases List.mem_append.1 ho with ho | ho
  · exact hbase o ho
  · obtain rfl := List.mem_singleton.1 ho
    exact hfield

theorem Binding.forall_occurrences {b : Binding} (htype : ∀ o ∈ b.type.occurrences, P o)
    (hname : P ⟨.bindingName, b.name, none⟩) : ∀ o ∈ b.occurrences, P o := by
  intro o ho
  rcases List.mem_append.1 ho with ho | ho
  · exact htype o ho
  · obtain rfl := List.mem_singleton.1 ho
    exact hname

theorem StructDecl.forall_occurrences {s : StructDecl} (hname : P ⟨.structName, s.name, none⟩)
    (hfields : ∀ b ∈ s.fields, ∀ o ∈ b.occurrences, P o) : ∀ o ∈ (Item.struct s).occurrences, P o := by
  intro o ho
  rcases List.mem_cons.1 ho with rfl | ho
  · exact hname
  · obtain ⟨b, hb, ho⟩ := List.mem_flatMap.1 ho
    exact hfields b hb o ho

end

namespace Occurrence

/-- What is written at an identifier is right: its symbol has its name and the kind of its place, and its
noted type is the declared type of its symbol. -/
structure Sound (table : SymbolTable) (o : Occurrence) : Prop where
  sym : ∀ id, o.ident.sym = some id →
    ∃ s, table.get? id = some s ∧ s.name = o.ident.name ∧ o.role.fits s = true
  resolved : ∀ type, o.resolved = some type →
    o.role = .field ∧ ∃ id s, o.ident.sym = some id ∧ table.get? id = some s ∧ type = s.display

/-- Nothing is left out at an identifier. -/
structure Complete (o : Occurrence) : Prop where
  sym : o.ident.sym.isSome
  resolved : o.role = .field → o.resolved.isSome

/-- Nothing is written at an identifier. -/
structure Bare (o : Occurrence) : Prop where
  sym : o.ident.sym = none
  resolved : o.resolved = none

theorem Sound.kept {table table' : SymbolTable} {o : Occurrence} (hk : table.Kept table')
    (h : o.Sound table) : o.Sound table' where
  sym id hid := by
    obtain ⟨s, hs, hn, hf⟩ := h.sym id hid
    exact ⟨s, hk _ _ hs, hn, hf⟩
  resolved type ht := by
    obtain ⟨hr, id, s, hid, hs, hd⟩ := h.resolved type ht
    exact ⟨hr, id, s, hid, hk _ _ hs, hd⟩

theorem Bare.sound {o : Occurrence} (h : o.Bare) (table : SymbolTable) : o.Sound table where
  sym id hid := by simp [h.sym] at hid
  resolved type ht := by simp [h.resolved] at ht

/-- An identifier that got a symbol of its name and kind. -/
theorem sound_mark {table : SymbolTable} {role : Role} (ident : Ident) {id : SymbolId} {s : Symbol}
    (hs : table.get? id = some s) (hn : s.name = ident.name) (hf : role.fits s = true) :
    (⟨role, ident.mark id, none⟩ : Occurrence).Sound table where
  sym id' h := by
    cases h
    exact ⟨s, hs, hn, hf⟩
  resolved type h := by cases h

end Occurrence

/-! ## Trees without annotations -/

theorem TypeRef.bare_occurrences (type : TypeRef) : ∀ o ∈ (type.relabel .bare).occurrences, o.Bare := by
  intro o ho
  obtain ⟨kind, span⟩ := type
  cases kind with
  | struct name =>
    obtain rfl := List.mem_singleton.1 ho
    exact ⟨rfl, rfl⟩
  | int | bool | void => cases ho

theorem Binding.bare_occurrences (b : Binding) : ∀ o ∈ (b.relabel .bare).occurrences, o.Bare :=
  Binding.forall_occurrences b.type.bare_occurrences ⟨rfl, rfl⟩

theorem Location.bare_links : ∀ (l : Location), ∀ o ∈ (l.relabel .bare).links, o.Bare
  | .name ident, o, ho => by
    obtain rfl := List.mem_singleton.1 ho
    exact ⟨rfl, rfl⟩
  | .field base _ _, o, ho => Location.forall_links base.bare_links ⟨rfl, rfl⟩ o ho

/-! ## What steps write -/

theorem Symbol.display_of_type? {s : Symbol} {type : TypeName} (h : s.type? = some type) :
    s.display = type.display := by
  obtain ⟨name, kind, span⟩ := s
  cases kind <;> cases h
  rfl

theorem Symbol.isStruct_of_nameClass_plain {s : Symbol} (h : s.nameClass = .plain) : s.isStruct = false := by
  obtain ⟨name, kind, span⟩ := s
  cases kind <;> first | rfl | cases h

section
variable {S S' : ScopeStack} {fs : List (Finding NameIssue)}

/-- A type that is known has the symbol of the struct that it names, if it names one. -/
theorem ScopeStack.type?_occurrences {type type' : TypeRef} (h : S.type? type = some type') :
    ∀ o ∈ type'.occurrences, ∃ (name : Ident) (id : SymbolId),
      o = ⟨.typeName, name.mark id, none⟩ ∧ S.find? .struct name.name = some id := by
  intro o ho
  cases hkind : type.kind with
  | struct name =>
    simp only [ScopeStack.type?, hkind, Option.map_eq_some_iff] at h
    obtain ⟨id, hid, rfl⟩ := h
    obtain rfl := List.mem_singleton.1 ho
    exact ⟨name, id, rfl, hid⟩
  | int | bool | void =>
    rw [S.type?_of_ne_struct (by simp [hkind])] at h
    cases h
    rw [TypeRef.occurrences, hkind] at ho
    cases ho

theorem ScopeStack.Sound.type?_sound (hS : S.Sound) {type type' : TypeRef}
    (h : S.type? type = some type') : ∀ o ∈ type'.occurrences, o.Sound S.table := by
  intro o ho
  obtain ⟨name, id, rfl, hid⟩ := S.type?_occurrences h o ho
  obtain ⟨s, hs, hn, hc⟩ := hS.find? hid
  exact Occurrence.sound_mark name hs hn (Symbol.isStruct_of_nameClass hc)

theorem BindingStep.occurrences {b b' : Binding} (h : BindingStep S b b' S' fs) (hS : S.Sound)
    (hb : ∀ o ∈ b.occurrences, o.Bare) : ∀ o ∈ b'.occurrences, o.Sound S'.table := by
  cases h with
  | void | unknownType | barred => exact fun o ho => (hb o ho).sound _
  | taken _ htype =>
    exact Binding.forall_occurrences (hS.type?_sound htype) (Occurrence.Bare.sound ⟨rfl, rfl⟩ _)
  | declared _ htype =>
    refine Binding.forall_occurrences (fun o ho => ?_) ?_
    · exact (hS.type?_sound htype o ho).kept (S.table.kept_push _)
    · exact Occurrence.sound_mark b.name (S.table.get?_push b.symbol) rfl rfl

/-- A field that was found has its symbol, and its declared type is noted. -/
theorem ScopeStack.Sound.field_occurrence (hS : S.Sound) {owner id : SymbolId} {ident : Ident}
    (h : S.field? owner ident.name = some id) :
    (⟨.field, ident.mark id, S.noted? id⟩ : Occurrence).Sound S.table := by
  obtain ⟨s, type, hs, hn, ht⟩ := hS.field? h
  constructor
  · intro id' hid
    cases hid
    exact ⟨s, hs, hn, by rw [Role.fits, ht, Option.isSome_some]⟩
  · intro text htext
    rw [ScopeStack.noted?, hs, Option.bind_some, ht] at htext
    cases htext
    exact ⟨rfl, id, s, rfl, hs, (Symbol.display_of_type? ht).symm⟩

theorem ScopeStack.Sound.plain_occurrence (hS : S.Sound) (ident : Ident) {role : Role} {id : SymbolId}
    (h : S.find? .plain ident.name = some id) (hrole : ∀ s, s.isStruct = false → role.fits s = true) :
    (⟨role, ident.mark id, none⟩ : Occurrence).Sound S.table := by
  obtain ⟨s, hs, hn, hc⟩ := hS.find? h
  exact Occurrence.sound_mark ident hs hn (hrole s (Symbol.isStruct_of_nameClass_plain hc))

theorem Holds.occurrences {l l' : Location} {owner : SymbolId} (h : Holds S l l' owner) (hS : S.Sound) :
    ∀ o ∈ l'.links, o.Sound S.table := by
  induction h with
  | name hid =>
    intro o ho
    obtain rfl := List.mem_singleton.1 ho
    exact hS.plain_occurrence _ hid (by simp [Role.fits])
  | field _ hfield _ ih => exact Location.forall_links ih (hS.field_occurrence hfield)

/-- A chain that fails is annotated up to where it fails, and keeps what it came with from there on. -/
theorem Fails.occurrences {l l' : Location} {f : Finding NameIssue} (h : Fails S l l' f) (hS : S.Sound)
    (hl : ∀ o ∈ l.links, o.Bare) : ∀ o ∈ l'.links, o.Sound S.table := by
  induction h with
  | undeclared => exact fun o ho => (hl o ho).sound _
  | scalar hid =>
    intro o ho
    obtain rfl := List.mem_singleton.1 ho
    exact hS.plain_occurrence _ hid (by simp [Role.fits])
  | inner _ ih =>
    have hbase := ih fun o ho => hl o (List.mem_append_left _ ho)
    exact Location.forall_links hbase ((hl _ List.mem_concat_self).sound _)
  | noField hbase =>
    exact Location.forall_links (hbase.occurrences hS) ((hl _ List.mem_concat_self).sound _)
  | scalarField hbase hfield =>
    exact Location.forall_links (hbase.occurrences hS) (hS.field_occurrence hfield)

theorem BindingSteps.occurrences {bs bs' : List Binding} (h : BindingSteps S bs bs' S' fs) (hS : S.Sound)
    (hbs : ∀ b ∈ bs, ∀ o ∈ b.occurrences, o.Bare) : ∀ b ∈ bs', ∀ o ∈ b.occurrences, o.Sound S'.table :=
  Thread.results (I := ScopeStack.Sound) (P := fun (b : Binding) => ∀ o ∈ b.occurrences, o.Bare)
    (Q := fun (T : ScopeStack) (b : Binding) => ∀ o ∈ b.occurrences, o.Sound T.table) BindingStep.sound
    (fun hb hT hbare => hb.occurrences hT hbare) (fun hb hQ o ho => (hQ o ho).kept hb.kept) h hS hbs

/-- What a step writes into an item that came without annotations is right. -/
theorem ItemStep.occurrences {i i' : Item} (h : ItemStep S i i' S' fs) (hS : S.Sound)
    (hi : ∀ o ∈ i.occurrences, o.Bare) : ∀ o ∈ i'.occurrences, o.Sound S'.table := by
  have hsame : ∀ o ∈ i.occurrences, o.Sound S'.table := fun o ho => (hi o ho).sound _
  cases h with
  | unknownResult | takenFunction | takenStruct | undeclared | noFunction => exact hsame
  | result htype => exact hS.type?_sound htype
  | binding hb => exact hb.occurrences hS hi
  | function =>
    intro o ho
    obtain rfl := List.mem_singleton.1 ho
    exact Occurrence.sound_mark _ (S.table.get?_push _) rfl rfl
  | @struct s fields' S₁ _ _ hfields =>
    have hbare : ∀ b ∈ s.fields, ∀ o ∈ b.occurrences, o.Bare := fun b hb o ho =>
      hi o (List.mem_cons_of_mem _ (List.mem_flatMap.2 ⟨b, hb, ho⟩))
    -- the struct gets its symbol after its fields, so theirs are kept once more
    refine StructDecl.forall_occurrences ?_ fun b hb o ho => ?_
    · exact Occurrence.sound_mark _ (S₁.table.get?_push _) rfl rfl
    · exact (hfields.occurrences hS.enter hbare b hb o ho).kept (S₁.table.kept_push _)
  | used hid =>
    intro o ho
    obtain rfl := List.mem_singleton.1 ho
    exact hS.plain_occurrence _ hid (by simp [Role.fits])
  | chain hbase hfield =>
    exact Location.forall_links (hbase.occurrences hS) (hS.field_occurrence hfield)
  | noField hbase =>
    exact Location.forall_links (hbase.occurrences hS) (hsame _ List.mem_concat_self)
  | broken hbase =>
    have hlinks := hbase.occurrences hS fun o ho => hi o (List.mem_append_left _ ho)
    exact Location.forall_links hlinks (hsame _ List.mem_concat_self)
  | callee hid =>
    intro o ho
    obtain rfl := List.mem_singleton.1 ho
    obtain ⟨hid, hfunction⟩ := Option.filter_eq_some_iff.1 hid
    obtain ⟨s, hs, hn, -⟩ := hS.find? hid
    rw [hs, Option.any_some] at hfunction
    exact Occurrence.sound_mark _ hs hn hfunction

/-! ## Steps that find nothing leave nothing out -/

theorem Occurrence.complete_mark {role : Role} (ident : Ident) (id : SymbolId) (h : role ≠ .field) :
    (⟨role, ident.mark id, none⟩ : Occurrence).Complete :=
  ⟨rfl, fun e => absurd e h⟩

theorem ScopeStack.type?_complete {type type' : TypeRef} (h : S.type? type = some type') :
    ∀ o ∈ type'.occurrences, o.Complete := by
  intro o ho
  obtain ⟨name, id, rfl, -⟩ := S.type?_occurrences h o ho
  exact Occurrence.complete_mark name id (by decide)

theorem ScopeStack.Sound.field_complete (hS : S.Sound) {owner id : SymbolId} {ident : Ident}
    (h : S.field? owner ident.name = some id) :
    (⟨.field, ident.mark id, S.noted? id⟩ : Occurrence).Complete := by
  obtain ⟨s, type, hs, -, ht⟩ := hS.field? h
  exact ⟨rfl, fun _ => by simp [ScopeStack.noted?, hs, ht]⟩

theorem Holds.complete {l l' : Location} {owner : SymbolId} (h : Holds S l l' owner) (hS : S.Sound) :
    ∀ o ∈ l'.links, o.Complete := by
  induction h with
  | @name ident id =>
    intro o ho
    obtain rfl := List.mem_singleton.1 ho
    exact Occurrence.complete_mark ident id (by decide)
  | field _ hfield _ ih => exact Location.forall_links ih (hS.field_complete hfield)

theorem BindingStep.complete {b b' : Binding} (h : BindingStep S b b' S' fs) (hf : fs = []) :
    ∀ o ∈ b'.occurrences, o.Complete := by
  cases h with
  | void | unknownType | barred | taken => cases hf
  | declared _ htype =>
    refine Binding.forall_occurrences (S.type?_complete htype) ?_
    exact Occurrence.complete_mark b.name S.table.nextId (by decide)

theorem ItemStep.complete {i i' : Item} (h : ItemStep S i i' S' fs) (hf : fs = []) (hS : S.Sound) :
    ∀ o ∈ i'.occurrences, o.Complete := by
  cases h with
  | unknownResult | takenFunction | takenStruct | undeclared | noFunction | noField | broken => cases hf
  | result htype => exact S.type?_complete htype
  | binding hb => exact hb.complete hf
  | @function name =>
    intro o ho
    obtain rfl := List.mem_singleton.1 ho
    exact Occurrence.complete_mark name _ (by decide)
  | @struct s fields' S₁ _ _ hfields =>
    refine StructDecl.forall_occurrences (Occurrence.complete_mark s.name _ (by decide)) ?_
    exact Thread.quiet_results (I := fun _ => True) (Q := fun (b : Binding) => ∀ o ∈ b.occurrences, o.Complete)
      (fun _ _ => trivial) (fun hb hf _ => hb.complete hf) hfields hf trivial
  | @used ident id | @callee ident id =>
    intro o ho
    obtain rfl := List.mem_singleton.1 ho
    exact Occurrence.complete_mark ident id (by decide)
  | chain hbase hfield => exact Location.forall_links (hbase.complete hS) (hS.field_complete hfield)

end

/-! ## Programs -/

theorem Item.bare_occurrences (i : Item) : ∀ o ∈ (i.relabel .bare).occurrences, o.Bare := by
  intro o ho
  cases i with
  | result type => exact type.bare_occurrences o ho
  | binding b => exact b.bare_occurrences o ho
  | function | callee =>
    obtain rfl := List.mem_singleton.1 ho
    exact ⟨rfl, rfl⟩
  | struct s =>
    refine StructDecl.forall_occurrences ⟨rfl, rfl⟩ (fun b hb => ?_) o ho
    obtain ⟨b, -, rfl⟩ := List.mem_map.1 hb
    exact b.bare_occurrences
  | place l =>
    cases l with
    | name ident =>
      obtain rfl := List.mem_singleton.1 ho
      exact ⟨rfl, rfl⟩
    | field base ident resolved => exact (Location.field base ident resolved).bare_links o ho

theorem Visit.bare_occurrences {v : Visit} (h : v.relabel .bare = v) : ∀ o ∈ v.occurrences, o.Bare := by
  cases v with
  | enter | leave => intro o ho; cases ho
  | item i =>
    intro o ho
    rw [← h] at ho
    exact i.bare_occurrences o ho

theorem VisitStep.occurrences {S S' : ScopeStack} {v v' : Visit} {fs : List (Finding NameIssue)}
    (h : VisitStep S v v' S' fs) (hS : S.Sound) (hv : ∀ o ∈ v.occurrences, o.Bare) :
    ∀ o ∈ v'.occurrences, o.Sound S'.table := by
  cases h with
  | enter | leave => intro o ho; cases ho
  | item hi => exact hi.occurrences hS hv

theorem VisitStep.complete {S S' : ScopeStack} {v v' : Visit} {fs : List (Finding NameIssue)}
    (h : VisitStep S v v' S' fs) (hf : fs = []) (hS : S.Sound) : ∀ o ∈ v'.occurrences, o.Complete := by
  cases h with
  | enter | leave => intro o ho; cases ho
  | item hi => exact hi.complete hf hS

/-- What name resolution has written is right: at every identifier of the program and in the fields of every
struct; and nothing is left out if nothing was found. -/
structure Analysis.Annotated (a : Analysis) : Prop where
  occurrences : ∀ o ∈ a.program.occurrences, o.Sound a.table
  fields : a.table.Sound
  complete : a.findings = [] → ∀ o ∈ a.program.occurrences, o.Complete

/-- A program without annotations is annotated, and is the same program otherwise. -/
theorem analyze_annotated {p : Program} (h : p.bare = p) :
    ∃ a, analyze p = .ok a ∧ a.program.bare = p ∧ a.Annotated := by
  obtain ⟨a, S', ha, htable, hsteps, hbare⟩ := analyze_steps p
  refine ⟨a, ha, hbare.trans h, ?_, ?_, ?_⟩
  · intro o ho
    obtain ⟨v, hv, ho⟩ := List.mem_flatMap.1 ho
    have hbare : ∀ v ∈ p.visits, ∀ o ∈ v.occurrences, o.Bare := fun v hv =>
      v.bare_occurrences (Program.bare_of_mem_visits h hv)
    rw [htable]
    -- a step is right about the table that it leaves, and the last table keeps that
    exact Thread.results (I := ScopeStack.Sound) (P := fun v => ∀ o ∈ Visit.occurrences v, o.Bare)
      (Q := fun (T : ScopeStack) v => ∀ o ∈ Visit.occurrences v, o.Sound T.table) VisitStep.sound
      VisitStep.occurrences (fun hv hQ o ho => (hQ o ho).kept hv.kept) hsteps ScopeStack.sound_empty
      hbare v hv o ho
  · rw [htable]
    exact (hsteps.sound ScopeStack.sound_empty).table
  · intro hf o ho
    obtain ⟨v, hv, ho⟩ := List.mem_flatMap.1 ho
    exact Thread.quiet_results (I := ScopeStack.Sound) (Q := fun v => ∀ o ∈ Visit.occurrences v, o.Complete)
      VisitStep.sound VisitStep.complete hsteps hf ScopeStack.sound_empty v hv o ho

/-- The program `struct P { int x; } P p; void f(int a) { p.x = a; f(p.x); }`, without places. -/
def Program.access : Program where
  decls :=
    let px := Expr.place (.field (.name ⟨"p", {}, none⟩) ⟨"x", {}, none⟩ none) {}
    [.struct ⟨⟨"P", {}, none⟩, [⟨⟨.int, {}⟩, ⟨"x", {}, none⟩, {}⟩], {}⟩,
     .variable ⟨⟨.struct ⟨"P", {}, none⟩, {}⟩, ⟨"p", {}, none⟩, {}⟩,
     .function ⟨⟨.void, {}⟩, ⟨"f", {}, none⟩, [⟨⟨.int, {}⟩, ⟨"a", {}, none⟩, {}⟩],
       .mk [] [.assign px (.place (.name ⟨"a", {}, none⟩) {}) {}, .call ⟨"f", {}, none⟩ [px] {}] {}, {}⟩]

/-- Nothing is wrong with this program, and all its identifiers are annotated. -/
theorem access_annotated :
    Program.access.bare = Program.access ∧ ∃ a, analyze Program.access = .ok a ∧ a.Annotated ∧
      a.findings.length = 0 ∧ a.program.occurrences.length = 12 := by
  obtain ⟨a, ha, -, hannotated⟩ := analyze_annotated (p := Program.access) rfl
  have hrun : (analyze Program.access).toOption.map
      (fun a => (a.findings.length, a.program.occurrences.length)) = some (0, 12) := by decide +kernel
  rw [ha] at hrun
  obtain ⟨hfindings, hoccurrences⟩ := Prod.mk.inj (Option.some.inj hrun)
  exact ⟨rfl, a, ha, hannotated, hfindings, hoccurrences⟩

end Namescope
