import Namescope.Proofs.Naming.Frames
/-!
# The order of two declarations

Two declarations of one name, each of which would be accepted alone, clash in either order, with one exception: a
struct leaves its name to a variable of struct type that comes after it, but such a variable does not leave its
name to a struct.
-/
namespace Namescope

/-! ## Reports -/

namespace Resolve

/-- What is reported about declarations when the resolver walks over them from a state on. -/
def report (ds : List Decl) (r : Resolver) : Except InternalError Report := do
  let (_, after) ← (program ⟨ds⟩).run r
  return (after.findings.drop r.findings.length).map (Finding.toError NameIssue.message)

/-- Whether it is reported, when the resolver walks over `d` and then over `e`, that a name is declared again. -/
def Clash (r : Resolver) (d e : Decl) : Prop :=
  ∃ diagnostics, report [d, e] r = .ok diagnostics ∧
    ∃ diagnostic ∈ diagnostics, diagnostic.message = "Multiply declared identifier"

variable {r : Resolver}

/-- The steps over declarations tell what is reported about them. -/
theorem report_eq {ds : List Decl} {vs' : List Visit} {S' : ScopeStack} {fs : List (Finding NameIssue)}
    (hr : r.scopes.Sound) (h : VisitSteps r.scopes (ds.flatMap Decl.visits) vs' S' fs) :
    report ds r = .ok (fs.map (Finding.toError NameIssue.message)) := by
  obtain ⟨p', S'', us, gs, hy, hsteps, -⟩ := follows_program ⟨ds⟩ r.scopes hr
  obtain ⟨-, -, rfl⟩ := hsteps.unique h
  obtain ⟨more, hrun⟩ := hy r.findings r.events
  rw [report, hrun]
  change Except.ok (((r.findings ++ gs).drop r.findings.length).map _) = _
  rw [List.drop_left]

/-- A declaration about which nothing is reported is walked over by steps that find nothing. -/
theorem steps_of_report {d : Decl} (hr : r.scopes.Sound) (h : report [d] r = .ok []) :
    ∃ vs' S', VisitSteps r.scopes d.visits vs' S' [] := by
  obtain ⟨d', S', vs', fs, -, hsteps, -⟩ := follows_decl d r.scopes hr
  have hvisits : [d].flatMap Decl.visits = d.visits := List.flatMap_singleton Decl.visits d
  rw [report_eq hr (hvisits ▸ hsteps)] at h
  obtain rfl := List.map_eq_nil_iff.1 (Except.ok.inj h)
  exact ⟨vs', S', hsteps⟩

theorem clash_iff_exists {d e : Decl} {vs' ws' : List Visit} {S₁ S' : ScopeStack} {fs : List (Finding NameIssue)}
    (hr : r.scopes.Sound) (hd : VisitSteps r.scopes d.visits vs' S₁ []) (he : VisitSteps S₁ e.visits ws' S' fs) :
    Clash r d e ↔ ∃ f ∈ fs, f.issue = .multiplyDeclared := by
  have hmessage : ∀ issue : NameIssue, issue.message = "Multiply declared identifier" ↔ issue = .multiplyDeclared := by
    intro issue
    cases issue <;> simp [NameIssue.message]
  have hvisits : [d, e].flatMap Decl.visits = d.visits ++ e.visits := by simp
  have hreport := report_eq hr (hvisits ▸ hd.append he)
  rw [List.nil_append] at hreport
  rw [Clash, hreport]
  simp [Finding.toError, hmessage]

end Resolve

/-! ## Names that are taken -/

/-- Only a variable, formal or field has a type. -/
theorem Declaration.nameClass_of_hasStructType {d : Declaration} (h : d.hasStructType = true) :
    d.nameClass = .plain := by
  obtain ⟨ident, meaning⟩ := d
  cases meaning with
  | scalar | function => rfl
  | struct => cases h

namespace ScopeStack

/-- The name of a declaration is taken: the innermost scope has it in the plain class, or as that of a struct type,
which is no hindrance to a variable of struct type. -/
def Takes (S : ScopeStack) (d : Declaration) : Prop :=
  (S.findLocal? .plain d.ident.name).isSome ∨
    d.hasStructType = false ∧ (S.findLocal? .struct d.ident.name).isSome

/-- The innermost scope gains the name of a declaration, and the scopes around it stay. -/
structure Gains (S : ScopeStack) (d : Declaration) (S' : ScopeStack) : Prop where
  outer : S'.outer = S.outer
  innermost : ∃ id, S'.innermost = S.innermost.bind d.nameClass d.ident.name id

/-- A type that a variable can have: not `void`, and a struct type only if it is visible. -/
def Knows (S : ScopeStack) : TypeName → Prop
  | .void => False
  | .struct name => (S.find? .struct name).isSome
  | _ => True

/-- A declaration about which nothing is found: its type is known, its name is free, and it is recorded. -/
structure Accepts (S : ScopeStack) (d : Declaration) (S' : ScopeStack) : Prop where
  known : ∀ type ∈ d.type?, S.Knows type
  free : ¬ S.Takes d
  gains : S.Gains d S'

variable (S : ScopeStack)

theorem takes_iff_hasLocal {d : Declaration} (h : d.hasStructType = false) :
    S.Takes d ↔ S.hasLocal d.ident.name = true := by
  simp [Takes, h, hasLocal]

theorem bars_iff (b : Binding) :
    S.bars b = true ↔ b.declaration.hasStructType = false ∧ (S.findLocal? .struct b.name.name).isSome := by
  cases hkind : b.type.kind <;>
    simp [bars, hkind, Binding.declaration, Declaration.hasStructType, Declaration.type?, TypeName.ofRef,
      TypeName.structName?]

theorem takes_binding_iff (b : Binding) :
    S.Takes b.declaration ↔ (S.findLocal? .plain b.name.name).isSome ∨ S.bars b = true := by
  rw [bars_iff]
  rfl

theorem find?_isSome_iff (cls : NameClass) (name : String) :
    (S.find? cls name).isSome ↔
      (S.findLocal? cls name).isSome ∨ (S.outer.findSome? (·.find? cls name)).isSome := by
  rw [find?, scopes, List.findSome?_cons, findLocal?]
  cases S.innermost.find? cls name <;> simp

theorem gains_add {symbol : Symbol} {d : Declaration} (hclass : d.nameClass = symbol.nameClass)
    (hname : d.ident.name = symbol.name) : S.Gains d (S.add symbol) :=
  ⟨rfl, S.table.nextId, by rw [hclass, hname]; rfl⟩

variable {S}

namespace Gains
variable {S' : ScopeStack} {d e : Declaration}

theorem findLocal?_isSome (h : S.Gains d S') (cls : NameClass) (name : String) :
    (S'.findLocal? cls name).isSome ↔ (cls = d.nameClass ∧ name = d.ident.name) ∨ (S.findLocal? cls name).isSome := by
  obtain ⟨id, hbind⟩ := h.innermost
  rw [findLocal?, hbind, Scope.find?_bind]
  split
  · next hnew => simp [hnew]
  · next hold => simp [hold, findLocal?]

/-- No type that was known is forgotten. -/
theorem knows (h : S.Gains d S') {type : TypeName} (hknown : S.Knows type) : S'.Knows type := by
  cases type with
  | void => exact hknown
  | struct name =>
    have hfind := (S.find?_isSome_iff .struct name).1 hknown
    refine (S'.find?_isSome_iff .struct name).2 ?_
    rw [h.findLocal?_isSome, h.outer]
    exact hfind.imp_left .inr
  | int | bool => trivial

/-- A declaration of the name that was gained meets it, except that a variable of struct type does not meet a
struct. -/
theorem takes_iff (h : S.Gains d S') (hname : d.ident.name = e.ident.name) (hfree : ¬ S.Takes e) :
    S'.Takes e ↔ e.Clashes d := by
  have hplain : ¬ (S.findLocal? .plain e.ident.name).isSome := fun h => hfree (.inl h)
  rw [Takes, h.findLocal?_isSome, h.findLocal?_isSome, Declaration.Clashes]
  cases hclass : d.nameClass with
  | plain => exact iff_of_true (.inl (.inl ⟨rfl, hname.symm⟩)) ⟨hname, fun h => by cases h.1⟩
  | struct =>
    cases htype : e.hasStructType with
    | false => exact iff_of_true (.inr ⟨rfl, .inl ⟨rfl, hname.symm⟩⟩) ⟨hname, fun h => by cases h.2⟩
    | true =>
      refine iff_of_false ?_ fun hclash => hclash.2 ⟨rfl, rfl⟩
      rintro ((⟨hcls, -⟩ | hfound) | ⟨htype', -⟩)
      · cases hcls
      · exact hplain hfound
      · cases htype'

end Gains

end ScopeStack

/-! ## Steps -/

section
variable {S S' : ScopeStack} {fs : List (Finding NameIssue)}

/-- A variable of a known type is reported exactly if its name is taken. -/
theorem BindingStep.reports_iff {b b' : Binding} (h : BindingStep S b b' S' fs) (hknown : S.Knows (.ofRef b.type)) :
    (∃ f ∈ fs, f.issue = .multiplyDeclared) ↔ S.Takes b.declaration := by
  rw [S.takes_binding_iff]
  cases h with
  | void hkind =>
    rw [TypeName.ofRef, hkind] at hknown
    exact hknown.elim
  | unknownType hkind hnone => simp [TypeName.ofRef, hkind, ScopeStack.Knows, hnone] at hknown
  | barred _ hbars => simp [hbars]
  | taken _ _ _ hfind => simp [hfind]
  | declared _ _ hbars hfind => simp [hbars, hfind]

theorem BindingStep.accepts {b b' : Binding} (h : BindingStep S b b' S' fs) (hquiet : fs = []) :
    S.Accepts b.declaration S' := by
  cases h with
  | void | unknownType | barred | taken => cases hquiet
  | declared hvoid htype hbars hfind =>
    refine ⟨?_, ?_, S.gains_add rfl rfl⟩
    · rintro type ⟨⟩
      cases hkind : b.type.kind with
      | void => exact absurd hkind hvoid
      | struct name =>
        have hname : TypeName.ofRef b.type = .struct name.name := by simp [TypeName.ofRef, hkind]
        obtain ⟨owner, howner⟩ := S.find?_of_type? htype hname
        rw [hname]
        exact Option.isSome_of_eq_some howner
      | int | bool =>
        simp only [TypeName.ofRef, hkind]
        trivial
    · rw [S.takes_binding_iff]
      simp [hbars, hfind]

/-- The first of several visits is one to an item. -/
theorem VisitSteps.exists_item {i : Item} {vs ws : List Visit} (h : VisitSteps S (.item i :: vs) ws S' fs) :
    ∃ i' ws' S₁ fs₁ fs₂, ItemStep S i i' S₁ fs₁ ∧ VisitSteps S₁ vs ws' S' fs₂ ∧ fs = fs₁ ++ fs₂ := by
  cases h with
  | cons hv hrest =>
    cases hv with
    | item hi => exact ⟨_, _, _, _, _, hi, hrest, rfl⟩

theorem VisitSteps.exists_single {i : Item} {ws : List Visit} (h : VisitSteps S [.item i] ws S' fs) :
    ∃ i', ItemStep S i i' S' fs := by
  obtain ⟨i', ws', S₁, fs₁, fs₂, hi, hnil, rfl⟩ := h.exists_item
  cases hnil
  exact ⟨i', by rwa [List.append_nil]⟩

/-- A function is one step for its result, one for its name, and steps that leave the scopes as they are. -/
theorem FunctionDecl.exists_steps {f : FunctionDecl} {ws : List Visit}
    (h : VisitSteps S (Decl.function f).visits ws S' fs) : ∃ name' S₁ fs₁ fs₂ fs₃, ItemStep S f.item name' S₁ fs₂ ∧
      S'.innermost = S₁.innermost ∧ S'.outer = S₁.outer ∧ fs = fs₁ ++ (fs₂ ++ fs₃) := by
  obtain ⟨result', ws₁, S₀, fs₁, fs', hresult, hmore, rfl⟩ := VisitSteps.exists_item h
  obtain ⟨name', ws₂, S₁, fs₂, fs₃, hname, hinner, rfl⟩ := VisitSteps.exists_item hmore
  have hsame : S₀ = S := by cases hresult <;> rfl
  have hadds : S₁.Adds [] S' := ((Visit.add_bindings f.formals).append f.body.adds).scoped _ _ _ _ hinner
  exact ⟨name', S₁, fs₁, fs₂, fs₃, hsame ▸ hname, hadds.innermost_eq, hadds.outer, rfl⟩

/-- A declaration that nothing is found about is accepted. -/
theorem Decl.accepts {d : Decl} {ws : List Visit} (h : VisitSteps S d.visits ws S' fs) (hquiet : fs = []) :
    S.Accepts d.declaration S' := by
  match d with
  | .variable b =>
    obtain ⟨i', hi⟩ := VisitSteps.exists_single h
    cases hi with
    | binding hb => exact hb.accepts hquiet
  | .struct s =>
    obtain ⟨i', hi⟩ := VisitSteps.exists_single h
    cases hi with
    | takenStruct => cases hquiet
    | @struct _ fields' S₁ _ hnew _ =>
      have hfree : ¬ S.Takes s.declaration := by
        rw [S.takes_iff_hasLocal rfl, StructDecl.declaration, hnew]
        exact Bool.false_ne_true
      exact ⟨nofun, hfree, rfl, S₁.table.nextId, rfl⟩
  | .function f =>
    obtain ⟨name', S₁, fs₁, fs₂, fs₃, hname, hinner, houter, rfl⟩ := FunctionDecl.exists_steps h
    obtain rfl := (List.append_eq_nil_iff.1 (List.append_eq_nil_iff.1 hquiet).2).1
    cases hname with
    | function hnew =>
      have hfree : ¬ S.Takes f.declaration := by
        rw [S.takes_iff_hasLocal rfl, FunctionDecl.declaration, hnew]
        exact Bool.false_ne_true
      exact ⟨nofun, hfree, houter, S.table.nextId, hinner⟩

/-- A declaration whose name is taken is reported. -/
theorem Decl.reported_of_takes {d : Decl} {ws : List Visit} (h : VisitSteps S d.visits ws S' fs)
    (hknown : ∀ type ∈ d.declaration.type?, S.Knows type) (htaken : S.Takes d.declaration) :
    ∃ f ∈ fs, f.issue = .multiplyDeclared := by
  match d with
  | .variable b =>
    obtain ⟨i', hi⟩ := VisitSteps.exists_single h
    cases hi with
    | binding hb => exact (hb.reports_iff (hknown _ rfl)).2 htaken
  | .struct s =>
    obtain ⟨i', hi⟩ := VisitSteps.exists_single h
    have hlocal : S.hasLocal s.name.name = true := (S.takes_iff_hasLocal rfl).1 htaken
    cases hi with
    | takenStruct => exact ⟨_, List.mem_singleton_self _, rfl⟩
    | struct hnew => rw [hnew] at hlocal; cases hlocal
  | .function f =>
    obtain ⟨name', S₁, fs₁, fs₂, fs₃, hname, -, -, rfl⟩ := FunctionDecl.exists_steps h
    have hlocal : S.hasLocal f.name.name = true := (S.takes_iff_hasLocal rfl).1 htaken
    cases hname with
    | takenFunction => exact ⟨⟨.multiplyDeclared, f.name.span⟩, by simp, rfl⟩
    | function hnew => rw [hnew] at hlocal; cases hlocal

/-- A variable of struct type is not reported if no plain name meets it. -/
theorem Decl.not_reported {d : Decl} {ws : List Visit} (h : VisitSteps S d.visits ws S' fs)
    (htype : d.declaration.hasStructType = true) (hknown : ∀ type ∈ d.declaration.type?, S.Knows type)
    (hfree : ¬ S.Takes d.declaration) : ¬ ∃ f ∈ fs, f.issue = .multiplyDeclared := by
  match d with
  | .variable b =>
    obtain ⟨i', hi⟩ := VisitSteps.exists_single h
    cases hi with
    | binding hb => exact (hb.reports_iff (hknown _ rfl)).not.2 hfree
  | .struct s => cases htype
  | .function f => cases htype

end

/-! ## Two declarations -/

/-- Two declarations of one name of which each is accepted alone: the second clashes, except that a variable of
struct type does not clash with a struct before it. -/
theorem Resolve.clash_iff {r : Resolver} (hr : Reachable r) {d e : Decl}
    (hname : d.declaration.ident.name = e.declaration.ident.name) (hd : report [d] r = .ok [])
    (he : report [e] r = .ok []) : Clash r d e ↔ e.declaration.Clashes d.declaration := by
  have hS := hr.settled.1
  obtain ⟨vs', S₁, hdsteps⟩ := steps_of_report hS hd
  obtain ⟨us', S₂, healone⟩ := steps_of_report hS he
  have hdaccepts := Decl.accepts hdsteps rfl
  have heaccepts := Decl.accepts healone rfl
  obtain ⟨e', S', ws', fs, -, hesteps, -⟩ := follows_decl e S₁ (hdsteps.sound hS)
  have hknown : ∀ type ∈ e.declaration.type?, S₁.Knows type :=
    fun type htype => hdaccepts.gains.knows (heaccepts.known type htype)
  have htakes := hdaccepts.gains.takes_iff hname heaccepts.free
  rw [clash_iff_exists hS hdsteps hesteps, ← htakes]
  constructor
  · intro hreported
    by_contra hfree
    have htype : e.declaration.hasStructType = true := by
      rw [htakes, Declaration.Clashes] at hfree
      simp only [hname, true_and, not_not] at hfree
      exact hfree.2
    exact Decl.not_reported hesteps htype hknown hfree hreported
  · exact Decl.reported_of_takes hesteps hknown

/-- Two declarations of one name of which each is accepted alone clash in either order or in neither, unless one
defines a struct and the other is a variable of struct type. In that case they clash if the variable comes first,
and not if the struct does. -/
theorem clashes_in_any_order {r : Resolver} (hr : Resolve.Reachable r) {d e : Decl}
    (hname : d.declaration.ident.name = e.declaration.ident.name) (hd : Resolve.report [d] r = .ok [])
    (he : Resolve.report [e] r = .ok []) :
    (¬ (d.declaration.nameClass = .struct ∧ e.declaration.hasStructType) →
      ¬ (e.declaration.nameClass = .struct ∧ d.declaration.hasStructType) →
      (Resolve.Clash r d e ↔ Resolve.Clash r e d)) ∧
    (d.declaration.nameClass = .struct → e.declaration.hasStructType →
      ¬ Resolve.Clash r d e ∧ Resolve.Clash r e d) := by
  have hde := Resolve.clash_iff hr hname hd he
  have hed := Resolve.clash_iff hr hname.symm he hd
  rw [hde, hed, Declaration.Clashes, Declaration.Clashes]
  constructor
  · intro hstruct hstruct'
    exact iff_of_true ⟨hname, hstruct⟩ ⟨hname.symm, hstruct'⟩
  · intro hstruct htype
    refine ⟨fun hclash => hclash.2 ⟨hstruct, htype⟩, hname.symm, ?_⟩
    rintro ⟨hstruct', -⟩
    rw [Declaration.nameClass_of_hasStructType htype] at hstruct'
    cases hstruct'

/-- `int P;` and `struct P{ int x; };` clash in either order. -/
theorem int_beside_struct_in_any_order :
    let v : Decl := .variable ⟨⟨.int, {}⟩, ⟨"P", {}, none⟩, {}⟩
    let p : Decl := .struct ⟨⟨"P", {}, none⟩, [⟨⟨.int, {}⟩, ⟨"x", {}, none⟩, {}⟩], {}⟩
    Resolve.Reachable {} ∧ Resolve.report [v] {} = .ok [] ∧ Resolve.report [p] {} = .ok [] ∧
      Resolve.Clash {} v p ∧ Resolve.Clash {} p v := by
  intro v p
  have hr : Resolve.Reachable {} := .between .start
  have hv : Resolve.report [v] {} = .ok [] := by decide +kernel
  have hp : Resolve.report [p] {} = .ok [] := by decide +kernel
  have hname : v.declaration.ident.name = p.declaration.ident.name := rfl
  have horder := (clashes_in_any_order hr hname hv hp).1 (by decide) (by decide)
  have hvp : Resolve.Clash {} v p := (Resolve.clash_iff hr hname hv hp).2 (by decide)
  exact ⟨hr, hv, hp, hvp, horder.1 hvp⟩

/-- The state after `struct Q{ int x; };`, without places. -/
def Resolver.afterStruct : Resolver where
  scopes :=
    { table := ⟨[⟨"x", .scalar .int, {}⟩, ⟨"Q", .struct (.ofList [("x", ⟨0⟩)]), {}⟩]⟩
      innermost := ⟨[], [("Q", ⟨1⟩)]⟩ }
  events := [.enter 2, .exit 1 1]

/-- A variable of struct type may come behind a struct of its name, but not in front of it: after `struct Q{ int x; };`
the declarations `struct P{ int x; };` and `struct Q P;` clash in one order only. -/
theorem struct_before_variable_unreported :
    let fields : List Binding := [⟨⟨.int, {}⟩, ⟨"x", {}, none⟩, {}⟩]
    let p : Decl := .struct ⟨⟨"P", {}, none⟩, fields, {}⟩
    let v : Decl := .variable ⟨⟨.struct ⟨"Q", {}, none⟩, {}⟩, ⟨"P", {}, none⟩, {}⟩
    Resolve.Reachable .afterStruct ∧ Resolver.afterStruct.scopes.depth = 1 ∧
      Resolve.report [p] .afterStruct = .ok [] ∧ Resolve.report [v] .afterStruct = .ok [] ∧
      ¬ (Resolve.Clash .afterStruct p v ↔ Resolve.Clash .afterStruct v p) := by
  intro fields p v
  have hrun : (Resolve.decl (.struct ⟨⟨"Q", {}, none⟩, fields, {}⟩)).run {} = .ok (_, .afterStruct) := rfl
  have hr : Resolve.Reachable .afterStruct := .between (.decl .start hrun)
  have hp : Resolve.report [p] .afterStruct = .ok [] := by decide +kernel
  have hv : Resolve.report [v] .afterStruct = .ok [] := by decide +kernel
  have hpv : Resolve.Clash .afterStruct p v ↔ v.declaration.Clashes p.declaration := Resolve.clash_iff hr rfl hp hv
  have hvp : Resolve.Clash .afterStruct v p ↔ p.declaration.Clashes v.declaration := Resolve.clash_iff hr rfl hv hp
  refine ⟨hr, rfl, hp, hv, ?_⟩
  rw [hpv, hvp]
  decide

end Namescope
