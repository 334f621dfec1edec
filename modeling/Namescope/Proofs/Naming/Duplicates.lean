import Namescope.Proofs.Naming.WellScoped
/-!
# Repeated declarations

A declaration is recorded if its scope has the name in no sense that matters and its type is known. A name
is reported as declared again exactly where a recorded declaration of the same scope clashes with the new
one, once and in order, whatever became of the declarations before. The exception is a declaration that is
void: it is held against variables, formals, fields and functions, but not against struct types.
-/
namespace Namescope

/-! ## The rule -/

namespace Context

/-- The context after a declaration, which is recorded if the context admits it. -/
def record (Γ : Context) (d : Declaration) : Context :=
  if Γ.Admits Declaration.any d then Γ.add [d] else Γ

/-- What is recorded of a context: of each scope, from the outside in, the declarations that were admitted
when their turn came. -/
def recorded : Context → Context
  | [] => []
  | scope :: outer => scope.foldl record ([] :: recorded outer)

end Context

/-- A declaration that name resolution comes to, and what is recorded around it. -/
structure Attempt where
  context : Context
  declaration : Declaration

namespace Attempt

/-- Whether a declaration repeats a recorded one of its scope. A void one does not repeat a struct type. -/
def Repeats (a : Attempt) : Prop :=
  ∃ e ∈ a.context.headD [], a.declaration.Clashes e ∧
    ¬ (e.nameClass = .struct ∧ a.declaration.type? = some .void)

instance (a : Attempt) : Decidable a.Repeats :=
  inferInstanceAs (Decidable (∃ e ∈ a.context.headD [], _))

/-- What is found at a declaration that repeats another one. -/
def finding (a : Attempt) : Finding NameIssue := ⟨.multiplyDeclared, a.declaration.ident.span⟩

/-- The findings at the declarations that repeat others. -/
def findings (attempts : List Attempt) : List (Finding NameIssue) :=
  (attempts.filter (·.Repeats)).map finding

end Attempt

/-- Name resolution does not come to the name of a binding whose struct type it does not find. -/
def Binding.attempts (Γ : Context) (b : Binding) : List Attempt :=
  if TypeName.ofRef b.type = .void ∨ Γ.Knows Declaration.any (.ofRef b.type) then [⟨Γ, b.declaration⟩] else []

/-- Of bindings in order, each is tried after those before it. -/
def Binding.listAttempts : Context → List Binding → List Attempt
  | _, [] => []
  | Γ, b :: more => b.attempts Γ ++ Binding.listAttempts (Γ.record b.declaration) more

/-- The fields of a struct are tried in a scope of their own, unless its name is taken. -/
def StructDecl.attempts (Γ : Context) (s : StructDecl) : List Attempt :=
  ⟨Γ, s.declaration⟩ ::
    if Γ.Admits Declaration.any s.declaration then Binding.listAttempts ([] :: Γ) s.fields else []

/-- The declarations that are tried at an item. -/
def Item.attempts (Γ : Context) : Item → List Attempt
  | .function name params type => [⟨Γ, ⟨name, .function params type⟩⟩]
  | .binding b => b.attempts Γ
  | .struct s => s.attempts Γ
  | _ => []

/-- The declarations that are tried at a site, after what is recorded there. -/
def Site.attempts (s : Site) : List Attempt := s.item.attempts s.context.recorded

/-- The declarations that are tried in a program, in order. -/
def Program.attempts (p : Program) : List Attempt := p.sites.flatMap Site.attempts

/-! ## What is recorded -/

namespace Context
variable (Γ : Context) (d : Declaration)

theorem record_tail : (Γ.record d).tail = Γ.tail := by
  unfold record
  split
  · cases Γ <;> rfl
  · rfl

theorem recorded_tail : Γ.recorded.tail = recorded Γ.tail := by
  cases Γ with
  | nil => rfl
  | cons scope outer =>
    -- what is recorded in a scope leaves those around it as they are
    have hfold : ∀ (ds : List Declaration) (Δ : Context), (ds.foldl record Δ).tail = Δ.tail := by
      intro ds
      induction ds with
      | nil => exact fun _ => rfl
      | cons e ds ih => exact fun Δ => (ih _).trans (Δ.record_tail e)
    exact hfold scope _

theorem recorded_add (ds : List Declaration) : (Γ.add ds).recorded = ds.foldl record Γ.recorded := by
  cases Γ with
  | nil =>
    have hstay : ∀ d, record [] d = [] := fun d => by
      unfold record
      split <;> rfl
    induction ds with
    | nil => rfl
    | cons d ds ih => rwa [recorded, List.foldl_cons, hstay]
  | cons scope outer => simp [add, recorded, List.foldl_append]

/-- With a known type that is not void, a declaration is admitted exactly if it repeats none. -/
theorem repeats_iff {Γ : Context} {d : Declaration} (hvoid : d.type? ≠ some .void)
    (hknown : ∀ type ∈ d.type?, Γ.Knows Declaration.any type) :
    (Attempt.mk Γ d).Repeats ↔ ¬ Γ.Admits Declaration.any d := by
  unfold Attempt.Repeats
  constructor
  · rintro ⟨e, he, hclash, -⟩ hadmits
    exact hadmits.free e he rfl hclash
  · intro hadmits
    by_contra hnone
    refine hadmits ⟨hknown, fun e he _ hclash => hnone ⟨e, he, hclash, ?_⟩⟩
    exact fun h => hvoid h.2

end Context

theorem Attempt.findings_append (as bs : List Attempt) : findings (as ++ bs) = findings as ++ findings bs := by
  simp [findings]

theorem Attempt.findings_single (a : Attempt) : findings [a] = if a.Repeats then [a.finding] else [] := by
  by_cases h : a.Repeats <;> simp [findings, h]

/-! ## Steps -/

/-- Every declaration that the contexts hold counts, whatever its symbol says. -/
def View.names : View where
  counts := Declaration.any
  denotes _ _ _ := True
  kept _ _ := trivial

/-- The findings that say that a name is declared again. -/
def repeatedIn (fs : List (Finding NameIssue)) : List (Finding NameIssue) :=
  fs.filter (·.issue = .multiplyDeclared)

theorem repeatedIn_append (fs gs : List (Finding NameIssue)) :
    repeatedIn (fs ++ gs) = repeatedIn fs ++ repeatedIn gs :=
  List.filter_append ..

/-- A step at declarations is right about repetitions: it reports those that the rule does, and the scopes
show the context after it. -/
structure Reports (S' : ScopeStack) (Γ' : Context) (attempts : List Attempt)
    (fs : List (Finding NameIssue)) : Prop where
  shows : S'.Shows .names Γ'
  repeated : repeatedIn fs = Attempt.findings attempts

section
variable {S S' : ScopeStack} {Γ : Context} {fs : List (Finding NameIssue)}

theorem ScopeStack.Shows.record_of_not_admits (hΓ : S.Shows .names Γ) {d : Declaration}
    (h : ¬ Γ.Admits Declaration.any d) : S.Shows .names (Γ.record d) := by
  rwa [Context.record, if_neg h]

theorem ScopeStack.Shows.record_add (hΓ : S.Shows .names Γ) {symbol : Symbol} {d : Declaration}
    (hadmits : Γ.Admits Declaration.any d) (hcls : d.nameClass = symbol.nameClass)
    (hname : d.ident.name = symbol.name) (hnew : S.findLocal? symbol.nameClass symbol.name = none) :
    (S.add symbol).Shows .names (Γ.record d) := by
  rw [Context.record, if_pos hadmits]
  exact hΓ.add rfl hcls hname hnew trivial

/-- A void declaration repeats what has its name in the plain class. -/
theorem ScopeStack.Shows.void_repeats_iff (hΓ : S.Shows .names Γ) {b : Binding} (hkind : b.type.kind = .void) :
    (Attempt.mk Γ b.declaration).Repeats ↔ (S.findLocal? .plain b.name.name).isSome := by
  have hvoid : b.declaration.type? = some .void := by
    simp [Binding.declaration, Declaration.type?, TypeName.ofRef, hkind]
  have hname : b.declaration.ident.name = b.name.name := rfl
  have hstruct : b.declaration.hasStructType = false := by
    simp [Declaration.hasStructType, hvoid, TypeName.structName?]
  have hnone := hΓ.findLocal?_eq_none .plain b.name.name
  rw [← not_iff_not, Bool.not_eq_true, Option.isSome_eq_false_iff, Option.isNone_iff_eq_none, hnone]
  simp only [Attempt.Repeats, not_exists, not_and]
  refine forall₂_congr fun e _ => ?_
  cases hcls : e.nameClass <;>
    simp [Declaration.Clashes, Declaration.names, View.names, Declaration.any, hcls, hvoid, hstruct, hname]

/-- A variable, formal or field of a known type is reported if it repeats another, and recorded if not. -/
theorem BindingStep.reports_known {b b' : Binding} (h : BindingStep S b b' S' fs) (hΓ : S.Shows .names Γ)
    (hknown : Γ.Knows Declaration.any (.ofRef b.type)) :
    Reports S' (Γ.record b.declaration) [⟨Γ, b.declaration⟩] fs := by
  have hquiet : fs = [] ↔ Γ.Admits Declaration.any b.declaration := h.quiet_iff hΓ
  have hrepeats : (Attempt.mk Γ b.declaration).Repeats ↔ fs ≠ [] := by
    rw [Ne, hquiet]
    refine Context.repeats_iff ?_ ?_
    · rintro htype
      rw [Option.some.inj htype] at hknown
      exact hknown
    · rintro type ⟨⟩
      exact hknown
  have hkind := (hΓ.knows_iff b.type).1 hknown
  cases h with
  | void hvoid => exact absurd hvoid hkind.1
  | unknownType hstruct htype => simp [ScopeStack.type?, hstruct, htype] at hkind
  | barred | taken =>
    refine ⟨hΓ.record_of_not_admits (fun hadmits => by cases hquiet.2 hadmits), ?_⟩
    rw [Attempt.findings_single, if_pos (hrepeats.2 (by simp))]
    rfl
  | declared _ _ _ hnew =>
    refine ⟨hΓ.record_add (hquiet.1 rfl) rfl rfl hnew, ?_⟩
    rw [Attempt.findings_single, if_neg (fun h => hrepeats.1 h rfl)]
    rfl

theorem BindingStep.reports {b b' : Binding} (h : BindingStep S b b' S' fs) (hΓ : S.Shows .names Γ) :
    Reports S' (Γ.record b.declaration) (b.attempts Γ) fs := by
  by_cases hknown : Γ.Knows Declaration.any (.ofRef b.type)
  · rw [Binding.attempts, if_pos (.inr hknown)]
    exact h.reports_known hΓ hknown
  -- a type that is not known is void or names a struct that is not there, and nothing is recorded
  have hadmits : ¬ Γ.Admits Declaration.any b.declaration := fun hadmits => hknown (hadmits.known _ rfl)
  have hrefused := hΓ.record_of_not_admits hadmits
  have hkind : ¬ (b.type.kind ≠ .void ∧ (S.type? b.type).isSome) := fun hkind =>
    hknown ((hΓ.knows_iff b.type).2 hkind)
  cases h with
  | void hvoid =>
    have htype : TypeName.ofRef b.type = .void := by simp [TypeName.ofRef, hvoid]
    refine ⟨hrefused, ?_⟩
    rw [Binding.attempts, if_pos (.inl htype), Attempt.findings_single]
    simp only [hΓ.void_repeats_iff hvoid, voidFindings]
    split <;> rfl
  | unknownType hstruct =>
    have hvoid : TypeName.ofRef b.type ≠ .void := by simp [TypeName.ofRef, hstruct]
    refine ⟨hrefused, ?_⟩
    rw [Binding.attempts, if_neg (not_or.2 ⟨hvoid, hknown⟩)]
    rfl
  | barred hvoid hbars =>
    refine absurd ⟨hvoid, ?_⟩ hkind
    cases hstruct : b.type.kind with
    | struct name => simp [ScopeStack.bars, hstruct] at hbars
    | int | bool | void => simp [ScopeStack.type?, hstruct]
  | taken hvoid htype | declared hvoid htype => exact absurd ⟨hvoid, by simp [htype]⟩ hkind

theorem BindingSteps.reports {bs bs' : List Binding} (h : BindingSteps S bs bs' S' fs)
    (hΓ : S.Shows .names Γ) : repeatedIn fs = Attempt.findings (Binding.listAttempts Γ bs) := by
  induction h generalizing Γ with
  | nil => rfl
  | cons hb _ ih =>
    have hfirst := hb.reports hΓ
    rw [repeatedIn_append, hfirst.repeated, ih hfirst.shows, Binding.listAttempts, Attempt.findings_append]

/-- A function or a struct whose name is free in both classes is admitted and not reported. -/
theorem ScopeStack.Shows.free (hΓ : S.Shows .names Γ) {d : Declaration} (hd : d.type? = none)
    (hname : S.hasLocal d.ident.name = false) :
    Γ.Admits Declaration.any d ∧ Attempt.findings [⟨Γ, d⟩] = [] := by
  have hadmits : Γ.Admits Declaration.any d := (hΓ.admits_iff hd).2 hname
  have hrepeats : ¬ (Attempt.mk Γ d).Repeats := by
    rw [Context.repeats_iff (by simp [hd]) (by simp [hd])]
    exact not_not_intro hadmits
  exact ⟨hadmits, by rw [Attempt.findings_single, if_neg hrepeats]⟩

/-- A function or a struct whose name is taken in either class is reported and not admitted. -/
theorem ScopeStack.Shows.taken (hΓ : S.Shows .names Γ) {d : Declaration} (hd : d.type? = none)
    (hname : S.hasLocal d.ident.name = true) :
    ¬ Γ.Admits Declaration.any d ∧ Attempt.findings [⟨Γ, d⟩] = [Attempt.finding ⟨Γ, d⟩] := by
  have hadmits : ¬ Γ.Admits Declaration.any d := by
    intro hadmits
    have hfree : S.hasLocal d.ident.name = false := (hΓ.admits_iff hd).1 hadmits
    exact absurd (hname.symm.trans hfree) (by simp)
  have hrepeats : (Attempt.mk Γ d).Repeats := (Context.repeats_iff (by simp [hd]) (by simp [hd])).2 hadmits
  exact ⟨hadmits, by rw [Attempt.findings_single, if_pos hrepeats]⟩

/-- A location fails for other reasons. -/
theorem Fails.not_repeated {l l' : Location} {f : Finding NameIssue} (h : Fails S l l' f) :
    f.issue ≠ .multiplyDeclared := by
  induction h with
  | undeclared | scalar | noField | scalarField => simp
  | inner _ ih => exact ih

theorem ItemStep.reports {i i' : Item} (h : ItemStep S i i' S' fs) (hΓ : S.Shows .names Γ) :
    Reports S' (i.declarations.foldl Context.record Γ) (i.attempts Γ) fs := by
  cases h with
  | result | unknownResult | used | undeclared | chain | noField | callee | noFunction => exact ⟨hΓ, rfl⟩
  | broken hbase => exact ⟨hΓ, by simp [repeatedIn, hbase.not_repeated, Item.attempts, Attempt.findings]⟩
  | binding hb => exact hb.reports hΓ
  | @function name params type hname =>
    obtain ⟨hadmits, hquiet⟩ := hΓ.free (d := ⟨name, .function params type⟩) rfl hname
    exact ⟨hΓ.record_add hadmits rfl rfl (S.findLocal?_eq_none hname _), hquiet.symm⟩
  | @takenFunction name params type hname =>
    obtain ⟨hadmits, hfound⟩ := hΓ.taken (d := ⟨name, .function params type⟩) rfl hname
    exact ⟨hΓ.record_of_not_admits hadmits, hfound.symm⟩
  | @struct s fields' S₁ _ hname hfields =>
    obtain ⟨hadmits, hquiet⟩ := hΓ.free (d := s.declaration) rfl hname
    have hkept : S.table.Kept S₁.table := hfields.kept
    refine ⟨(hΓ.kept hkept).record_add hadmits rfl rfl (S.findLocal?_eq_none hname _), ?_⟩
    rw [Item.attempts, StructDecl.attempts, if_pos hadmits, ← List.singleton_append,
      Attempt.findings_append, hquiet, hfields.reports hΓ.enter]
    rfl
  | @takenStruct s hname =>
    obtain ⟨hadmits, hfound⟩ := hΓ.taken (d := s.declaration) rfl hname
    refine ⟨hΓ.record_of_not_admits hadmits, ?_⟩
    rw [Item.attempts, StructDecl.attempts, if_neg hadmits]
    exact hfound.symm

theorem Visit.recorded_after (Γ : Context) : ∀ v : Visit, (v.after Γ).recorded =
    match v with
    | .enter => [] :: Γ.recorded
    | .leave => Γ.recorded.tail
    | .item i => i.declarations.foldl Context.record Γ.recorded
  | .enter => rfl
  | .leave => Γ.recorded_tail.symm
  | .item i => Γ.recorded_add i.declarations

theorem VisitStep.reports {v v' : Visit} (h : VisitStep S v v' S' fs) (hΓ : S.Shows .names Γ.recorded) :
    Reports S' (v.after Γ).recorded ((v.sites Γ).flatMap Site.attempts) fs := by
  rw [Visit.recorded_after]
  cases h with
  | enter => exact ⟨hΓ.enter, rfl⟩
  | leave => exact ⟨hΓ.leave, rfl⟩
  | item hi =>
    rw [Visit.sites, List.flatMap_singleton]
    exact hi.reports hΓ

/-- Along a walk the repetitions are reported in order. What was recorded before is read off the sites,
whatever was found on the way. -/
theorem VisitSteps.reports {vs vs' : List Visit} (h : VisitSteps S vs vs' S' fs)
    (hΓ : S.Shows .names Γ.recorded) :
    repeatedIn fs = Attempt.findings ((Visit.listSites Γ vs).flatMap Site.attempts) := by
  induction h generalizing Γ with
  | nil => rfl
  | cons hv _ ih =>
    have hfirst := hv.reports hΓ
    rw [repeatedIn_append, hfirst.repeated, ih hfirst.shows, Visit.listSites, List.flatMap_append,
      Attempt.findings_append]

end

/-! ## Programs -/

/-- The diagnostics with the text of an issue are those of the findings with this issue. -/
theorem Analysis.report_filter_message (a : Analysis) (issue : NameIssue) :
    a.report.filter (·.message = issue.message) =
      (a.findings.filter (·.issue = issue)).map (Finding.toError NameIssue.message) := by
  have hmessage : ∀ other : NameIssue, other.message = issue.message ↔ other = issue := by
    intro other
    cases other <;> cases issue <;> simp [NameIssue.message]
  rw [Analysis.report, List.filter_map]
  simp only [Function.comp_def, Finding.toError, hmessage]

/-- Whatever annotations a program comes with, the names that are reported as declared again are, in order
and one each, those of the declarations that repeat a recorded one. -/
theorem analyze_reports_repetitions (p : Program) : ∃ a, analyze p = .ok a ∧
    a.report.filter (·.message = "Multiply declared identifier") =
      (p.attempts.filter (·.Repeats)).map fun t =>
        ⟨.error, "Multiply declared identifier", t.declaration.ident.span, none⟩ := by
  obtain ⟨a, S', ha, -, hsteps, -⟩ := analyze_steps p
  have hrepeated := VisitSteps.reports (Γ := [[]]) hsteps .start
  rw [Program.listSites_visits] at hrepeated
  refine ⟨a, ha, ?_⟩
  change a.report.filter (·.message = NameIssue.multiplyDeclared.message) = _
  rw [Analysis.report_filter_message, ← repeatedIn, hrepeated, Attempt.findings, List.map_map]
  rfl

/-- The program `struct P{ int x; };` with `void P;` on the next line. -/
def Program.voidBesideStruct : Program where
  decls :=
    [.struct ⟨⟨"P", ⟨7, 8, 1, 8⟩, none⟩, [⟨⟨.int, {}⟩, ⟨"x", {}, none⟩, {}⟩], {}⟩,
     .variable ⟨⟨.void, {}⟩, ⟨"P", ⟨25, 26, 2, 6⟩, none⟩, {}⟩]

/-- The void variable has the name of a struct type that is recorded in its scope, and is not reported for it. -/
theorem voidBesideStruct_unreported :
    (∃ t ∈ Program.voidBesideStruct.attempts, ∃ e ∈ t.context.headD [], t.declaration.Clashes e) ∧
      ∃ a, analyze Program.voidBesideStruct = .ok a ∧
        a.report.filter (·.message = "Multiply declared identifier") = [] := by
  obtain ⟨a, ha, hreport⟩ := analyze_reports_repetitions Program.voidBesideStruct
  have hnone : Program.voidBesideStruct.attempts.filter (·.Repeats) = [] := by decide +kernel
  rw [hnone] at hreport
  exact ⟨by decide +kernel, a, ha, hreport⟩

/-- A plain variable with the name of a struct type repeats it; one of that struct type does not. -/
example : ((Program.mk [.struct ⟨⟨"P", {}, none⟩, [], {}⟩,
    .variable ⟨⟨.struct ⟨"P", {}, none⟩, {}⟩, ⟨"P", ⟨1, 2, 1, 2⟩, none⟩, {}⟩,
    .variable ⟨⟨.int, {}⟩, ⟨"P", ⟨2, 3, 1, 3⟩, none⟩, {}⟩]).attempts.filter (·.Repeats)).map
      (·.declaration.ident.span.start) = [2] := by
  decide

end Namescope
