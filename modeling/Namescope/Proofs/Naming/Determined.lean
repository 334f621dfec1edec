import Namescope.Proofs.Naming.Trees
/-!
# The rules leave no choice

What a visit becomes, the scopes after it and what is noted follow from the visit and the scopes before it.
So a walk can be taken apart: its visits, made one after the other, come to the same as the walk.
-/
namespace Namescope

/-! ## One outcome for each step -/

/-- Steps that have one outcome each have one outcome together. -/
theorem Thread.unique {σ α ω : Type} {step : σ → α → α → σ → List ω → Prop}
    (hstep : ∀ {s x y z s₁ s₂ fs gs}, step s x y s₁ fs → step s x z s₂ gs → y = z ∧ s₁ = s₂ ∧ fs = gs)
    {s s₁ s₂ : σ} {xs ys zs : List α} {fs gs : List ω} (h : Thread step s xs ys s₁ fs)
    (h' : Thread step s xs zs s₂ gs) : ys = zs ∧ s₁ = s₂ ∧ fs = gs := by
  induction h generalizing zs s₂ gs with
  | nil =>
    cases h'
    exact ⟨rfl, rfl, rfl⟩
  | cons hfirst _ ih =>
    cases h' with
    | cons hfirst' hmore' =>
      obtain ⟨rfl, rfl, rfl⟩ := hstep hfirst hfirst'
      obtain ⟨rfl, rfl, rfl⟩ := ih hmore'
      exact ⟨rfl, rfl, rfl⟩

section
variable {S S₁ S₂ : ScopeStack} {fs gs : List (Finding NameIssue)}

theorem ScopeStack.type?_eq_none {type : TypeRef} {name : Ident} (h : type.kind = .struct name)
    (hid : S.find? .struct name.name = none) : S.type? type = none := by
  simp only [type?, h, hid, Option.map_none]

theorem BindingStep.unique {b b₁ b₂ : Binding} (h : BindingStep S b b₁ S₁ fs) (h' : BindingStep S b b₂ S₂ gs) :
    b₁ = b₂ ∧ S₁ = S₂ ∧ fs = gs := by
  cases h <;> cases h' <;> simp_all [ScopeStack.type?_eq_none, ScopeStack.bars]

theorem BindingSteps.unique {bs bs₁ bs₂ : List Binding} (h : BindingSteps S bs bs₁ S₁ fs)
    (h' : BindingSteps S bs bs₂ S₂ gs) : bs₁ = bs₂ ∧ S₁ = S₂ ∧ fs = gs :=
  Thread.unique (fun hb hb' => hb.unique hb') h h'

theorem Holds.unique {l l₁ l₂ : Location} {owner owner' : SymbolId} (h : Holds S l l₁ owner)
    (h' : Holds S l l₂ owner') : l₁ = l₂ ∧ owner = owner' := by
  induction h generalizing l₂ owner' with
  | name => cases h' with | name => simp_all
  | field _ _ _ ih =>
    cases h' with
    | field hbase =>
      obtain ⟨rfl, rfl⟩ := ih hbase
      simp_all

/-- A location that holds a struct does not fail. -/
theorem Holds.not_fails {l l₁ l₂ : Location} {owner : SymbolId} {f : Finding NameIssue} (h : Holds S l l₁ owner) :
    ¬ Fails S l l₂ f := by
  intro h'
  induction h generalizing l₂ f with
  | name => cases h' <;> simp_all
  | field hbase _ _ ih =>
    cases h' with
    | inner hfails => exact ih hfails
    | noField hbase' | scalarField hbase' =>
      obtain ⟨rfl, rfl⟩ := hbase.unique hbase'
      simp_all

theorem Fails.unique {l l₁ l₂ : Location} {f f' : Finding NameIssue} (h : Fails S l l₁ f) (h' : Fails S l l₂ f') :
    l₁ = l₂ ∧ f = f' := by
  induction h generalizing l₂ f' with
  | undeclared | scalar => cases h' <;> simp_all
  | inner hfails ih =>
    cases h' with
    | inner hfails' =>
      obtain ⟨rfl, rfl⟩ := ih hfails'
      exact ⟨rfl, rfl⟩
    | noField hbase' | scalarField hbase' => exact absurd hfails hbase'.not_fails
  | noField hbase | scalarField hbase =>
    cases h' with
    | inner hfails' => exact absurd hfails' hbase.not_fails
    | noField hbase' | scalarField hbase' =>
      obtain ⟨rfl, rfl⟩ := hbase.unique hbase'
      simp_all

theorem ItemStep.unique_place {base : Location} {ident : Ident} {resolved : Option String} {i₁ i₂ : Item}
    (h : ItemStep S (.place (.field base ident resolved)) i₁ S₁ fs)
    (h' : ItemStep S (.place (.field base ident resolved)) i₂ S₂ gs) : i₁ = i₂ ∧ S₁ = S₂ ∧ fs = gs := by
  cases h with
  | chain hbase | noField hbase =>
    cases h' with
    | chain hbase' | noField hbase' =>
      obtain ⟨rfl, rfl⟩ := hbase.unique hbase'
      simp_all
    | broken hfails => exact absurd hfails hbase.not_fails
  | broken hfails =>
    cases h' with
    | chain hbase' | noField hbase' => exact absurd hfails hbase'.not_fails
    | broken hfails' =>
      obtain ⟨rfl, rfl⟩ := hfails.unique hfails'
      exact ⟨rfl, rfl, rfl⟩

theorem ItemStep.unique {i i₁ i₂ : Item} (h : ItemStep S i i₁ S₁ fs) (h' : ItemStep S i i₂ S₂ gs) :
    i₁ = i₂ ∧ S₁ = S₂ ∧ fs = gs := by
  cases i with
  | result => cases h <;> cases h' <;> simp_all [ScopeStack.type?_eq_none]
  | function | callee => cases h <;> cases h' <;> simp_all
  | binding =>
    cases h with | binding hb =>
    cases h' with | binding hb' =>
    obtain ⟨rfl, rfl, rfl⟩ := hb.unique hb'
    exact ⟨rfl, rfl, rfl⟩
  | struct =>
    cases h with
    | takenStruct => cases h' <;> simp_all
    | struct _ hfields =>
      cases h' with
      | takenStruct => simp_all
      | struct _ hfields' =>
        obtain ⟨rfl, rfl, rfl⟩ := hfields.unique hfields'
        exact ⟨rfl, rfl, rfl⟩
  | place location =>
    cases location with
    | name => cases h <;> cases h' <;> simp_all
    | field => exact h.unique_place h'

/-- What visits do follows from the scopes before them. -/
theorem VisitSteps.unique {vs ws us : List Visit} (h : VisitSteps S vs ws S₁ fs) (h' : VisitSteps S vs us S₂ gs) :
    ws = us ∧ S₁ = S₂ ∧ fs = gs := by
  refine Thread.unique (fun h h' => ?_) h h'
  cases h with
  | enter | leave =>
    cases h'
    exact ⟨rfl, rfl, rfl⟩
  | item hi =>
    cases h' with | item hi' =>
    obtain ⟨rfl, rfl, rfl⟩ := hi.unique hi'
    exact ⟨rfl, rfl, rfl⟩

end

/-! ## Visits made one by one -/

namespace Resolve

/-- Walks over one item. -/
def item : Item → Resolve Item
  | .result type => Item.result <$> resultType type
  | .function name params result => (Item.function · params result) <$> signature name params result
  | .binding b => Item.binding <$> binding b
  | .struct s => Item.struct <$> struct s
  | .place l => Item.place <$> location l
  | .callee ident => Item.callee <$> callee ident

/-- Makes one visit. -/
def visit : Visit → Resolve Visit
  | .enter => do
    enter
    return .enter
  | .leave => do
    let _ ← exit
    return .leave
  | .item i => Visit.item <$> item i

/-- Makes visits in order. -/
def visits : List Visit → Resolve (List Visit)
  | [] => pure []
  | first :: more => do
    let first ← visit first
    let more ← visits more
    return first :: more

theorem yields_item {S : ScopeStack} (hS : S.Sound) (i : Item) :
    ∃ i' S' fs, Yields (item i) S i' S' fs ∧ ItemStep S i i' S' fs := by
  cases i with
  | result type =>
    obtain ⟨type', fs, hy, hi⟩ := yields_resultType hS type
    exact ⟨_, S, fs, hy.map _, hi⟩
  | function name params result =>
    obtain ⟨name', S', fs, hy, hi⟩ := yields_signature S name params result
    exact ⟨_, S', fs, hy.map _, hi⟩
  | binding b =>
    obtain ⟨b', S', fs, hy, hb⟩ := yields_binding hS b
    exact ⟨_, S', fs, hy.map _, .binding hb⟩
  | struct s =>
    obtain ⟨s', S', fs, hy, hi⟩ := yields_struct hS s
    exact ⟨_, S', fs, hy.map _, hi⟩
  | place l =>
    obtain ⟨l', fs, hy, hi⟩ := yields_location hS l
    exact ⟨_, S, fs, hy.map _, hi⟩
  | callee ident =>
    obtain ⟨ident', fs, hy, hi⟩ := yields_callee hS ident
    exact ⟨_, S, fs, hy.map _, hi⟩

/-- A visit that the rules allow is made. -/
theorem yields_visit {S S' : ScopeStack} {v v' : Visit} {fs : List (Finding NameIssue)}
    (h : VisitStep S v v' S' fs) (hS : S.Sound) : Yields (visit v) S v' S' fs := by
  cases h with
  | enter => exact (yields_enter S).andThen (.pure _ _)
  | leave => exact (yields_exit _ _ _ rfl).andThen (.pure _ _)
  | @item _ i _ _ _ hi =>
    obtain ⟨i', S'', gs, hy, hi'⟩ := yields_item hS i
    obtain ⟨rfl, rfl, rfl⟩ := hi.unique hi'
    exact hy.map _

theorem yields_visits {S S' : ScopeStack} {vs vs' : List Visit} {fs : List (Finding NameIssue)}
    (h : VisitSteps S vs vs' S' fs) (hS : S.Sound) : Yields (visits vs) S vs' S' fs := by
  induction h with
  | nil => exact .pure _ _
  | cons hv _ ih => exact (yields_visit hv hS).bind ((ih (hv.sound hS)).thenQuiet (.pure _ _))

/-- A walk that follows visits comes to the same as these visits made one by one. -/
theorem Follows.visits {α : Type} {walk : Resolve α} {vs : List Visit} {Q : α → List Visit → Prop}
    (h : Follows walk vs Q) {S : ScopeStack} (hS : S.Sound) : ∃ a S' vs' fs,
      Yields walk S a S' fs ∧ Yields (Resolve.visits vs) S vs' S' fs ∧ Q a vs' := by
  obtain ⟨a, S', vs', fs, hy, hsteps, -, hQ⟩ := h S hS
  exact ⟨a, S', vs', fs, hy, yields_visits hsteps hS, hQ⟩

/-- A declaration comes to the same as the visits to it. -/
theorem yields_decl_visits {S : ScopeStack} (hS : S.Sound) (d : Decl) : ∃ d' S' fs,
    Yields (decl d) S d' S' fs ∧ Yields (Resolve.visits d.visits) S d'.visits S' fs := by
  obtain ⟨d', S', vs', fs, hy, hvisits, rfl, -⟩ := (follows_decl d).visits hS
  exact ⟨d', S', fs, hy, hvisits⟩

/-! ### Runs that end well -/

theorem exists_of_run_bind {α β : Type} {walk : Resolve α} {next : α → Resolve β} {b : β} {r r' : Resolver}
    (h : (walk >>= next).run r = .ok (b, r')) :
    ∃ a r₁, walk.run r = .ok (a, r₁) ∧ (next a).run r₁ = .ok (b, r') := by
  rw [StateT.run_bind] at h
  cases hwalk : walk.run r with
  | error e =>
    rw [hwalk] at h
    cases h
  | ok p =>
    rw [hwalk] at h
    exact ⟨p.1, p.2, rfl, h⟩

/-- A part of a walk gives what it yields. -/
theorem Yields.of_run_ok {α : Type} {walk : Resolve α} {S' : ScopeStack} {a b : α} {fs : List (Finding NameIssue)}
    {r r' : Resolver} (h : Yields walk r.scopes a S' fs) (hrun : walk.run r = .ok (b, r')) :
    b = a ∧ r'.scopes = S' := by
  obtain ⟨more, e⟩ := h r.findings r.events
  rw [e] at hrun
  cases hrun
  exact ⟨rfl, rfl⟩

theorem step_of_visit {v v' : Visit} {r r' : Resolver} (hr : r.scopes.Sound)
    (h : (visit v).run r = .ok (v', r')) : ∃ fs, VisitStep r.scopes v v' r'.scopes fs := by
  cases v with
  | enter =>
    obtain ⟨rfl, e⟩ := ((yields_enter r.scopes).andThen (.pure _ Visit.enter)).of_run_ok h
    exact ⟨[], e ▸ .enter⟩
  | leave =>
    obtain ⟨⟨table, innermost, outer⟩, findings, events⟩ := r
    cases outer with
    | nil => cases h
    | cons next outer =>
      obtain ⟨rfl, e⟩ := ((yields_exit ⟨table, innermost, next :: outer⟩ next outer rfl).andThen
        (.pure _ Visit.leave)).of_run_ok (r := ⟨_, findings, events⟩) h
      exact ⟨[], e ▸ .leave⟩
  | item i =>
    obtain ⟨i', S', fs, hy, hi⟩ := yields_item hr i
    obtain ⟨rfl, e⟩ := (hy.map Visit.item).of_run_ok h
    exact ⟨fs, e ▸ .item hi⟩

/-- Visits that are made without an internal error are made by the rules. -/
theorem steps_of_visits {vs vs' : List Visit} {r r' : Resolver} (hr : r.scopes.Sound)
    (h : (visits vs).run r = .ok (vs', r')) : ∃ fs, VisitSteps r.scopes vs vs' r'.scopes fs := by
  induction vs generalizing r vs' with
  | nil =>
    cases h
    exact ⟨[], .nil⟩
  | cons v vs ih =>
    obtain ⟨v', r₁, hv, h⟩ := exists_of_run_bind h
    obtain ⟨ws', r₂, hvs, h⟩ := exists_of_run_bind h
    cases h
    obtain ⟨fs, hstep⟩ := step_of_visit hr hv
    obtain ⟨gs, hsteps⟩ := ih (hstep.sound hr) hvs
    exact ⟨fs ++ gs, .cons hstep hsteps⟩

end Resolve

end Namescope
