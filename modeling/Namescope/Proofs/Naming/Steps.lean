import Namescope.Naming.Resolution
import Namescope.Proofs.Naming.Visits
/-!
# What a visit does

The rules of name resolution, one for each thing that can happen at an item: what it becomes, which
scopes are left behind and what is noted. A walk threads these steps over its visits. The rules cannot
fail; that the resolver follows them is shown later.
-/
namespace Namescope

/-! ## Looking names up -/

namespace ScopeStack

/-- The function that a name means, unless it means something else. -/
def function? (S : ScopeStack) (name : String) : Option SymbolId :=
  (S.find? .plain name).filter fun id => (S.table.get? id).any Symbol.isFunction

/-- The struct type that a symbol holds. -/
def held? (S : ScopeStack) (id : SymbolId) : Option SymbolId :=
  (((S.table.get? id).bind Symbol.type?).bind TypeName.structName?).bind (S.find? .struct)

/-- The type that is noted beside a field. -/
def noted? (S : ScopeStack) (id : SymbolId) : Option String :=
  ((S.table.get? id).bind Symbol.type?).map TypeName.display

/-- A field of a struct type. -/
def field? (S : ScopeStack) (owner : SymbolId) (name : String) : Option SymbolId :=
  ((S.table.get? owner).bind Symbol.fields?).bind (·.get? name)

/-- A type with the symbol of the struct that it names, if there is such a struct. -/
def type? (S : ScopeStack) (type : TypeRef) : Option TypeRef :=
  match type.kind with
  | .struct name =>
    (S.find? .struct name.name).map fun id => { type with kind := .struct { name with sym := some id } }
  | _ => some type

/-- Whether the innermost scope has a name in either class. -/
def hasLocal (S : ScopeStack) (name : String) : Bool :=
  (S.findLocal? .plain name).isSome || (S.findLocal? .struct name).isSome

/-- Whether a struct type takes the name of a binding away. It does not if the binding has a struct type
itself. -/
def bars (S : ScopeStack) (b : Binding) : Bool :=
  match b.type.kind with
  | .struct _ => false
  | _ => (S.findLocal? .struct b.name.name).isSome

/-- The scopes after a declaration. -/
def add (S : ScopeStack) (symbol : Symbol) : ScopeStack where
  table := S.table.push symbol
  innermost := S.innermost.bind symbol.nameClass symbol.name S.table.nextId
  outer := S.outer

end ScopeStack

/-- The identifier with the symbol that it stands for. -/
def Ident.mark (ident : Ident) (id : SymbolId) : Ident := { ident with sym := some id }

namespace ScopeStack
variable (S : ScopeStack) {type : TypeRef}

theorem type?_struct {name : Ident} {id : SymbolId} (h : type.kind = .struct name)
    (hid : S.find? .struct name.name = some id) :
    S.type? type = some { type with kind := .struct (name.mark id) } := by
  simp only [type?, h, hid, Option.map_some]
  rfl

theorem type?_of_ne_struct (h : ∀ name, type.kind ≠ .struct name) : S.type? type = some type := by
  unfold type?
  split
  · rename_i name hname
    exact absurd hname (h name)
  · rfl

end ScopeStack

/-- The symbol of a binding. -/
def Binding.symbol (b : Binding) : Symbol := ⟨b.name.name, .scalar (.ofRef b.type), b.name.span⟩

/-! ## Steps one after the other -/

/-- The elements of a list, changed one after the other by steps that lead from state to state. -/
inductive Thread {σ α ω : Type} (step : σ → α → α → σ → List ω → Prop) :
    σ → List α → List α → σ → List ω → Prop
  | nil {s} : Thread step s [] [] s []
  | cons {s s₁ s₂ x y xs ys fs gs} : step s x y s₁ fs → Thread step s₁ xs ys s₂ gs →
      Thread step s (x :: xs) (y :: ys) s₂ (fs ++ gs)

namespace Thread
variable {σ α β ω : Type} {step : σ → α → α → σ → List ω → Prop}

theorem single {s s' : σ} {x y : α} {fs : List ω} (h : step s x y s' fs) :
    Thread step s [x] [y] s' fs := by
  simpa using Thread.cons h .nil

theorem append {s s₁ s₂ : σ} {xs ys xs' ys' : List α} {fs gs : List ω}
    (h : Thread step s xs ys s₁ fs) (h' : Thread step s₁ xs' ys' s₂ gs) :
    Thread step s (xs ++ xs') (ys ++ ys') s₂ (fs ++ gs) := by
  induction h with
  | nil => exact h'
  | cons hs _ ih =>
    rw [List.append_assoc]
    exact .cons hs (ih h')

/-- A thread over joined lists is one over the first and then one over the second. -/
theorem of_append {s s' : σ} {xs ys zs : List α} {fs : List ω} (h : Thread step s (xs ++ ys) zs s' fs) :
    ∃ xs' ys' s₁ fs₁ fs₂, Thread step s xs xs' s₁ fs₁ ∧ Thread step s₁ ys ys' s' fs₂ := by
  induction xs generalizing s zs fs with
  | nil => exact ⟨[], zs, s, [], fs, .nil, h⟩
  | cons x xs ih =>
    cases h with
    | cons hx hrest =>
      obtain ⟨xs', ys', s₁, fs₁, fs₂, hxs, hys⟩ := ih hrest
      exact ⟨_, ys', s₁, _, fs₂, .cons hx hxs, hys⟩

theorem map {step' : σ → β → β → σ → List ω → Prop} (f : α → β)
    (hf : ∀ {s x y s' fs}, step s x y s' fs → step' s (f x) (f y) s' fs) {s s' : σ} {xs ys : List α}
    {fs : List ω} (h : Thread step s xs ys s' fs) : Thread step' s (xs.map f) (ys.map f) s' fs := by
  induction h with
  | nil => exact .nil
  | cons hs _ ih => exact .cons (hf hs) ih

/-- What every step keeps, a thread keeps. -/
theorem preserves {P : σ → Prop} (hP : ∀ {s x y s' fs}, step s x y s' fs → P s → P s') {s s' : σ}
    {xs ys : List α} {fs : List ω} (h : Thread step s xs ys s' fs) (hs : P s) : P s' := by
  induction h with
  | nil => exact hs
  | cons hstep _ ih => exact ih (hP hstep hs)

/-- What every step says of the element that it leaves, and no later step takes back, holds of all elements
that a thread leaves. -/
theorem results {I : σ → Prop} {P : α → Prop} {Q : σ → α → Prop}
    (hI : ∀ {s x y s' fs}, step s x y s' fs → I s → I s')
    (hQ : ∀ {s x y s' fs}, step s x y s' fs → I s → P x → Q s' y)
    (hk : ∀ {s x y s' fs z}, step s x y s' fs → Q s z → Q s' z) {s s' : σ} {xs ys : List α} {fs : List ω}
    (h : Thread step s xs ys s' fs) (hs : I s) (hxs : ∀ x ∈ xs, P x) : ∀ y ∈ ys, Q s' y := by
  induction h with
  | nil => intro y hy; cases hy
  | cons hstep hrest ih =>
    intro y hy
    rcases List.mem_cons.1 hy with rfl | hy
    -- what the first step says has to outlast all the others
    · exact hrest.preserves (P := fun s => Q s _) hk (hQ hstep hs (hxs _ List.mem_cons_self))
    · exact ih (hI hstep hs) (fun x hx => hxs x (List.mem_cons_of_mem _ hx)) y hy

/-- In a thread that finds nothing no step finds anything. -/
theorem quiet_results {I : σ → Prop} {Q : α → Prop} (hI : ∀ {s x y s' fs}, step s x y s' fs → I s → I s')
    (hQ : ∀ {s x y s' fs}, step s x y s' fs → fs = [] → I s → Q y) {s s' : σ} {xs ys : List α}
    {fs : List ω} (h : Thread step s xs ys s' fs) (hf : fs = []) (hs : I s) : ∀ y ∈ ys, Q y := by
  induction h with
  | nil => intro y hy; cases hy
  | cons hstep _ ih =>
    obtain ⟨hf, hg⟩ := List.append_eq_nil_iff.1 hf
    intro y hy
    rcases List.mem_cons.1 hy with rfl | hy
    · exact hQ hstep hf hs
    · exact ih hg (hI hstep hs) y hy

end Thread

/-! ## The rules -/

/-- The findings of a binding that is declared void: it declares nothing, but a name that is taken is
noted all the same. -/
def voidFindings (S : ScopeStack) (name : Ident) : List (Finding NameIssue) :=
  ⟨.voidNonFunction, name.span⟩ ::
    if (S.findLocal? .plain name.name).isSome then [⟨.multiplyDeclared, name.span⟩] else []

/-- What becomes of a variable, formal or field. -/
inductive BindingStep (S : ScopeStack) :
    Binding → Binding → ScopeStack → List (Finding NameIssue) → Prop
  | void {b} : b.type.kind = .void → BindingStep S b b S (voidFindings S b.name)
  | unknownType {b name} : b.type.kind = .struct name → S.find? .struct name.name = none →
      BindingStep S b b S [⟨.invalidStructType, name.span⟩]
  | barred {b} : b.type.kind ≠ .void → S.bars b = true →
      BindingStep S b b S [⟨.multiplyDeclared, b.name.span⟩]
  | taken {b type id} : b.type.kind ≠ .void → S.type? b.type = some type → S.bars b = false →
      S.findLocal? .plain b.name.name = some id →
      BindingStep S b ⟨type, { b.name with sym := none }, b.span⟩ S [⟨.multiplyDeclared, b.name.span⟩]
  | declared {b type} : b.type.kind ≠ .void → S.type? b.type = some type → S.bars b = false →
      S.findLocal? .plain b.name.name = none →
      BindingStep S b ⟨type, b.name.mark S.table.nextId, b.span⟩ (S.add b.symbol) []

/-- What becomes of bindings in order. -/
abbrev BindingSteps := Thread BindingStep

/-- A location of struct type, and the struct that it holds. -/
inductive Holds (S : ScopeStack) : Location → Location → SymbolId → Prop
  | name {ident id s} : S.find? .plain ident.name = some id → S.held? id = some s →
      Holds S (.name ident) (.name (ident.mark id)) s
  | field {base base' ident resolved owner id s} : Holds S base base' owner →
      S.field? owner ident.name = some id → S.held? id = some s →
      Holds S (.field base ident resolved) (.field base' (ident.mark id) (S.noted? id)) s

/-- A location that no field can be taken of, and the one finding that says why. -/
inductive Fails (S : ScopeStack) : Location → Location → Finding NameIssue → Prop
  | undeclared {ident} : S.find? .plain ident.name = none →
      Fails S (.name ident) (.name ident) ⟨.undeclared, ident.span⟩
  | scalar {ident id} : S.find? .plain ident.name = some id → S.held? id = none →
      Fails S (.name ident) (.name (ident.mark id)) ⟨.dotNonStruct, ident.span⟩
  | inner {base base' ident resolved f} : Fails S base base' f →
      Fails S (.field base ident resolved) (.field base' ident resolved) f
  | noField {base base' ident resolved owner} : Holds S base base' owner →
      S.field? owner ident.name = none →
      Fails S (.field base ident resolved) (.field base' ident resolved) ⟨.invalidField, ident.span⟩
  | scalarField {base base' ident resolved owner id} : Holds S base base' owner →
      S.field? owner ident.name = some id → S.held? id = none →
      Fails S (.field base ident resolved) (.field base' (ident.mark id) (S.noted? id))
        ⟨.dotNonStruct, ident.span⟩

/-- What becomes of an item. -/
inductive ItemStep (S : ScopeStack) : Item → Item → ScopeStack → List (Finding NameIssue) → Prop
  | result {type type'} : S.type? type = some type' → ItemStep S (.result type) (.result type') S []
  | unknownResult {type name} : type.kind = .struct name → S.find? .struct name.name = none →
      ItemStep S (.result type) (.result type) S [⟨.invalidStructType, name.span⟩]
  | function {name params result} : S.hasLocal name.name = false →
      ItemStep S (.function name params result)
        (.function (name.mark S.table.nextId) params result)
        (S.add ⟨name.name, .function params result, name.span⟩) []
  | takenFunction {name params result} : S.hasLocal name.name = true →
      ItemStep S (.function name params result) (.function name params result) S
        [⟨.multiplyDeclared, name.span⟩]
  | binding {b b' S' fs} : BindingStep S b b' S' fs → ItemStep S (.binding b) (.binding b') S' fs
  | struct {s fields' S₁ fs} : S.hasLocal s.name.name = false →
      BindingSteps S.enter s.fields fields' S₁ fs →
      ItemStep S (.struct s) (.struct ⟨s.name.mark S₁.table.nextId, fields', s.span⟩)
        ({ S with table := S₁.table }.add
          ⟨s.name.name, .struct S₁.innermost.fieldTable, s.name.span⟩) fs
  | takenStruct {s} : S.hasLocal s.name.name = true →
      ItemStep S (.struct s) (.struct s) S [⟨.multiplyDeclared, s.name.span⟩]
  | used {ident id} : S.find? .plain ident.name = some id →
      ItemStep S (.place (.name ident)) (.place (.name (ident.mark id))) S []
  | undeclared {ident} : S.find? .plain ident.name = none →
      ItemStep S (.place (.name ident)) (.place (.name ident)) S [⟨.undeclared, ident.span⟩]
  | chain {base base' ident resolved owner id} : Holds S base base' owner →
      S.field? owner ident.name = some id →
      ItemStep S (.place (.field base ident resolved))
        (.place (.field base' (ident.mark id) (S.noted? id))) S []
  | noField {base base' ident resolved owner} : Holds S base base' owner →
      S.field? owner ident.name = none →
      ItemStep S (.place (.field base ident resolved)) (.place (.field base' ident resolved)) S
        [⟨.invalidField, ident.span⟩]
  | broken {base base' ident resolved f} : Fails S base base' f →
      ItemStep S (.place (.field base ident resolved)) (.place (.field base' ident resolved)) S [f]
  | callee {ident id} : S.function? ident.name = some id →
      ItemStep S (.callee ident) (.callee (ident.mark id)) S []
  | noFunction {ident} : S.function? ident.name = none →
      ItemStep S (.callee ident) (.callee ident) S [⟨.undeclared, ident.span⟩]

/-- What a visit does. -/
inductive VisitStep : ScopeStack → Visit → Visit → ScopeStack → List (Finding NameIssue) → Prop
  | enter {S} : VisitStep S .enter .enter S.enter []
  | leave {table innermost next outer} :
      VisitStep ⟨table, innermost, next :: outer⟩ .leave .leave ⟨table, next, outer⟩ []
  | item {S i i' S' fs} : ItemStep S i i' S' fs → VisitStep S (.item i) (.item i') S' fs

/-- What visits do one after the other. -/
abbrev VisitSteps := Thread VisitStep

theorem BindingSteps.steps {S S' : ScopeStack} {bs bs' : List Binding} {fs : List (Finding NameIssue)}
    (h : BindingSteps S bs bs' S' fs) : VisitSteps S (Visit.bindings bs) (Visit.bindings bs') S' fs :=
  Thread.map (fun b => Visit.item (.binding b)) (fun hb => VisitStep.item (.binding hb)) h

end Namescope
