import Namescope.Proofs.Naming.Determined
import Namescope.Proofs.Naming.Likeness
/-!
# What name resolution writes

A walk reads names and places but never what was written at an identifier before. What it writes there is a
stamp, and the stamps of a walk follow from the names and scopes alone: a walk that is alike leaves the
stamps that stand for them. This is shown for every step first and then along a walk.
-/
namespace Namescope

/-! ## Stamps -/

/-- What is written at an identifier: nothing, that it has no symbol, its symbol, or its symbol and the declared
type of this. -/
inductive Stamp where
  | keep
  | clear
  | mark (id : SymbolId)
  | field (id : SymbolId) (type : TypeName)

namespace Stamp

/-- The identifier after it is stamped. Only beside a field there is room for a type. -/
def write : Stamp → Occurrence → Occurrence
  | .keep, o => o
  | .clear, o => { o with ident := { o.ident with sym := none } }
  | .mark id, o => { o with ident := o.ident.mark id }
  | .field id type, o =>
    { o with
      ident := o.ident.mark id
      resolved := if o.role = .field then some type.display else o.resolved }

/-- The stamp that stands for this one in an alike walk. -/
def map (ℓ : Likeness) : Stamp → Stamp
  | .keep => .keep
  | .clear => .clear
  | .mark id => .mark (ℓ.id id)
  | .field id type => .field (ℓ.id id) (type.relabel ℓ.renaming)

/-- A type is that of the symbol beside it. -/
def Holds (table : SymbolTable) : Stamp → Prop
  | .field id type => (table.get? id).bind Symbol.type? = some type
  | _ => True

theorem Holds.kept {table table' : SymbolTable} (hk : table.Kept table') {stamp : Stamp} (h : stamp.Holds table) :
    stamp.Holds table' := by
  cases stamp with
  | field id type =>
    obtain ⟨s, hs, ht⟩ := Option.bind_eq_some_iff.1 h
    exact Option.bind_eq_some_iff.2 ⟨s, hk _ _ hs, ht⟩
  | _ => trivial

/-- Stamping again changes nothing. -/
theorem write_write (stamp : Stamp) (o : Occurrence) : stamp.write (stamp.write o) = stamp.write o := by
  cases stamp with
  | field id type =>
    simp only [write, Ident.mark]
    split <;> rfl
  | _ => rfl

end Stamp

/-- Identifiers in order become others by one stamp each. -/
structure Stamped (stamps : List Stamp) (os os' : List Occurrence) : Prop where
  length : stamps.length = os.length
  eq : os' = List.zipWith Stamp.write stamps os

namespace Stamped
variable {stamps stamps' : List Stamp} {os os' us us' : List Occurrence}

theorem append (h : Stamped stamps os os') (h' : Stamped stamps' us us') :
    Stamped (stamps ++ stamps') (os ++ us) (os' ++ us') where
  length := by rw [List.length_append, List.length_append, h.length, h'.length]
  eq := by rw [List.zipWith_append h.length, h.eq, h'.eq]

theorem cons (h : Stamped stamps os os') (stamp : Stamp) (o : Occurrence) :
    Stamped (stamp :: stamps) (o :: os) (stamp.write o :: os') where
  length := congrArg Nat.succ h.length
  eq := by rw [List.zipWith_cons_cons, h.eq]

theorem keep {n : Nat} (h : os.length = n) : Stamped (List.replicate n .keep) os os where
  length := by rw [List.length_replicate, h]
  eq := by
    subst h
    induction os with
    | nil => rfl
    | cons o os ih =>
      rw [List.length_cons, List.replicate_succ, List.zipWith_cons_cons, ← ih]
      rfl

/-- Every identifier has its stamp. -/
theorem getElem? (h : Stamped stamps os os') {k : Nat} {o : Occurrence} (hk : os[k]? = some o) :
    ∃ stamp, stamps[k]? = some stamp ∧ os'[k]? = some (stamp.write o) := by
  obtain ⟨hlt, -⟩ := List.getElem?_eq_some_iff.1 hk
  rw [← h.length] at hlt
  have hstamp := List.getElem?_eq_getElem hlt
  refine ⟨_, hstamp, ?_⟩
  rw [h.eq, List.getElem?_zipWith, hstamp, hk]

/-- Identifiers that have their stamps stay as they are. -/
theorem again (h : Stamped stamps os os') : List.zipWith Stamp.write stamps os' = os' := by
  obtain ⟨hlength, rfl⟩ := h
  induction stamps generalizing os with
  | nil => rfl
  | cons stamp stamps ih =>
    cases os with
    | nil => rfl
    | cons o os =>
      rw [List.zipWith_cons_cons, List.zipWith_cons_cons, stamp.write_write, ih (Nat.succ.inj hlength)]

end Stamped

/-- Stamps on identifiers that correspond leave identifiers that correspond. -/
theorem Stamped.map_eq {before before' after after' : Occurrence → Occurrence} {f : Stamp → Stamp}
    (hwrite : ∀ (stamp : Stamp) (o o' : Occurrence), before' o' = before o →
      after' ((f stamp).write o') = after (stamp.write o)) {stamps : List Stamp} {os os' us us' : List Occurrence}
    (h : Stamped stamps os us) (h' : Stamped (stamps.map f) os' us') (e : os'.map before' = os.map before) :
    us'.map after' = us.map after := by
  obtain ⟨hlength, rfl⟩ := h
  obtain ⟨-, rfl⟩ := h'
  induction stamps generalizing os os' with
  | nil => rfl
  | cons stamp stamps ih =>
    cases os with
    | nil => cases hlength
    | cons o os =>
      obtain ⟨o', os', rfl, hfirst, hmore⟩ := List.map_eq_cons_iff.1 e
      simp only [List.map_cons, List.zipWith_cons_cons]
      rw [hwrite stamp o o' hfirst, ih hmore (Nat.succ.inj hlength)]

theorem Stamped.map_append {f : Stamp → Stamp} {stamps stamps' : List Stamp} {os os' us us' : List Occurrence}
    (h : Stamped (stamps.map f) os os') (h' : Stamped (stamps'.map f) us us') :
    Stamped ((stamps ++ stamps').map f) (os ++ us) (os' ++ us') := by
  rw [List.map_append]
  exact h.append h'

/-- A relabelling does to a tree what a likeness does to stamps: symbols are others, and noted types stay. -/
structure Likeness.Labels (ℓ : Likeness) (f : Relabel) : Prop where
  name : ∀ name, ℓ.name name = name
  resolved : ∀ type, f.resolved type = type
  unmarked : f.sym none = none
  marked : ∀ id, f.sym (some id) = some (ℓ.id id)

theorem Stamp.write_relabel {ℓ : Likeness} {f : Relabel} (h : ℓ.Labels f) (stamp : Stamp) (o : Occurrence) :
    (stamp.map ℓ).write (o.relabel f) = (stamp.write o).relabel f := by
  have hident (ident : Ident) (id : SymbolId) : (ident.relabel f).mark (ℓ.id id) = (ident.mark id).relabel f :=
    congrArg (Ident.mk (f.name ident.name) (f.span ident.span)) (h.marked id).symm
  have hclear (ident : Ident) : { ident.relabel f with sym := none } = { ident with sym := none }.relabel f :=
    congrArg (Ident.mk (f.name ident.name) (f.span ident.span)) h.unmarked.symm
  have htype (type : TypeName) : type.relabel ℓ.renaming = type := by
    cases type with
    | struct name => exact congrArg TypeName.struct (h.name name)
    | _ => rfl
  obtain ⟨role, ident, resolved⟩ := o
  cases stamp with
  | keep => rfl
  | clear => cases role <;> exact congrArg (Occurrence.mk _ · _) (hclear ident)
  | mark id => cases role <;> exact congrArg (Occurrence.mk _ · _) (hident ident id)
  | field id type =>
    rw [map, htype]
    cases role with
    | field => exact congrArg₂ (Occurrence.mk .field) (hident ident id) (h.resolved _).symm
    | _ => exact congrArg (Occurrence.mk _ · _) (hident ident id)

/-- The stamps that stand for others leave relabelled identifiers relabelled. -/
theorem Stamped.relabel {ℓ : Likeness} {f : Relabel} (hf : ℓ.Labels f) {stamps : List Stamp}
    {os us us' : List Occurrence} (h : Stamped stamps os us)
    (h' : Stamped (stamps.map (Stamp.map ℓ)) (os.map (Occurrence.relabel f)) us') :
    us' = us.map (Occurrence.relabel f) := by
  have hwrite (stamp : Stamp) (o o' : Occurrence) (ho : id o' = o.relabel f) :
      id ((stamp.map ℓ).write o') = (stamp.write o).relabel f := by
    rw [id, ← stamp.write_relabel hf o, ← ho, id]
  have hus := h.map_eq hwrite h' (List.map_id _)
  rwa [List.map_id] at hus

theorem Stamp.holds_replicate_keep (table : SymbolTable) (n : Nat) :
    ∀ stamp ∈ List.replicate n Stamp.keep, stamp.Holds table := by
  intro stamp hs
  rw [List.eq_of_mem_replicate hs]
  trivial

theorem Stamp.map_replicate_keep (ℓ : Likeness) (n : Nat) :
    (List.replicate n Stamp.keep).map (map ℓ) = List.replicate n .keep := by
  rw [List.map_replicate]
  rfl

/-! ## Alike trees have equally many identifiers -/

section
variable {ℓ : Likeness}

theorem TypeKind.Alike.length_occurrences {type type' : TypeRef} (h : type.kind.Alike ℓ type'.kind) :
    type'.occurrences.length = type.occurrences.length := by
  obtain ⟨kind, span⟩ := type
  obtain ⟨kind', span'⟩ := type'
  cases h <;> rfl

theorem Binding.Alike.length_occurrences {b b' : Binding} (h : b.Alike ℓ b') :
    b'.occurrences.length = b.occurrences.length := by
  rw [Binding.occurrences, List.length_append, h.type.length_occurrences, Binding.occurrences, List.length_append]
  rfl

theorem Binding.length_fields {bs bs' : List Binding} (h : List.Forall₂ (Binding.Alike ℓ) bs bs') :
    (bs'.flatMap Binding.occurrences).length = (bs.flatMap Binding.occurrences).length := by
  induction h with
  | nil => rfl
  | cons hb _ ih =>
    rw [List.flatMap_cons, List.flatMap_cons, List.length_append, List.length_append, hb.length_occurrences, ih]

end

/-! ## Steps and the stamps they leave -/

/-- What a step finds stands for what another one finds: the same issue, at places that stand for each other. -/
def Likeness.finding (ℓ : Likeness) (f g : Finding NameIssue) : Prop :=
  g.issue = f.issue ∧ ℓ.span f.span g.span

/-- Where places are given by a function, so is what is found. -/
theorem Likeness.findings_map {ℓ : Likeness} {f : Span → Span} (hspan : ∀ {s t}, ℓ.span s t → t = f s)
    {fs gs : List (Finding NameIssue)} (h : List.Forall₂ ℓ.finding fs gs) :
    gs = fs.map fun found => ⟨found.issue, f found.span⟩ := by
  induction h with
  | nil => rfl
  | @cons found found' _ _ hfound _ ih =>
    obtain ⟨issue, span⟩ := found
    obtain ⟨issue', span'⟩ := found'
    obtain ⟨hissue, h⟩ := hfound
    obtain rfl : issue' = issue := hissue
    obtain rfl : span' = f span := hspan h
    rw [ih]
    rfl

/-- Where places stand for themselves, the same is found. -/
theorem Likeness.eq_of_findings {ℓ : Likeness} (hspan : ∀ {s t}, ℓ.span s t → s = t) {fs gs : List (Finding NameIssue)}
    (h : List.Forall₂ ℓ.finding fs gs) : gs = fs :=
  (findings_map (f := fun span => span) (fun h => (hspan h).symm) h).trans fs.map_id

/-- What a step from `S` writes are stamps, and from alike scopes an alike step is made: it finds the same,
ends in alike scopes and leaves the stamps that stand for these. -/
def Mirrors {α : Type} (step : ScopeStack → α → α → ScopeStack → List (Finding NameIssue) → Prop)
    (occurrences : α → List Occurrence) (alike : Likeness → α → α → Prop) (S : ScopeStack) (x y : α)
    (S' : ScopeStack) (fs : List (Finding NameIssue)) : Prop :=
  ∃ stamps, Stamped stamps (occurrences x) (occurrences y) ∧ (∀ stamp ∈ stamps, stamp.Holds S'.table) ∧
    ∀ (ℓ : Likeness) (T : ScopeStack) (x' : α), S.Alike ℓ T → alike ℓ x x' → ∃ y' T' gs,
      step T x' y' T' gs ∧ List.Forall₂ ℓ.finding fs gs ∧ S'.Alike ℓ T' ∧
        Stamped (stamps.map (Stamp.map ℓ)) (occurrences x') (occurrences y')

/-- What every step mirrors, steps one after the other mirror. -/
theorem Thread.mirrors {α : Type} {step : ScopeStack → α → α → ScopeStack → List (Finding NameIssue) → Prop}
    {occurrences : α → List Occurrence} {alike : Likeness → α → α → Prop}
    (hsound : ∀ {S x y S' fs}, step S x y S' fs → S.Sound → S'.Sound)
    (hkept : ∀ {S x y S' fs}, step S x y S' fs → S.table.Kept S'.table)
    (hstep : ∀ {S x y S' fs}, step S x y S' fs → S.Sound → Mirrors step occurrences alike S x y S' fs)
    {S S' : ScopeStack} {xs ys : List α} {fs : List (Finding NameIssue)} (h : Thread step S xs ys S' fs)
    (hS : S.Sound) :
    Mirrors (Thread step) (List.flatMap occurrences) (fun ℓ => List.Forall₂ (alike ℓ)) S xs ys S' fs := by
  induction h with
  | nil =>
    refine ⟨[], ⟨rfl, rfl⟩, List.forall_mem_nil _, fun ℓ T xs' hT halike => ?_⟩
    cases halike
    exact ⟨[], T, [], .nil, .nil, hT, ⟨rfl, rfl⟩⟩
  | cons hfirst hmore ih =>
    obtain ⟨stamps, hstamped, hholds, hlike⟩ := hstep hfirst hS
    obtain ⟨stamps', hstamped', hholds', hlike'⟩ := ih (hsound hfirst hS)
    have hkept' := Thread.preserves (P := fun T => SymbolTable.Kept _ T.table)
      (fun hx hk => hk.trans (hkept hx)) hmore (.refl _)
    refine ⟨stamps ++ stamps', ?_, ?_, fun ℓ T xs' hT halike => ?_⟩
    · exact hstamped.append hstamped'
    · exact List.forall_mem_append.2 ⟨fun stamp hs => (hholds stamp hs).kept hkept', hholds'⟩
    · cases halike with
      | cons hx hxs =>
        obtain ⟨y', T₁, gs, hy, hfound, hT₁, hs⟩ := hlike ℓ T _ hT hx
        obtain ⟨ys', T₂, gs', hys, hfound', hT₂, hs'⟩ := hlike' ℓ T₁ _ hT₁ hxs
        exact ⟨y' :: ys', T₂, gs ++ gs', .cons hy hys, List.rel_append hfound hfound', hT₂, hs.map_append hs'⟩

/-! ### Declarations -/

section
variable {S S' : ScopeStack} {fs : List (Finding NameIssue)}

/-- A step that writes nothing. -/
theorem Mirrors.of_keep {α : Type} {step : ScopeStack → α → α → ScopeStack → List (Finding NameIssue) → Prop}
    {occurrences : α → List Occurrence} {alike : Likeness → α → α → Prop} {x : α}
    (hlength : ∀ {ℓ : Likeness} {x'}, alike ℓ x x' → (occurrences x').length = (occurrences x).length)
    (h : ∀ (ℓ : Likeness) (T : ScopeStack) (x' : α), S.Alike ℓ T → alike ℓ x x' → ∃ gs,
      step T x' x' T gs ∧ List.Forall₂ ℓ.finding fs gs) :
    Mirrors step occurrences alike S x x S fs := by
  refine ⟨List.replicate (occurrences x).length .keep, .keep rfl, Stamp.holds_replicate_keep _ _, ?_⟩
  intro ℓ T x' hT halike
  obtain ⟨gs, hstep, hfound⟩ := h ℓ T x' hT halike
  refine ⟨x', T, gs, hstep, hfound, hT, ?_⟩
  rw [Stamp.map_replicate_keep]
  exact .keep (hlength halike)

/-- A type that is known is known in alike scopes, and has its symbol there. -/
theorem ScopeStack.type?_mirrors {type known : TypeRef} (h : S.type? type = some known) :
    ∃ stamps, Stamped stamps type.occurrences known.occurrences ∧
      (∀ table, ∀ stamp ∈ stamps, Stamp.Holds table stamp) ∧
      ∀ (ℓ : Likeness) (T : ScopeStack) (type' : TypeRef), S.Alike ℓ T → type.kind.Alike ℓ type'.kind →
        ∃ known', T.type? type' = some known' ∧
          Stamped (stamps.map (Stamp.map ℓ)) type'.occurrences known'.occurrences := by
  obtain ⟨kind, span⟩ := type
  cases kind with
  | struct name =>
    obtain ⟨id, hid, rfl⟩ := Option.map_eq_some_iff.1 h
    refine ⟨[.mark id], ⟨rfl, rfl⟩, fun _ stamp hs => ?_, ?_⟩
    · rw [List.mem_singleton.1 hs]
      trivial
    · rintro ℓ T ⟨kind', span'⟩ hT halike
      cases halike with
      | struct hname => exact ⟨_, T.type?_struct rfl (hT.find?_eq hname hid), ⟨rfl, rfl⟩⟩
  | int | bool | void =>
    cases h
    refine ⟨[], ⟨rfl, rfl⟩, fun _ => List.forall_mem_nil _, ?_⟩
    rintro ℓ T ⟨kind', span'⟩ hT halike
    cases halike
    exact ⟨_, rfl, ⟨rfl, rfl⟩⟩

theorem Likeness.findings_single {ℓ : Likeness} (issue : NameIssue) {span span' : Span} (h : ℓ.span span span') :
    List.Forall₂ ℓ.finding [⟨issue, span⟩] [⟨issue, span'⟩] :=
  .cons ⟨rfl, h⟩ .nil

theorem BindingStep.mirrors {b b₁ : Binding} (h : BindingStep S b b₁ S' fs) :
    Mirrors BindingStep Binding.occurrences Binding.Alike S b b₁ S' fs := by
  cases h with
  | void hvoid =>
    refine .of_keep Binding.Alike.length_occurrences fun ℓ T b' hT halike => ?_
    refine ⟨_, .void (halike.type.eq_void.2 hvoid), .cons ⟨rfl, halike.name.span⟩ ?_⟩
    rw [halike.name.name, hT.findLocal?, Option.isSome_map]
    split
    · exact Likeness.findings_single _ halike.name.span
    · exact .nil
  | @unknownType name hkind hid =>
    refine .of_keep Binding.Alike.length_occurrences fun ℓ T b' hT halike => ?_
    have htype := halike.type
    rw [hkind] at htype
    generalize hkind' : b'.type.kind = kind' at htype
    cases htype with
    | struct hname =>
      exact ⟨_, .unknownType hkind' (hT.find?_eq hname hid), Likeness.findings_single _ hname.span⟩
  | barred hvoid hbars =>
    refine .of_keep Binding.Alike.length_occurrences fun ℓ T b' hT halike => ?_
    exact ⟨_, .barred (halike.type.eq_void.not.2 hvoid) ((hT.bars halike).trans hbars),
      Likeness.findings_single _ halike.name.span⟩
  | taken hvoid htype hbars htaken =>
    obtain ⟨stamps, hstamped, hholds, hlike⟩ := S.type?_mirrors htype
    refine ⟨stamps ++ [.clear], hstamped.append ⟨rfl, rfl⟩, ?_, fun ℓ T b' hT halike => ?_⟩
    · exact List.forall_mem_append.2 ⟨hholds _, List.forall_mem_singleton.2 trivial⟩
    · obtain ⟨type', htype', hstamped'⟩ := hlike ℓ T b'.type hT halike.type
      have hbars' := (hT.bars halike).trans hbars
      exact ⟨_, T, _, .taken (halike.type.eq_void.not.2 hvoid) htype' hbars' (hT.findLocal?_eq halike.name htaken),
        Likeness.findings_single _ halike.name.span, hT, hstamped'.map_append ⟨rfl, rfl⟩⟩
  | declared hvoid htype hbars hnew =>
    obtain ⟨stamps, hstamped, hholds, hlike⟩ := S.type?_mirrors htype
    refine ⟨stamps ++ [.mark S.table.nextId], hstamped.append ⟨rfl, rfl⟩, ?_, fun ℓ T b' hT halike => ?_⟩
    · exact List.forall_mem_append.2 ⟨hholds _, List.forall_mem_singleton.2 trivial⟩
    · obtain ⟨type', htype', hstamped'⟩ := hlike ℓ T b'.type hT halike.type
      have hbars' := (hT.bars halike).trans hbars
      refine ⟨_, _, [], .declared (halike.type.eq_void.not.2 hvoid) htype' hbars'
        (hT.findLocal?_eq halike.name hnew), .nil, hT.add ?_, hstamped'.map_append ⟨rfl, ?_⟩⟩
      · exact ⟨halike.name.name, ℓ.place_of_span halike.name.span, congrArg SymbolKind.scalar halike.type.ofRef⟩
      · rw [← hT.table.nextId]
        rfl

theorem BindingSteps.mirrors {bs bs₁ : List Binding} (h : BindingSteps S bs bs₁ S' fs) (hS : S.Sound) :
    Mirrors BindingSteps (List.flatMap Binding.occurrences) (fun ℓ => List.Forall₂ (Binding.Alike ℓ))
      S bs bs₁ S' fs :=
  Thread.mirrors BindingStep.sound BindingStep.kept (fun hb _ => hb.mirrors) h hS

/-! ### Locations -/

/-- The stamp of a field that is found. -/
theorem ScopeStack.Sound.field_stamp (hS : S.Sound) {owner id : SymbolId} {name : String}
    (h : S.field? owner name = some id) : ∃ type, (Stamp.field id type).Holds S.table ∧
      S.noted? id = some type.display ∧
      ∀ {ℓ : Likeness} {T : ScopeStack}, S.Alike ℓ T → T.noted? (ℓ.id id) = some (type.relabel ℓ.renaming).display := by
  obtain ⟨s, type, hs, -, ht⟩ := hS.field? h
  have htype : (S.table.get? id).bind Symbol.type? = some type := by rw [hs, Option.bind_some, ht]
  refine ⟨type, htype, ?_, fun hT => ?_⟩
  · rw [ScopeStack.noted?, htype, Option.map_some]
  · rw [hT.noted?, htype, Option.map_some]

theorem Stamped.field {ident : Ident} {id : SymbolId} {type : TypeName} {text resolved : Option String}
    (h : text = some type.display) :
    Stamped [.field id type] [⟨.field, ident, resolved⟩] [⟨.field, ident.mark id, text⟩] := by
  rw [h]
  exact ⟨rfl, rfl⟩

/-- As `Mirrors`, of a location. What is made of one leaves the scopes as they are. -/
def Location.Mirrors (outcome : Likeness → ScopeStack → Location → Location → Prop) (S : ScopeStack)
    (l l₁ : Location) : Prop :=
  ∃ stamps, Stamped stamps l.links l₁.links ∧ (∀ stamp ∈ stamps, stamp.Holds S.table) ∧
    ∀ (ℓ : Likeness) (T : ScopeStack) (l' : Location), S.Alike ℓ T → l.Alike ℓ l' → ∃ l₁',
      outcome ℓ T l' l₁' ∧ Stamped (stamps.map (Stamp.map ℓ)) l'.links l₁'.links

namespace Location.Mirrors
variable {outcome outcome' : Likeness → ScopeStack → Location → Location → Prop} {base base₁ : Location}
  {ident : Ident} {resolved : Option String} {owner id : SymbolId}

/-- A name that is left as it is. -/
theorem unmarked (hout : ∀ {ℓ T ident'}, S.Alike ℓ T → ident.Alike ℓ ident' →
    outcome ℓ T (.name ident') (.name ident')) : Mirrors outcome S (.name ident) (.name ident) := by
  refine ⟨[.keep], ⟨rfl, rfl⟩, List.forall_mem_singleton.2 trivial, fun ℓ T l' hT halike => ?_⟩
  cases halike with
  | name hident => exact ⟨_, hout hT hident, ⟨rfl, rfl⟩⟩

/-- A name that gets a symbol. -/
theorem marked (hout : ∀ {ℓ T ident'}, S.Alike ℓ T → ident.Alike ℓ ident' →
    outcome ℓ T (.name ident') (.name (ident'.mark (ℓ.id id)))) :
    Mirrors outcome S (.name ident) (.name (ident.mark id)) := by
  refine ⟨[.mark id], ⟨rfl, rfl⟩, List.forall_mem_singleton.2 trivial, fun ℓ T l' hT halike => ?_⟩
  cases halike with
  | name hident => exact ⟨_, hout hT hident, ⟨rfl, rfl⟩⟩

/-- A field that is left as it is. -/
theorem keep (h : Mirrors outcome S base base₁)
    (hout : ∀ {ℓ T base' base₁' ident' resolved'}, S.Alike ℓ T → ident.Alike ℓ ident' →
      outcome ℓ T base' base₁' → outcome' ℓ T (.field base' ident' resolved') (.field base₁' ident' resolved')) :
    Mirrors outcome' S (.field base ident resolved) (.field base₁ ident resolved) := by
  obtain ⟨stamps, hstamped, hholds, hlike⟩ := h
  refine ⟨stamps ++ [.keep], hstamped.append ⟨rfl, rfl⟩, ?_, fun ℓ T l' hT halike => ?_⟩
  · exact List.forall_mem_append.2 ⟨hholds, List.forall_mem_singleton.2 trivial⟩
  · cases halike with
    | field hbase hident =>
      obtain ⟨base', hbase', hstamped'⟩ := hlike ℓ T _ hT hbase
      exact ⟨_, hout hT hident hbase', hstamped'.map_append ⟨rfl, rfl⟩⟩

/-- A field that is found. -/
theorem field (h : Mirrors outcome S base base₁) (hS : S.Sound) (hfield : S.field? owner ident.name = some id)
    (hout : ∀ {ℓ T base' base₁' ident' resolved'}, S.Alike ℓ T → ident.Alike ℓ ident' → outcome ℓ T base' base₁' →
      outcome' ℓ T (.field base' ident' resolved') (.field base₁' (ident'.mark (ℓ.id id)) (T.noted? (ℓ.id id)))) :
    Mirrors outcome' S (.field base ident resolved) (.field base₁ (ident.mark id) (S.noted? id)) := by
  obtain ⟨stamps, hstamped, hholds, hlike⟩ := h
  obtain ⟨type, htype, hnoted, hnoted'⟩ := hS.field_stamp hfield
  refine ⟨stamps ++ [.field id type], hstamped.append (.field hnoted), ?_, fun ℓ T l' hT halike => ?_⟩
  · exact List.forall_mem_append.2 ⟨hholds, List.forall_mem_singleton.2 htype⟩
  · cases halike with
    | field hbase hident =>
      obtain ⟨base', hbase', hstamped'⟩ := hlike ℓ T _ hT hbase
      exact ⟨_, hout hT hident hbase', hstamped'.map_append (.field (hnoted' hT))⟩

end Location.Mirrors

theorem Holds.mirrors {l l₁ : Location} {owner : SymbolId} (h : Holds S l l₁ owner) (hS : S.Sound) :
    Location.Mirrors (fun ℓ T l' l₁' => Holds T l' l₁' (ℓ.id owner)) S l l₁ := by
  induction h with
  | name hid hheld =>
    exact .marked fun hT hident => .name (hT.find?_eq hident hid) (hT.held?_eq hheld)
  | field _ hfield hheld ih =>
    exact ih.field hS hfield fun hT hident hbase => .field hbase (hT.field?_eq hident hfield) (hT.held?_eq hheld)

theorem Fails.mirrors {l l₁ : Location} {f : Finding NameIssue} (h : Fails S l l₁ f) (hS : S.Sound) :
    Location.Mirrors (fun ℓ T l' l₁' => ∃ g, Fails T l' l₁' g ∧ ℓ.finding f g) S l l₁ := by
  induction h with
  | undeclared hid =>
    exact .unmarked fun hT hident => ⟨_, .undeclared (hT.find?_eq hident hid), rfl, hident.span⟩
  | scalar hid hheld =>
    exact .marked fun hT hident => ⟨_, .scalar (hT.find?_eq hident hid) (hT.held?_eq hheld), rfl, hident.span⟩
  | inner _ ih =>
    refine ih.keep fun _ _ hfails => ?_
    obtain ⟨g, hbase, hfound⟩ := hfails
    exact ⟨g, .inner hbase, hfound⟩
  | noField hbase hfield =>
    exact (hbase.mirrors hS).keep fun hT hident hbase =>
      ⟨_, .noField hbase (hT.field?_eq hident hfield), rfl, hident.span⟩
  | scalarField hbase hfield hheld =>
    exact (hbase.mirrors hS).field hS hfield fun hT hident hbase =>
      ⟨_, .scalarField hbase (hT.field?_eq hident hfield) (hT.held?_eq hheld), rfl, hident.span⟩

/-! ### Items -/

/-- A chain as an item: nothing else comes of it but findings. -/
theorem Mirrors.of_chain {base base₁ : Location} {ident ident₁ : Ident} {resolved resolved₁ : Option String}
    (h : Location.Mirrors (fun ℓ T l' l₁' => ∃ gs, ItemStep T (.place l') (.place l₁') T gs ∧
      List.Forall₂ ℓ.finding fs gs) S (.field base ident resolved) (.field base₁ ident₁ resolved₁)) :
    Mirrors ItemStep Item.occurrences Item.Alike S (.place (.field base ident resolved))
      (.place (.field base₁ ident₁ resolved₁)) S fs := by
  obtain ⟨stamps, hstamped, hholds, hlike⟩ := h
  refine ⟨stamps, hstamped, hholds, fun ℓ T i' hT halike => ?_⟩
  cases halike with
  | place halike =>
    obtain ⟨l₁', ⟨gs, hstep, hfound⟩, hstamped'⟩ := hlike ℓ T _ hT halike
    cases halike
    have hlinks : (Item.place l₁').occurrences = l₁'.links := by cases hstep <;> rfl
    exact ⟨_, T, gs, hstep, hfound, hT, hlinks ▸ hstamped'⟩

theorem ItemStep.mirrors_struct {s : StructDecl} {fields₁ : List Binding} {S₁ : ScopeStack}
    (hnew : S.hasLocal s.name.name = false) (h : BindingSteps S.enter s.fields fields₁ S₁ fs) (hS : S.Sound) :
    Mirrors ItemStep Item.occurrences Item.Alike S (.struct s)
      (.struct ⟨s.name.mark S₁.table.nextId, fields₁, s.span⟩)
      ({ S with table := S₁.table }.add ⟨s.name.name, .struct S₁.innermost.fieldTable, s.name.span⟩) fs := by
  obtain ⟨stamps, hstamped, hholds, hlike⟩ := h.mirrors hS.enter
  refine ⟨.mark S₁.table.nextId :: stamps, ?_, ?_, fun ℓ T i' hT halike => ?_⟩
  · exact hstamped.cons (.mark S₁.table.nextId) ⟨.structName, s.name, none⟩
  · exact List.forall_mem_cons.2 ⟨trivial, fun stamp hs => (hholds stamp hs).kept (S₁.table.kept_push _)⟩
  · cases halike with
    | @struct _ s' hname hfields =>
      obtain ⟨fields', T₁, gs, hsteps, hfound, hT₁, hstamped'⟩ := hlike ℓ T.enter s'.fields hT.enter hfields
      have hdistinct := ((h.sound hS.enter).scopes _ List.mem_cons_self).distinct .plain
      refine ⟨_, _, gs, .struct (hT.hasLocal_eq hname hnew) hsteps, hfound, (hT.within hT₁.table).add ?_, ?_⟩
      · refine ⟨hname.name, ℓ.place_of_span hname.span, congrArg SymbolKind.struct ?_⟩
        rw [hT₁.innermost, Scope.fieldTable_map _ _ ℓ.name_injective hdistinct]
      · rw [← hT₁.table.nextId]
        exact hstamped'.cons (.mark (ℓ.id S₁.table.nextId)) ⟨.structName, s'.name, none⟩

theorem ItemStep.mirrors {i i₁ : Item} (h : ItemStep S i i₁ S' fs) (hS : S.Sound) :
    Mirrors ItemStep Item.occurrences Item.Alike S i i₁ S' fs := by
  cases h with
  | result htype =>
    obtain ⟨stamps, hstamped, hholds, hlike⟩ := S.type?_mirrors htype
    refine ⟨stamps, hstamped, hholds _, fun ℓ T i' hT halike => ?_⟩
    cases halike with
    | result hkind =>
      obtain ⟨type', htype', hstamped'⟩ := hlike ℓ T _ hT hkind
      exact ⟨_, T, [], .result htype', .nil, hT, hstamped'⟩
  | @unknownResult type name hkind hid =>
    refine ⟨[.keep], ?_, List.forall_mem_singleton.2 trivial, fun ℓ T i' hT halike => ?_⟩
    · rw [Item.occurrences, TypeRef.occurrences, hkind]
      exact ⟨rfl, rfl⟩
    · cases halike with
      | @result _ type' halike =>
        rw [hkind] at halike
        generalize hkind' : type'.kind = kind' at halike
        cases halike with
        | struct hname =>
          refine ⟨_, T, _, .unknownResult hkind' (hT.find?_eq hname hid), Likeness.findings_single _ hname.span, hT, ?_⟩
          rw [Item.occurrences, TypeRef.occurrences, hkind']
          exact ⟨rfl, rfl⟩
  | function hnew =>
    refine ⟨[.mark S.table.nextId], ⟨rfl, rfl⟩, List.forall_mem_singleton.2 trivial, fun ℓ T i' hT halike => ?_⟩
    cases halike with
    | function hname =>
      refine ⟨_, _, [], .function (hT.hasLocal_eq hname hnew), .nil,
        hT.add ⟨hname.name, ℓ.place_of_span hname.span, rfl⟩, rfl, ?_⟩
      rw [← hT.table.nextId]
      rfl
  | takenFunction htaken =>
    refine ⟨[.keep], ⟨rfl, rfl⟩, List.forall_mem_singleton.2 trivial, fun ℓ T i' hT halike => ?_⟩
    cases halike with
    | function hname =>
      exact ⟨_, T, _, .takenFunction (hT.hasLocal_eq hname htaken), Likeness.findings_single _ hname.span, hT,
        ⟨rfl, rfl⟩⟩
  | binding hb =>
    obtain ⟨stamps, hstamped, hholds, hlike⟩ := hb.mirrors
    refine ⟨stamps, hstamped, hholds, fun ℓ T i' hT halike => ?_⟩
    cases halike with
    | binding halike =>
      obtain ⟨b', T', gs, hb', hfound, hT', hstamped'⟩ := hlike ℓ T _ hT halike
      exact ⟨_, T', gs, .binding hb', hfound, hT', hstamped'⟩
  | struct hnew hfields => exact ItemStep.mirrors_struct hnew hfields hS
  | takenStruct htaken =>
    refine ⟨_, .keep rfl, Stamp.holds_replicate_keep _ _, fun ℓ T i' hT halike => ?_⟩
    cases halike with
    | struct hname hfields =>
      refine ⟨_, T, _, .takenStruct (hT.hasLocal_eq hname htaken), Likeness.findings_single _ hname.span, hT, ?_⟩
      rw [Stamp.map_replicate_keep]
      refine .keep ?_
      rw [Item.occurrences, List.length_cons, Binding.length_fields hfields, Item.occurrences, List.length_cons]
  | @used ident id hid =>
    refine ⟨[.mark id], ⟨rfl, rfl⟩, List.forall_mem_singleton.2 trivial, fun ℓ T i' hT halike => ?_⟩
    cases halike with
    | place halike =>
      cases halike with
      | name hident => exact ⟨_, T, [], .used (hT.find?_eq hident hid), .nil, hT, ⟨rfl, rfl⟩⟩
  | undeclared hid =>
    refine ⟨[.keep], ⟨rfl, rfl⟩, List.forall_mem_singleton.2 trivial, fun ℓ T i' hT halike => ?_⟩
    cases halike with
    | place halike =>
      cases halike with
      | name hident =>
        exact ⟨_, T, _, .undeclared (hT.find?_eq hident hid), Likeness.findings_single _ hident.span, hT,
          ⟨rfl, rfl⟩⟩
  | chain hbase hfield =>
    exact .of_chain ((hbase.mirrors hS).field hS hfield fun hT hident hbase =>
      ⟨[], .chain hbase (hT.field?_eq hident hfield), .nil⟩)
  | noField hbase hfield =>
    exact .of_chain ((hbase.mirrors hS).keep fun hT hident hbase =>
      ⟨_, .noField hbase (hT.field?_eq hident hfield), Likeness.findings_single _ hident.span⟩)
  | broken hbase =>
    refine .of_chain ((hbase.mirrors hS).keep fun _ _ hfails => ?_)
    obtain ⟨g, hbase, hfound⟩ := hfails
    exact ⟨[g], .broken hbase, .cons hfound .nil⟩
  | @callee ident id hid =>
    refine ⟨[.mark id], ⟨rfl, rfl⟩, List.forall_mem_singleton.2 trivial, fun ℓ T i' hT halike => ?_⟩
    cases halike with
    | callee hident => exact ⟨_, T, [], .callee (hT.function?_eq hident hid), .nil, hT, ⟨rfl, rfl⟩⟩
  | noFunction hid =>
    refine ⟨[.keep], ⟨rfl, rfl⟩, List.forall_mem_singleton.2 trivial, fun ℓ T i' hT halike => ?_⟩
    cases halike with
    | callee hident =>
      exact ⟨_, T, _, .noFunction (hT.function?_eq hident hid), Likeness.findings_single _ hident.span, hT,
        ⟨rfl, rfl⟩⟩

/-! ## Walks -/

theorem VisitStep.mirrors {v v₁ : Visit} (h : VisitStep S v v₁ S' fs) (hS : S.Sound) :
    Mirrors VisitStep Visit.occurrences Visit.Alike S v v₁ S' fs := by
  cases h with
  | enter =>
    refine ⟨[], ⟨rfl, rfl⟩, List.forall_mem_nil _, fun ℓ T v' hT halike => ?_⟩
    cases halike
    exact ⟨_, _, [], .enter, .nil, hT.enter, ⟨rfl, rfl⟩⟩
  | @leave table innermost next outer =>
    refine ⟨[], ⟨rfl, rfl⟩, List.forall_mem_nil _, fun ℓ T v' hT halike => ?_⟩
    cases halike
    obtain ⟨table', innermost', outer'⟩ := T
    obtain rfl : outer' = next.map ℓ.name ℓ.id :: outer.map (Scope.map · ℓ.name ℓ.id) := hT.outer
    exact ⟨_, _, [], .leave, .nil, ⟨hT.table, rfl, rfl⟩, ⟨rfl, rfl⟩⟩
  | item hi =>
    obtain ⟨stamps, hstamped, hholds, hlike⟩ := hi.mirrors hS
    refine ⟨stamps, hstamped, hholds, fun ℓ T v' hT halike => ?_⟩
    cases halike with
    | item halike =>
      obtain ⟨i', T', gs, hi', hfound, hT', hstamped'⟩ := hlike ℓ T _ hT halike
      exact ⟨_, T', gs, .item hi', hfound, hT', hstamped'⟩

/-- What a walk writes are stamps, and an alike walk from alike scopes leaves the stamps that stand for them. -/
theorem VisitSteps.mirrors {vs vs₁ : List Visit} (h : VisitSteps S vs vs₁ S' fs) (hS : S.Sound) :
    Mirrors VisitSteps (List.flatMap Visit.occurrences) (fun ℓ => List.Forall₂ (Visit.Alike ℓ)) S vs vs₁ S' fs :=
  Thread.mirrors VisitStep.sound VisitStep.kept VisitStep.mirrors h hS

end

theorem ScopeStack.alike_empty {ℓ : Likeness} (hid : ∀ id, ℓ.id id = id) : ({} : ScopeStack).Alike ℓ {} where
  table := ⟨fun _ => .none, fun _ => hid _⟩
  innermost := rfl
  outer := rfl

/-- What a program is analyzed to are its identifiers with stamps. An alike program, whose symbols are numbered
in the same way, gets the stamps that stand for these, and what is found is found likewise. -/
theorem analyze_mirrors (p : Program) : ∃ a stamps, analyze p = .ok a ∧ a.program.bare = p.bare ∧
    Stamped stamps p.occurrences a.program.occurrences ∧ (∀ stamp ∈ stamps, stamp.Holds a.table) ∧
    ∀ (ℓ : Likeness) (q : Program), (∀ id, ℓ.id id = id) → List.Forall₂ (Visit.Alike ℓ) p.visits q.visits →
      ∃ b, analyze q = .ok b ∧ b.program.bare = q.bare ∧ List.Forall₂ ℓ.finding a.findings b.findings ∧
        a.table.Alike ℓ b.table ∧ Stamped (stamps.map (Stamp.map ℓ)) q.occurrences b.program.occurrences := by
  obtain ⟨a, S', ha, htable, hsteps, hbare⟩ := analyze_steps p
  obtain ⟨stamps, hstamped, hholds, hlike⟩ := hsteps.mirrors ScopeStack.sound_empty
  refine ⟨a, stamps, ha, hbare, hstamped, htable ▸ hholds, fun ℓ q hid halike => ?_⟩
  obtain ⟨vs, T', gs, hsteps', hfound, hT', hstamped'⟩ := hlike ℓ {} q.visits (ScopeStack.alike_empty hid) halike
  obtain ⟨b, T, hb, htable', hsteps'', hbare'⟩ := analyze_steps q
  -- the visits leave no choice, so the analysis of `q` is the alike walk
  obtain ⟨rfl, rfl, rfl⟩ := hsteps'.unique hsteps''
  refine ⟨b, hb, hbare', hfound, ?_, hstamped'⟩
  rw [htable, htable']
  exact hT'.table

end Namescope
