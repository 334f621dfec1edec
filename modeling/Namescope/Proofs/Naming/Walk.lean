import Namescope.Proofs.Naming.Soundness
/-!
# The resolver follows the rules

Over sound scopes the resolver does what the steps say: it never stops with an internal error, and the
tree it gives back is the one that the steps turn the visits into. What is noted is added behind what was
noted before and does not depend on it.
-/
namespace Namescope.Resolve

/-! ## Parts of a walk -/

/-- From the scopes `S`, whatever was noted before, a part of a walk gives `a`, leaves the scopes `S'`
behind and notes `fs`. -/
def Yields {α : Type} (walk : Resolve α) (S : ScopeStack) (a : α) (S' : ScopeStack)
    (fs : List (Finding NameIssue)) : Prop :=
  ∀ findings events, ∃ more, walk.run ⟨S, findings, events⟩ = .ok (a, ⟨S', findings ++ fs, events ++ more⟩)

section
variable {α β : Type} {S S₁ S₂ : ScopeStack} {fs gs : List (Finding NameIssue)}

/-- A part that notes nothing and opens or leaves no scope. -/
theorem Yields.of_run {walk : Resolve α} {a : α}
    (h : ∀ findings events, walk.run ⟨S, findings, events⟩ = .ok (a, ⟨S₁, findings, events⟩)) :
    Yields walk S a S₁ [] := by
  intro findings events
  exact ⟨[], by rw [List.append_nil, List.append_nil, h]⟩

theorem Yields.pure (S : ScopeStack) (a : α) : Yields (Pure.pure a) S a S [] :=
  .of_run fun _ _ => rfl

theorem Yields.bind {walk : Resolve α} {next : α → Resolve β} {a : α} {b : β}
    (h : Yields walk S a S₁ fs) (h' : Yields (next a) S₁ b S₂ gs) :
    Yields (walk >>= next) S b S₂ (fs ++ gs) := by
  intro findings events
  obtain ⟨more, e⟩ := h findings events
  obtain ⟨more', e'⟩ := h' (findings ++ fs) (events ++ more)
  refine ⟨more ++ more', ?_⟩
  rw [StateT.run_bind, e, ← List.append_assoc, ← List.append_assoc]
  exact e'

/-- A part that notes nothing, and what comes after it. -/
theorem Yields.andThen {walk : Resolve α} {next : α → Resolve β} {a : α} {b : β}
    (h : Yields walk S a S₁ []) (h' : Yields (next a) S₁ b S₂ gs) :
    Yields (walk >>= next) S b S₂ gs :=
  h.bind h'

theorem Yields.map {walk : Resolve α} (f : α → β) {a : α} (h : Yields walk S a S₁ fs) :
    Yields (f <$> walk) S (f a) S₁ fs := by
  intro findings events
  obtain ⟨more, e⟩ := h findings events
  exact ⟨more, by rw [StateT.run_map, e]; rfl⟩

/-- A part, and what comes after it and notes nothing. -/
theorem Yields.thenQuiet {walk : Resolve α} {next : α → Resolve β} {a : α} {b : β}
    (h : Yields walk S a S₁ fs) (h' : Yields (next a) S₁ b S₂ []) :
    Yields (walk >>= next) S b S₂ fs := by
  have hboth := h.bind h'
  rwa [List.append_nil] at hboth

end

/-! ## Elementary parts -/

section
variable (S : ScopeStack)

theorem yields_note (span : Span) (issue : NameIssue) : Yields (note span issue) S () S [⟨issue, span⟩] :=
  fun _ events => ⟨[], by rw [List.append_nil events]; rfl⟩

theorem yields_noteIf (condition : Bool) (span : Span) (issue : NameIssue) :
    Yields (noteIf condition span issue) S () S (if condition then [⟨issue, span⟩] else []) := by
  cases condition
  · exact .pure S ()
  · exact yields_note S span issue

theorem yields_find? (cls : NameClass) (name : String) :
    Yields (find? cls name) S (S.find? cls name) S [] :=
  .of_run fun _ _ => rfl

theorem yields_findLocal? (cls : NameClass) (name : String) :
    Yields (findLocal? cls name) S (S.findLocal? cls name) S [] :=
  .of_run fun _ _ => rfl

theorem yields_depth : Yields depth S S.depth S [] :=
  .of_run fun _ _ => rfl

theorem yields_expectDepth : Yields (expectDepth S.depth) S () S [] := by
  unfold expectDepth
  refine (yields_depth S).andThen ?_
  rw [if_pos rfl]
  exact .pure S ()

theorem yields_clashes (name : String) : Yields (clashes name) S (S.hasLocal name) S [] :=
  (yields_findLocal? S .plain name).andThen <|
    (yields_findLocal? S .struct name).andThen <| .pure S _

theorem yields_enter : Yields enter S () S.enter [] :=
  fun findings _ => ⟨[ScopeEvent.enter S.enter.depth], by rw [List.append_nil findings]; rfl⟩

theorem yields_exit (next : Scope) (outer : List Scope) (h : S.outer = next :: outer) :
    Yields exit S S.innermost { S with innermost := next, outer } [] := by
  intro findings events
  obtain ⟨table, innermost, outer'⟩ := S
  cases h
  refine ⟨[ScopeEvent.exit innermost.size (ScopeStack.depth ⟨table, next, outer⟩)], ?_⟩
  rw [List.append_nil]
  rfl

variable {S}

theorem yields_symbol {id : SymbolId} {s : Symbol} (h : S.table.get? id = some s) :
    Yields (symbol id) S s S [] :=
  .of_run fun _ _ => by simp [symbol, h]; rfl

theorem yields_declare {name : Ident} {kind : SymbolKind}
    (h : S.findLocal? (Symbol.nameClass ⟨name.name, kind, name.span⟩) name.name = none) :
    Yields (declare name kind) S (some S.table.nextId) (S.add ⟨name.name, kind, name.span⟩) [] :=
  .of_run fun _ _ => by simp [declare, ScopeStack.declare, h, ScopeStack.add]; rfl

theorem yields_declare_taken {name : Ident} {kind : SymbolKind} {id : SymbolId}
    (h : S.findLocal? (Symbol.nameClass ⟨name.name, kind, name.span⟩) name.name = some id) :
    Yields (declare name kind) S none S [⟨.multiplyDeclared, name.span⟩] := by
  intro findings events
  exact ⟨[], by simp [declare, ScopeStack.declare, h, note]; rfl⟩

/-- A walk in a scope of its own leaves the scopes around it with the new symbols. -/
theorem yields_inScope {α : Type} {walk : Resolve α} {a : α} {S' : ScopeStack}
    {fs : List (Finding NameIssue)} (h : Yields walk S.enter a S' fs)
    (hout : S'.outer = S.innermost :: S.outer) :
    Yields (inScope walk) S (a, S'.innermost) { S with table := S'.table } fs := by
  refine (yields_depth S).andThen <| (yields_enter S).andThen <| h.thenQuiet ?_
  refine (yields_exit S' S.innermost S.outer hout).andThen ?_
  exact (yields_expectDepth { S with table := S'.table }).andThen <| .pure _ _

end

/-! ## Looking names up -/

section
variable {S : ScopeStack} (hS : S.Sound)
include hS

theorem yields_structType? (name : String) : Yields (structType? name) S (S.find? .struct name) S [] := by
  unfold structType?
  refine (yields_find? S .struct name).andThen ?_
  cases h : S.find? .struct name with
  | none => exact .pure S none
  | some id =>
    obtain ⟨s, hs, -, hc⟩ := hS.find? h
    refine (yields_symbol hs).andThen ?_
    rw [Symbol.isStruct_of_nameClass hc]
    exact .pure S (some id)

theorem yields_function? (name : String) : Yields (function? name) S (S.function? name) S [] := by
  unfold function? ScopeStack.function?
  refine (yields_find? S .plain name).andThen ?_
  cases h : S.find? .plain name with
  | none => exact .pure S none
  | some id =>
    obtain ⟨s, hs, -, -⟩ := hS.find? h
    refine (yields_symbol hs).andThen ?_
    rw [Option.filter_some, hs, Option.any_some]
    exact .pure S _

theorem yields_held? {id : SymbolId} {s : Symbol} (hs : S.table.get? id = some s) :
    Yields (held? s) S (S.held? id) S [] := by
  unfold held? ScopeStack.held?
  rw [hs, Option.bind_some]
  cases s.type?.bind TypeName.structName? with
  | none => exact .pure S none
  | some name => exact yields_structType? hS name

theorem yields_fieldUse {owner id : SymbolId} {ident : Ident} (resolved : Option String)
    (h : S.field? owner ident.name = some id) :
    Yields (fieldUse owner ident resolved) S ⟨ident.mark id, S.noted? id, true, S.held? id⟩ S [] := by
  obtain ⟨field, -, hfield, -, -⟩ := hS.field? h
  simp only [ScopeStack.field?, Option.bind_eq_some_iff] at h
  obtain ⟨fields, ⟨s, hs, hfields⟩, hget⟩ := h
  have hknown : fields.contains ident.name = true := by simp [FieldTable.contains, hget]
  unfold fieldUse
  refine (yields_symbol hs).andThen ?_
  simp only [hfields, hknown]
  refine (yields_noteIf S _ _ _).andThen ?_
  simp only [hget]
  refine (yields_symbol hfield).andThen <| (yields_held? hS hfield).andThen ?_
  rw [ScopeStack.noted?, hfield]
  exact .pure S _

omit hS in
theorem yields_fieldUse_none {owner : SymbolId} {s : Symbol} {fields : FieldTable} {ident : Ident}
    (resolved : Option String) (hs : S.table.get? owner = some s) (hfields : s.fields? = some fields)
    (h : S.field? owner ident.name = none) :
    Yields (fieldUse owner ident resolved) S ⟨ident, resolved, false, none⟩ S
      [⟨.invalidField, ident.span⟩] := by
  simp only [ScopeStack.field?, hs, Option.bind_some, hfields] at h
  have hunknown : fields.contains ident.name = false := by simp [FieldTable.contains, h]
  unfold fieldUse
  refine (yields_symbol hs).andThen ?_
  simp only [hfields, hunknown, h]
  exact (yields_noteIf S _ _ _).thenQuiet (.pure S _)

end

/-! ## Items -/

section
variable {S : ScopeStack} (hS : S.Sound)
include hS

theorem yields_chainBase (ident : Ident) :
    (∃ ident' s, Holds S (.name ident) (.name ident') s ∧
      Yields (chainBase ident) S (ident', some s) S []) ∨
    ∃ ident' f, Fails S (.name ident) (.name ident') f ∧
      Yields (chainBase ident) S (ident', none) S [f] := by
  unfold chainBase
  cases h : S.find? .plain ident.name with
  | none =>
    refine .inr ⟨ident, _, .undeclared h, (yields_find? S .plain _).andThen ?_⟩
    rw [h]
    exact (yields_note S _ _).thenQuiet (.pure S _)
  | some id =>
    obtain ⟨s, hs, -, -⟩ := hS.find? h
    have hfirst := yields_find? S .plain ident.name
    rw [h] at hfirst
    cases hheld : S.held? id with
    | none =>
      refine .inr ⟨ident.mark id, _, .scalar h hheld, hfirst.andThen ?_⟩
      refine (yields_symbol hs).andThen <| (yields_held? hS hs).andThen ?_
      rw [hheld]
      exact (yields_note S _ _).thenQuiet (.pure S _)
    | some owner =>
      refine .inl ⟨_, owner, .name h hheld, hfirst.andThen ?_⟩
      refine (yields_symbol hs).andThen <| (yields_held? hS hs).andThen ?_
      rw [hheld]
      exact .pure S _

/-- A location in a chain holds a struct, or else one finding says why it does not. -/
theorem yields_owner : ∀ l : Location,
    (∃ l' s, Holds S l l' s ∧ Yields (owner l) S (l', some s) S []) ∨
    ∃ l' f, Fails S l l' f ∧ Yields (owner l) S (l', none) S [f]
  | .name ident => by
    rcases yields_chainBase hS ident with ⟨ident', s, hs, hy⟩ | ⟨ident', f, hf, hy⟩
    · exact .inl ⟨_, s, hs, hy.andThen (.pure S _)⟩
    · exact .inr ⟨_, f, hf, hy.thenQuiet (.pure S _)⟩
  | .field base ident resolved => by
    -- a field is only looked at if its base holds a struct, so at most one finding comes of a chain
    unfold owner
    rcases yields_owner base with ⟨base', s, hbase, hy⟩ | ⟨base', f, hbase, hy⟩
    · cases hfield : S.field? s ident.name with
      | none =>
        obtain ⟨_, _, hs, hfields⟩ := hS.holds hbase
        refine .inr ⟨_, _, .noField hbase hfield, hy.andThen ?_⟩
        exact (yields_fieldUse_none resolved hs hfields hfield).thenQuiet (.pure S _)
      | some id =>
        have hfirst := yields_fieldUse hS resolved hfield
        cases hheld : S.held? id with
        | none =>
          rw [hheld] at hfirst
          refine .inr ⟨_, _, .scalarField hbase hfield hheld, hy.andThen <| hfirst.andThen ?_⟩
          exact (yields_note S _ _).thenQuiet (.pure S _)
        | some owner =>
          rw [hheld] at hfirst
          refine .inl ⟨_, owner, .field hbase hfield hheld, hy.andThen <| hfirst.andThen ?_⟩
          exact .pure S _
    · exact .inr ⟨_, f, .inner hbase, hy.thenQuiet (.pure S _)⟩

theorem yields_location (l : Location) :
    ∃ l' fs, Yields (location l) S l' S fs ∧ ItemStep S (.place l) (.place l') S fs := by
  cases l with
  | name ident =>
    have hfirst := yields_find? S .plain ident.name
    cases h : S.find? .plain ident.name with
    | none =>
      refine ⟨_, _, .map _ ?_, .undeclared h⟩
      rw [h] at hfirst
      exact hfirst.andThen <| (yields_note S _ _).thenQuiet (.pure S _)
    | some id =>
      refine ⟨_, _, .map _ ?_, .used h⟩
      rw [h] at hfirst
      exact hfirst.andThen (.pure S _)
  | field base ident resolved =>
    unfold location
    rcases yields_owner hS base with ⟨base', s, hbase, hy⟩ | ⟨base', f, hbase, hy⟩
    · cases hfield : S.field? s ident.name with
      | none =>
        obtain ⟨_, _, hs, hfields⟩ := hS.holds hbase
        refine ⟨_, _, hy.andThen ?_, .noField hbase hfield⟩
        exact (yields_fieldUse_none resolved hs hfields hfield).thenQuiet (.pure S _)
      | some id =>
        refine ⟨_, _, hy.andThen ?_, .chain hbase hfield⟩
        exact (yields_fieldUse hS resolved hfield).andThen (.pure S _)
    · exact ⟨_, _, hy.thenQuiet (.pure S _), .broken hbase⟩

theorem yields_callee (ident : Ident) :
    ∃ ident' fs, Yields (callee ident) S ident' S fs ∧ ItemStep S (.callee ident) (.callee ident') S fs := by
  have hfirst := yields_function? hS ident.name
  unfold callee
  cases h : S.function? ident.name with
  | none =>
    rw [h] at hfirst
    exact ⟨_, _, hfirst.andThen <| (yields_note S _ _).thenQuiet (.pure S _), .noFunction h⟩
  | some id =>
    rw [h] at hfirst
    exact ⟨_, _, hfirst.andThen (.pure S _), .callee h⟩

omit hS in
/-- A name with a type that is known and not void is declared, or is noted as taken. -/
theorem yields_declare_binding {b : Binding} {type : TypeRef} (hvoid : b.type.kind ≠ .void)
    (htype : S.type? b.type = some type) (hbars : S.bars b = false) :
    ∃ sym S' fs, Yields (declare b.name (.scalar (.ofRef b.type))) S sym S' fs ∧
      BindingStep S b ⟨type, { b.name with sym }, b.span⟩ S' fs := by
  cases h : S.findLocal? .plain b.name.name with
  | none => exact ⟨_, _, _, yields_declare h, .declared hvoid htype hbars h⟩
  | some id => exact ⟨_, _, _, yields_declare_taken h, .taken hvoid htype hbars h⟩

theorem yields_binding (b : Binding) :
    ∃ b' S' fs, Yields (binding b) S b' S' fs ∧ BindingStep S b b' S' fs := by
  unfold binding
  cases hkind : b.type.kind with
  | void =>
    refine ⟨_, S, _, ?_, .void hkind⟩
    refine (yields_note S b.name.span .voidNonFunction).bind ?_
    refine (yields_findLocal? S .plain b.name.name).andThen ?_
    exact (yields_noteIf S _ _ _).thenQuiet (.pure S _)
  | struct typeName =>
    have hfirst := yields_structType? hS typeName.name
    cases htype : S.find? .struct typeName.name with
    | none =>
      rw [htype] at hfirst
      exact ⟨_, S, _, hfirst.andThen <| (yields_note S _ _).thenQuiet (.pure S _), .unknownType hkind htype⟩
    | some id =>
      rw [htype] at hfirst
      -- the type has its symbol even if the name turns out to be taken
      obtain ⟨sym, S', fs, hy, hstep⟩ := yields_declare_binding (S := S) (b := b) (by simp [hkind])
        (S.type?_struct hkind htype) (by simp only [ScopeStack.bars, hkind])
      rw [TypeName.ofRef, hkind] at hy
      exact ⟨_, S', fs, hfirst.andThen <| hy.thenQuiet (.pure S' _), hstep⟩
  | int | bool =>
    have hfirst := yields_findLocal? S .struct b.name.name
    cases hbars : S.findLocal? .struct b.name.name with
    | some id =>
      rw [hbars] at hfirst
      refine ⟨_, S, _, hfirst.andThen <| (yields_note S _ _).thenQuiet (.pure S _), .barred ?_ ?_⟩
      · simp [hkind]
      · simp [ScopeStack.bars, hkind, hbars]
    | none =>
      rw [hbars] at hfirst
      obtain ⟨sym, S', fs, hy, hstep⟩ := yields_declare_binding (S := S) (b := b) (by simp [hkind])
        (S.type?_of_ne_struct (by simp [hkind])) (by simp [ScopeStack.bars, hkind, hbars])
      exact ⟨_, S', fs, hfirst.andThen <| hy.thenQuiet (.pure S' _), hstep⟩

theorem yields_resultType (type : TypeRef) :
    ∃ type' fs, Yields (resultType type) S type' S fs ∧ ItemStep S (.result type) (.result type') S fs := by
  unfold resultType
  cases hkind : type.kind with
  | struct name =>
    have hfirst := yields_structType? hS name.name
    cases htype : S.find? .struct name.name with
    | none =>
      rw [htype] at hfirst
      refine ⟨_, _, hfirst.andThen <| (yields_note S _ _).thenQuiet (.pure S _), ?_⟩
      exact .unknownResult hkind htype
    | some id =>
      rw [htype] at hfirst
      exact ⟨_, _, hfirst.andThen (.pure S _), .result (S.type?_struct hkind htype)⟩
  | int | bool | void =>
    exact ⟨_, _, .pure S _, .result (S.type?_of_ne_struct (by simp [hkind]))⟩

end

/-- Walks over the name of a function with what it takes and gives. -/
def signature (name : Ident) (params : List TypeName) (result : TypeName) : Resolve Ident := do
  match ← clashes name.name with
  | true =>
    note name.span .multiplyDeclared
    return name
  | false =>
    let sym ← declare name (.function params result)
    return { name with sym }

theorem yields_signature (S : ScopeStack) (name : Ident) (params : List TypeName) (result : TypeName) :
    ∃ name' S' fs, Yields (signature name params result) S name' S' fs ∧
      ItemStep S (.function name params result) (.function name' params result) S' fs := by
  have hfirst := yields_clashes S name.name
  unfold signature
  cases h : S.hasLocal name.name with
  | true =>
    rw [h] at hfirst
    exact ⟨_, S, _, hfirst.andThen <| (yields_note S _ _).thenQuiet (.pure S _), .takenFunction h⟩
  | false =>
    rw [h] at hfirst
    refine ⟨_, _, _, hfirst.andThen <| (yields_declare ?_).andThen (.pure _ _), .function h⟩
    exact S.findLocal?_eq_none h _

theorem yields_functionName (S : ScopeStack) (f : FunctionDecl) :
    ∃ name' S' fs, Yields (functionName f) S name' S' fs ∧
      ItemStep S f.item
        (.function name' (f.formals.map fun formal => .ofRef formal.type) (.ofRef f.result)) S' fs :=
  yields_signature S f.name _ _

theorem yields_bindings : ∀ (bs : List Binding) {S : ScopeStack}, S.Sound →
    ∃ bs' S' fs, Yields (bindings bs) S bs' S' fs ∧ BindingSteps S bs bs' S' fs
  | [], S, _ => ⟨[], S, [], .pure S [], .nil⟩
  | first :: more, S, hS => by
    obtain ⟨first', S₁, fs, hy, hfirst⟩ := yields_binding hS first
    obtain ⟨more', S₂, gs, hy', hmore⟩ := yields_bindings more (hfirst.sound hS)
    exact ⟨_, S₂, _, hy.bind (hy'.thenQuiet (.pure S₂ _)), .cons hfirst hmore⟩

/-- A struct is declared after its fields, which are declared in a scope that is left again. -/
theorem yields_struct {S : ScopeStack} (hS : S.Sound) (s : StructDecl) :
    ∃ s' S' fs, Yields (struct s) S s' S' fs ∧ ItemStep S (.struct s) (.struct s') S' fs := by
  have hfirst := yields_clashes S s.name.name
  unfold struct
  cases h : S.hasLocal s.name.name with
  | true =>
    rw [h] at hfirst
    exact ⟨_, S, _, hfirst.andThen <| (yields_note S _ _).thenQuiet (.pure S _), .takenStruct h⟩
  | false =>
    rw [h] at hfirst
    obtain ⟨fields', S₁, fs, hy, hfields⟩ := yields_bindings s.fields hS.enter
    refine ⟨_, _, fs, hfirst.andThen <| (yields_inScope hy hfields.outer).thenQuiet ?_, .struct h hfields⟩
    refine (yields_declare ?_).andThen (.pure _ _)
    exact S.findLocal?_eq_none h _

end Namescope.Resolve
