import Namescope.Proofs.Naming.Calls
/-!
# A scope stack is its history

What a new stack is after calls follows from their replies alone: how deep it is, which scope has which
names, what each name stands for, which symbols there are, and what the next call will give.
-/
namespace Namescope

namespace ScopeStack

/-! ## The stack is its history -/

/-- A name stands in the scope that has so many others inside it. -/
def Binds (S : ScopeStack) (k : Nat) (cls : NameClass) (name : String) (id : SymbolId) : Prop :=
  ∃ scope, S.scopes[k]? = some scope ∧ (name, id) ∈ scope.names cls

/-- The symbols declared in a history. -/
def symbolsOf (es : List Answered) : List Symbol := es.filterMap Answered.symbol?

/-- The identifiers given in a history. -/
def idsOf (es : List Answered) : List SymbolId := es.filterMap Answered.id?

theorem symbolsOf_concat (es : List Answered) (e : Answered) :
    symbolsOf (es ++ [e]) = symbolsOf es ++ e.symbol?.toList := by
  cases h : e.symbol? <;> simp [symbolsOf, h]

theorem idsOf_concat (es : List Answered) (e : Answered) : idsOf (es ++ [e]) = idsOf es ++ e.id?.toList := by
  cases h : e.id? <;> simp [idsOf, h]

/-- A stack is what a history says. -/
structure Follows (es : List Answered) (S : ScopeStack) : Prop where
  depth : S.depth + exits es = enters es + 1
  symbols : S.table.symbols = symbolsOf es
  ids : idsOf es = (List.range S.table.size).map SymbolId.mk
  names : ∀ k cls name id, S.Binds k cls name id ↔ DeclaredUnder es k cls name id
  distinct : ∀ scope ∈ S.scopes, ∀ cls, ((scope.names cls).map Prod.fst).Nodup

section
variable {S : ScopeStack} {k : Nat} {cls : NameClass} {name : String} {id : SymbolId}

theorem binds_zero : S.Binds 0 cls name id ↔ (name, id) ∈ S.innermost.names cls := by
  simp [Binds, scopes]

theorem binds_succ : S.Binds (k + 1) cls name id ↔
    ∃ scope, S.outer[k]? = some scope ∧ (name, id) ∈ scope.names cls := by
  simp [Binds, scopes]

theorem binds_enter : S.enter.Binds k cls name id ↔ ∃ j, k = j + 1 ∧ S.Binds j cls name id := by
  cases k with
  | zero =>
    rw [binds_zero]
    cases cls <;> simp [enter, Scope.names]
  | succ k => simp [Binds, scopes, enter]

theorem binds_bind {table : SymbolTable} {cls' : NameClass} {name' : String} {id' : SymbolId} :
    Binds ⟨table, S.innermost.bind cls' name' id', S.outer⟩ k cls name id ↔
      S.Binds k cls name id ∨ (k = 0 ∧ cls = cls' ∧ name = name' ∧ id = id') := by
  cases k with
  | zero =>
    rw [binds_zero, binds_zero, Scope.names_bind]
    by_cases hc : cls = cls'
    · subst hc
      simp [or_comm]
    · simp [hc]
  | succ k => simp [binds_succ]

end

namespace Follows
variable {es : List Answered} {S : ScopeStack}

theorem new : Follows [] {} where
  depth := rfl
  symbols := rfl
  ids := rfl
  names k cls name id := by
    constructor
    · rintro ⟨scope, hs, hm⟩
      obtain rfl : {} = scope := List.mem_singleton.1 (List.mem_of_getElem? hs) |>.symm
      cases cls <;> simp [Scope.names] at hm
    · rintro ⟨i, hi, -⟩
      simpa using hi.lt
  distinct scope hs cls := by
    obtain rfl := List.mem_singleton.1 hs
    exact (Scope.sound_empty {}).distinct cls

/-- Entering a scope adds an empty one. -/
theorem enter (h : Follows es S) : Follows (es ++ [⟨.enter, .entered⟩]) S.enter where
  depth := by
    have hd : S.depth + 1 + exits es = enters es + 1 + 1 := by rw [← h.depth]; omega
    rw [enters_concat, exits_concat]
    exact hd
  symbols := by rw [symbolsOf_concat, ← h.symbols]; exact (List.append_nil _).symm
  ids := by rw [idsOf_concat, h.ids]; exact List.append_nil _
  names k cls name id := by simp only [binds_enter, declaredUnder_entered, h.names]
  distinct scope hs cls := by
    rcases List.mem_cons.1 hs with rfl | hs
    · exact (Scope.sound_empty {}).distinct cls
    · exact h.distinct scope hs cls

/-- Leaving a scope takes it away. -/
theorem exit (h : Follows es S) {next : Scope} {outer : List Scope} (ho : S.outer = next :: outer) :
    Follows (es ++ [⟨.exit, .left S.innermost⟩]) ⟨S.table, next, outer⟩ where
  depth := by
    have hd := h.depth
    rw [ScopeStack.depth, ScopeStack.scopes, ho, List.length_cons] at hd
    rw [enters_concat, exits_concat]
    have hd' : (next :: outer).length + (exits es + 1) = enters es + 1 := by rw [← hd]; omega
    exact hd'
  symbols := by rw [symbolsOf_concat, ← h.symbols]; exact (List.append_nil _).symm
  ids := by rw [idsOf_concat, h.ids]; exact List.append_nil _
  names k cls name id := by
    rw [declaredUnder_left, ← h.names, binds_succ, ho]
    exact Iff.rfl
  distinct scope hs := by
    refine h.distinct scope (List.mem_cons_of_mem _ ?_)
    rw [ho]
    exact hs

/-- A name that is not taken is bound to the next identifier. -/
theorem declare (h : Follows es S) {name : String} {symbol : Symbol}
    (hnew : S.findLocal? symbol.nameClass name = none) :
    Follows (es ++ [⟨.declare name symbol, .declared S.table.nextId⟩])
      ⟨S.table.push symbol, S.innermost.bind symbol.nameClass name S.table.nextId, S.outer⟩ where
  depth := by
    rw [enters_concat, exits_concat]
    exact h.depth
  symbols := by rw [symbolsOf_concat, ← h.symbols]; rfl
  ids := by
    rw [idsOf_concat, h.ids]
    simp [SymbolTable.size, SymbolTable.push, List.range_succ, Answered.id?, SymbolTable.nextId]
  names k cls name' id := by rw [declaredUnder_declared, ← h.names, binds_bind]
  distinct scope hs cls := by
    rcases List.mem_cons.1 hs with rfl | hs
    · have hd := h.distinct S.innermost List.mem_cons_self
      rw [Scope.names_bind]
      split
      · exact List.nodup_cons.2 ⟨Scope.find?_eq_none hnew, hd _⟩
      · exact hd cls
    · exact h.distinct scope (List.mem_cons_of_mem _ hs) cls

/-- A call that is refused changes nothing. -/
theorem refused (h : Follows es S) (c : Call) (error : ScopeError) :
    Follows (es ++ [⟨c, .refused error⟩]) S where
  depth := by
    rw [enters_concat, exits_concat]
    exact h.depth
  symbols := by
    rw [symbolsOf_concat, ← h.symbols]
    cases c <;> exact (List.append_nil _).symm
  ids := by rw [idsOf_concat, h.ids]; exact List.append_nil _
  names k cls name id := by rw [declaredUnder_refused, h.names]
  distinct := h.distinct

theorem step (h : Follows es S) {c : Call} {reply : Reply} {S' : ScopeStack} (hc : CallStep S c reply S') :
    Follows (es ++ [⟨c, reply⟩]) S' := by
  cases hc with
  | enter => exact h.enter
  | exit ho => exact h.exit ho
  | declare hnew => exact h.declare hnew
  | stuck | taken => exact h.refused _ _

end Follows

/-- Calls carry a history on. -/
theorem Follows.run {es : List Answered} {S : ScopeStack} (h : Follows es S) (cs : List Call) :
    Follows (es ++ S.trace cs) (S.after cs) := by
  induction cs generalizing es S with
  | nil =>
    rw [trace, List.append_nil]
    exact h
  | cons c cs ih =>
    have hrest := ih (h.step (S.callStep c))
    rw [List.append_assoc] at hrest
    exact hrest

/-! ## Look-ups -/

/-- The scope in which a name is found has it, and no scope inside that one has. -/
theorem binds_of_find? {S : ScopeStack} {cls : NameClass} {name : String} {id : SymbolId}
    (h : S.find? cls name = some id) :
    ∃ k, S.Binds k cls name id ∧ ∀ j id', j < k → ¬ S.Binds j cls name id' := by
  obtain ⟨inside, scope, around, hs, hfind, hnone⟩ := List.findSome?_eq_some_iff.1 h
  refine ⟨inside.length, ⟨scope, by simp [hs], Scope.mem_of_find? hfind⟩, ?_⟩
  rintro j id' hj ⟨scope', hs', hm⟩
  rw [hs, List.getElem?_append_left hj] at hs'
  have hmiss := Scope.find?_eq_none (hnone scope' (List.mem_of_getElem? hs'))
  exact hmiss (List.mem_map_of_mem hm)

theorem find?_ne_none {S : ScopeStack} {k : Nat} {cls : NameClass} {name : String} {id : SymbolId}
    (h : S.Binds k cls name id) : S.find? cls name ≠ none := by
  obtain ⟨scope, hs, hm⟩ := h
  intro hnone
  have hmiss := List.findSome?_eq_none_iff.1 hnone scope (List.mem_of_getElem? hs)
  exact Scope.find?_eq_none hmiss (List.mem_map_of_mem hm)

namespace Follows
variable {es : List Answered} {S : ScopeStack} (h : Follows es S)
include h

theorem size : S.table.size = (symbolsOf es).length := congrArg List.length h.symbols

/-- No identifier is given twice. -/
theorem place_unique {i j : Nat} {cls cls' : NameClass} {name name' : String} {id : SymbolId}
    (hi : DeclaredAt es i cls name id) (hj : DeclaredAt es j cls' name' id) : ¬ i < j := by
  intro hij
  have hnodup : (idsOf es).Nodup := by
    rw [h.ids]
    refine List.Pairwise.map _ (fun _ _ hne e => hne ?_) List.nodup_range
    exact congrArg SymbolId.index e
  obtain ⟨s, hs, -⟩ := hi
  obtain ⟨s', hs', -⟩ := hj
  obtain ⟨hlt, hs⟩ := List.getElem?_eq_some_iff.1 hs
  obtain ⟨hlt', hs'⟩ := List.getElem?_eq_some_iff.1 hs'
  have hpair := List.pairwise_iff_getElem.1 (List.pairwise_filterMap.1 hnodup) i j hlt hlt' hij
  exact hpair id (by rw [hs]; rfl) id (by rw [hs']; rfl) rfl

theorem findLocal?_iff (cls : NameClass) (name : String) (id : SymbolId) :
    S.findLocal? cls name = some id ↔ DeclaredHere es cls name id := by
  rw [DeclaredHere, ← h.names, binds_zero]
  exact ⟨Scope.mem_of_find?, Scope.find?_of_mem (h.distinct _ List.mem_cons_self cls)⟩

/-- What is found was declared last. -/
theorem last_of_find? {cls : NameClass} {name : String} {id : SymbolId} (hfind : S.find? cls name = some id) :
    ∃ i, DeclaredLast es cls name id i := by
  obtain ⟨k, hbinds, hinside⟩ := binds_of_find? hfind
  obtain ⟨i, hi, hk⟩ := (h.names ..).1 hbinds
  refine ⟨i, hi, hk.1, fun j id' hij hj hopen => ?_⟩
  obtain ⟨l, hl⟩ := staysOpen_iff.1 hopen
  have hbinds' : S.Binds l cls name id' := (h.names ..).2 ⟨j, hj, hl⟩
  -- a later declaration lies no deeper; it is not further inside, and one scope has a name only once
  rcases Nat.lt_or_eq_of_le (hk.le_of_lt hl hij) with hlt | rfl
  · exact hinside l id' hlt hbinds'
  · obtain ⟨scope, hs, hm⟩ := hbinds
    obtain ⟨scope', hs', hm'⟩ := hbinds'
    obtain rfl : scope = scope' := Option.some.inj (hs.symm.trans hs')
    have hd := h.distinct scope (List.mem_of_getElem? hs) cls
    obtain rfl : id = id' := Option.some.inj ((Scope.find?_of_mem hd hm).symm.trans (Scope.find?_of_mem hd hm'))
    exact h.place_unique hi hj hij

theorem find?_iff (cls : NameClass) (name : String) (id : SymbolId) :
    S.find? cls name = some id ↔ ∃ i, DeclaredLast es cls name id i := by
  refine ⟨h.last_of_find?, ?_⟩
  rintro ⟨i, hlast⟩
  obtain ⟨k, hk⟩ := staysOpen_iff.1 hlast.isOpen
  have hbinds : S.Binds k cls name id := (h.names ..).2 ⟨i, hlast.declared, hk⟩
  obtain ⟨id', hfind⟩ := Option.ne_none_iff_exists'.1 (find?_ne_none hbinds)
  obtain ⟨j, hlast'⟩ := h.last_of_find? hfind
  rw [hfind, hlast.unique hlast']

theorem find?_eq_none_iff (cls : NameClass) (name : String) :
    S.find? cls name = none ↔ ∀ k id, ¬ DeclaredUnder es k cls name id := by
  constructor
  · intro hnone k id hdecl
    exact find?_ne_none ((h.names ..).2 hdecl) hnone
  · intro hnone
    refine Option.eq_none_iff_forall_ne_some.2 fun id hfind => ?_
    obtain ⟨k, hbinds, -⟩ := binds_of_find? hfind
    exact hnone k id ((h.names ..).1 hbinds)

end Follows

/-! ## The next call -/

/-- A scope has exactly the names declared since it was entered, each once, and its fields are the plain
ones. -/
structure Gathers (es : List Answered) (scope : Scope) : Prop where
  names : ∀ cls name id, (name, id) ∈ scope.names cls ↔ DeclaredHere es cls name id
  distinct : ∀ cls, ((scope.names cls).map Prod.fst).Nodup
  fields : ∀ name id, scope.fieldTable.get? name = some id ↔ DeclaredHere es .plain name id

/-- What a history tells of a stack: how deep it is, what names stand for, which symbols there are, and what
the next call will give. -/
structure Told (es : List Answered) (S : ScopeStack) : Prop where
  depth : S.depth + exits es = enters es + 1 ∧ 1 ≤ S.depth
  stuck : (S.call .exit).1 = .refused .nothingToExit ↔ S.depth = 1
  left : S.depth ≠ 1 → ∃ scope, (S.call .exit).1 = .left scope ∧ Gathers es scope
  taken : ∀ name symbol, (S.call (.declare name symbol)).1 = .refused (.duplicateName name) ↔
    ∃ id, DeclaredHere es symbol.nameClass name id
  declared : ∀ name symbol, (¬ ∃ id, DeclaredHere es symbol.nameClass name id) →
    (S.call (.declare name symbol)).1 = .declared ⟨(symbolsOf es).length⟩
  refused : ∀ c error, (S.call c).1 = .refused error → (S.call c).2 = S
  ids : idsOf es = (List.range (symbolsOf es).length).map SymbolId.mk
  symbols : ∀ i, S.table.get? ⟨i⟩ = (symbolsOf es)[i]?
  lasting : ∀ i symbol, (symbolsOf es)[i]? = some symbol → ∀ cs, (S.after cs).table.get? ⟨i⟩ = some symbol
  found : ∀ cls name id, S.find? cls name = some id ↔ ∃ i, DeclaredLast es cls name id i
  missing : ∀ cls name, S.find? cls name = none ↔ ∀ k id, ¬ DeclaredUnder es k cls name id
  foundLocal : ∀ cls name id, S.findLocal? cls name = some id ↔ DeclaredHere es cls name id

theorem depth_eq_one {S : ScopeStack} : S.depth = 1 ↔ S.outer = [] := by
  simp [depth, scopes]

theorem CallStep.refused {S S' : ScopeStack} {c : Call} {error : ScopeError}
    (h : CallStep S c (.refused error) S') : S' = S := by
  cases h <;> rfl

theorem CallStep.kept {S S' : ScopeStack} {c : Call} {reply : Reply} (h : CallStep S c reply S') :
    S.table.Kept S'.table := by
  cases h with
  | declare => exact S.table.kept_push _
  | _ => exact .refl _

theorem kept_after (S : ScopeStack) (cs : List Call) : S.table.Kept (S.after cs).table := by
  induction cs generalizing S with
  | nil => exact .refl _
  | cons c cs ih => exact (S.callStep c).kept.trans (ih _)

namespace Follows
variable {es : List Answered} {S : ScopeStack} (h : Follows es S)
include h

theorem gathers : Gathers es S.innermost where
  names cls name id := by rw [DeclaredHere, ← h.names, binds_zero]
  distinct := h.distinct _ List.mem_cons_self
  fields name id := by
    have hget := FieldTable.get?_ofList (h.distinct _ List.mem_cons_self .plain) name
    rw [← h.findLocal?_iff]
    exact hget ▸ Iff.rfl

theorem taken_iff (name : String) (symbol : Symbol) :
    (S.call (.declare name symbol)).1 = .refused (.duplicateName name) ↔
      ∃ id, DeclaredHere es symbol.nameClass name id := by
  simp only [← h.findLocal?_iff]
  cases hfind : S.findLocal? symbol.nameClass name with
  | none => simp [call_declare hfind]
  | some id => simp [call_declare_taken hfind]

end Follows

/-- After any calls a new stack is what their history tells. -/
theorem told_trace (cs : List Call) : Told (trace {} cs) (after {} cs) := by
  have h : Follows (trace {} cs) (after {} cs) := Follows.new.run cs
  constructor
  case depth => exact ⟨h.depth, Nat.succ_pos _⟩
  case stuck =>
    rw [depth_eq_one]
    cases ho : (after {} cs).outer with
    | nil => simp [call_exit_stuck ho]
    | cons next outer => simp [call_exit ho]
  case left =>
    intro hdepth
    rw [Ne, depth_eq_one] at hdepth
    obtain ⟨next, outer, ho⟩ := List.exists_cons_of_ne_nil hdepth
    exact ⟨_, by rw [call_exit ho], h.gathers⟩
  case taken => exact h.taken_iff
  case declared =>
    intro name symbol hnew
    simp only [← h.findLocal?_iff, not_exists] at hnew
    rw [call_declare (Option.eq_none_iff_forall_ne_some.2 hnew), ← h.size]
    rfl
  case refused =>
    intro c error he
    have hc := (after {} cs).callStep c
    rw [he] at hc
    exact hc.refused
  case ids => rw [h.ids, h.size]
  case symbols =>
    intro i
    rw [← h.symbols]
    rfl
  case lasting =>
    intro i symbol hi more
    refine kept_after _ more ⟨i⟩ symbol ?_
    rw [← hi, ← h.symbols]
    rfl
  case found => exact h.find?_iff
  case missing => exact h.find?_eq_none_iff
  case foundLocal => exact h.findLocal?_iff

/-- A name declared again inside hides the outer one until the inner scope is left. -/
example :
    let x : Symbol := ⟨"x", .scalar .int, {}⟩
    let inside := ({} : ScopeStack).after [.declare "x" x, .enter, .declare "x" x]
    inside.find? .plain "x" = some ⟨1⟩ ∧ (inside.after [.exit]).find? .plain "x" = some ⟨0⟩ := by
  decide

end ScopeStack

end Namescope
