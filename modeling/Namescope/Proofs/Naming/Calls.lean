import Namescope.Proofs.Naming.Soundness
/-!
# Calls to a scope stack

A stack is used by calls: scopes are entered and left, names declared, and calls may be refused. A history
of calls with their replies says on its own which scopes are open and where each name was declared.
-/
namespace Namescope

namespace ScopeStack

/-! ## Calls -/

/-- A call to a stack of scopes. -/
inductive Call where
  | enter
  | exit
  | declare (name : String) (symbol : Symbol)
  deriving DecidableEq

/-- What a call gives. -/
inductive Reply where
  | entered
  | left (scope : Scope)
  | declared (id : SymbolId)
  | refused (error : ScopeError)
  deriving DecidableEq

/-- A call with its reply. -/
structure Answered where
  call : Call
  reply : Reply
  deriving DecidableEq

/-- Makes a call. -/
def call (S : ScopeStack) : Call → Reply × ScopeStack
  | .enter => (.entered, S.enter)
  | .exit =>
    match S.exit with
    | .ok (scope, S') => (.left scope, S')
    | .error e => (.refused e, S)
  | .declare name symbol =>
    match S.declare name symbol with
    | .ok (id, S') => (.declared id, S')
    | .error e => (.refused e, S)

/-- The stack after calls. -/
def after (S : ScopeStack) : List Call → ScopeStack
  | [] => S
  | c :: cs => (S.call c).2.after cs

/-- The calls with their replies, the oldest first. -/
def trace (S : ScopeStack) : List Call → List Answered
  | [] => []
  | c :: cs => ⟨c, (S.call c).1⟩ :: (S.call c).2.trace cs

/-- What a call does. -/
inductive CallStep (S : ScopeStack) : Call → Reply → ScopeStack → Prop
  | enter : CallStep S .enter .entered S.enter
  | exit {next outer} : S.outer = next :: outer →
      CallStep S .exit (.left S.innermost) ⟨S.table, next, outer⟩
  | stuck : S.outer = [] → CallStep S .exit (.refused .nothingToExit) S
  | declare {name symbol} : S.findLocal? symbol.nameClass name = none →
      CallStep S (.declare name symbol) (.declared S.table.nextId)
        ⟨S.table.push symbol, S.innermost.bind symbol.nameClass name S.table.nextId, S.outer⟩
  | taken {name symbol id} : S.findLocal? symbol.nameClass name = some id →
      CallStep S (.declare name symbol) (.refused (.duplicateName name)) S

section
variable {S : ScopeStack} {next : Scope} {outer : List Scope} {name : String} {symbol : Symbol} {id : SymbolId}

theorem call_exit (h : S.outer = next :: outer) :
    S.call .exit = (.left S.innermost, ⟨S.table, next, outer⟩) := by
  simp only [call, ScopeStack.exit, h]

theorem call_exit_stuck (h : S.outer = []) : S.call .exit = (.refused .nothingToExit, S) := by
  simp only [call, ScopeStack.exit, h]

theorem call_declare (h : S.findLocal? symbol.nameClass name = none) :
    S.call (.declare name symbol) = (.declared S.table.nextId,
      ⟨S.table.push symbol, S.innermost.bind symbol.nameClass name S.table.nextId, S.outer⟩) := by
  simp only [call, ScopeStack.declare, h]

theorem call_declare_taken (h : S.findLocal? symbol.nameClass name = some id) :
    S.call (.declare name symbol) = (.refused (.duplicateName name), S) := by
  simp only [call, ScopeStack.declare, h]

end

theorem callStep (S : ScopeStack) (c : Call) : CallStep S c (S.call c).1 (S.call c).2 := by
  cases c with
  | enter => exact .enter
  | exit =>
    cases h : S.outer with
    | nil => rw [call_exit_stuck h]; exact .stuck h
    | cons next outer => rw [call_exit h]; exact .exit h
  | declare name symbol =>
    cases h : S.findLocal? symbol.nameClass name with
    | none => rw [call_declare h]; exact .declare h
    | some id => rw [call_declare_taken h]; exact .taken h

/-! ## What a history says -/

namespace Answered

/-- Whether a scope was entered. -/
def entered (e : Answered) : Bool := e.reply matches .entered

/-- Whether a scope was left. -/
def left (e : Answered) : Bool := e.reply matches .left _

/-- The identifier of a name that was declared. -/
def id? (e : Answered) : Option SymbolId :=
  match e.reply with
  | .declared id => some id
  | _ => none

/-- The symbol of a name that was declared. -/
def symbol? (e : Answered) : Option Symbol :=
  match e with
  | ⟨.declare _ symbol, .declared _⟩ => some symbol
  | _ => none

end Answered

/-- How many scopes were entered. -/
def enters (es : List Answered) : Nat := es.countP Answered.entered

/-- How many scopes were left. -/
def exits (es : List Answered) : Nat := es.countP Answered.left

/-- The scope that is innermost before the events is not left by them: at no time have more scopes been left
than entered. -/
def StaysOpen (es : List Answered) : Prop := ∀ before, before <+: es → exits before ≤ enters before

/-- After the events that scope is open, with so many others inside it. -/
def LiesUnder (k : Nat) (es : List Answered) : Prop := StaysOpen es ∧ enters es = exits es + k

/-- At a place in the history a name was declared. -/
def DeclaredAt (es : List Answered) (i : Nat) (cls : NameClass) (name : String) (id : SymbolId) : Prop :=
  ∃ symbol, es[i]? = some ⟨.declare name symbol, .declared id⟩ ∧ symbol.nameClass = cls

/-- A name was declared in a scope that is still open, with so many others inside it. -/
def DeclaredUnder (es : List Answered) (k : Nat) (cls : NameClass) (name : String) (id : SymbolId) : Prop :=
  ∃ i, DeclaredAt es i cls name id ∧ LiesUnder k (es.drop (i + 1))

/-- A name was declared in the scope that is now the innermost one. -/
abbrev DeclaredHere (es : List Answered) := DeclaredUnder es 0

/-- The last time that the name was declared in a scope which is still open. -/
structure DeclaredLast (es : List Answered) (cls : NameClass) (name : String) (id : SymbolId) (i : Nat) :
    Prop where
  declared : DeclaredAt es i cls name id
  isOpen : StaysOpen (es.drop (i + 1))
  closed : ∀ j id', i < j → DeclaredAt es j cls name id' → ¬ StaysOpen (es.drop (j + 1))

section
variable {es : List Answered} {e : Answered} {i k : Nat} {cls : NameClass} {name : String} {id : SymbolId}

theorem enters_append (es es' : List Answered) : enters (es ++ es') = enters es + enters es' :=
  List.countP_append

theorem exits_append (es es' : List Answered) : exits (es ++ es') = exits es + exits es' :=
  List.countP_append

theorem enters_concat (es : List Answered) (e : Answered) :
    enters (es ++ [e]) = enters es + e.entered.toNat := by
  rw [enters_append, enters, enters, List.countP_singleton]
  cases e.entered <;> rfl

theorem exits_concat (es : List Answered) (e : Answered) : exits (es ++ [e]) = exits es + e.left.toNat := by
  rw [exits_append, exits, exits, List.countP_singleton]
  cases e.left <;> rfl

theorem staysOpen_concat :
    StaysOpen (es ++ [e]) ↔ StaysOpen es ∧ exits (es ++ [e]) ≤ enters (es ++ [e]) := by
  constructor
  · intro h
    exact ⟨fun p hp => h p (hp.trans (List.prefix_append _ _)), h _ List.prefix_rfl⟩
  · rintro ⟨h, hlast⟩ p hp
    rcases List.prefix_concat_iff.1 hp with rfl | hp
    · exact hlast
    · exact h p hp

theorem staysOpen_iff : StaysOpen es ↔ ∃ k, LiesUnder k es := by
  constructor
  · intro h
    have hle := h es List.prefix_rfl
    exact ⟨enters es - exits es, h, by omega⟩
  · rintro ⟨k, h, -⟩
    exact h

/-- Entering a scope puts one more inside each that is open. -/
theorem liesUnder_entered (he : e.entered = true) (hl : e.left = false) :
    LiesUnder k (es ++ [e]) ↔ ∃ j, k = j + 1 ∧ LiesUnder j es := by
  simp only [LiesUnder, staysOpen_concat, enters_concat, exits_concat, he, hl, Bool.toNat_true, Bool.toNat_false]
  constructor
  · rintro ⟨⟨h, -⟩, hk⟩
    have hle := h es List.prefix_rfl
    exact ⟨k - 1, by omega, h, by omega⟩
  · rintro ⟨j, rfl, h, hj⟩
    exact ⟨⟨h, by omega⟩, by omega⟩

/-- Leaving a scope takes one out of each that stays open. -/
theorem liesUnder_left (he : e.entered = false) (hl : e.left = true) :
    LiesUnder k (es ++ [e]) ↔ LiesUnder (k + 1) es := by
  simp only [LiesUnder, staysOpen_concat, enters_concat, exits_concat, he, hl, Bool.toNat_true, Bool.toNat_false]
  constructor
  · rintro ⟨⟨h, -⟩, hk⟩
    exact ⟨h, by omega⟩
  · rintro ⟨h, hk⟩
    exact ⟨⟨h, by omega⟩, by omega⟩

/-- Other events open and close nothing. -/
theorem liesUnder_other (he : e.entered = false) (hl : e.left = false) :
    LiesUnder k (es ++ [e]) ↔ LiesUnder k es := by
  simp only [LiesUnder, staysOpen_concat, enters_concat, exits_concat, he, hl, Bool.toNat_false]
  constructor
  · rintro ⟨⟨h, -⟩, hk⟩
    exact ⟨h, hk⟩
  · rintro ⟨h, hk⟩
    exact ⟨⟨h, by omega⟩, hk⟩

theorem DeclaredAt.lt (h : DeclaredAt es i cls name id) : i < es.length := by
  obtain ⟨symbol, hi, -⟩ := h
  exact (List.getElem?_eq_some_iff.1 hi).1

/-- A name is declared in a history that goes on by an event: before it or by it. -/
theorem declaredUnder_concat :
    DeclaredUnder (es ++ [e]) k cls name id ↔
      (∃ i, DeclaredAt es i cls name id ∧ LiesUnder k (es.drop (i + 1) ++ [e])) ∨
      (k = 0 ∧ ∃ symbol, e = ⟨.declare name symbol, .declared id⟩ ∧ symbol.nameClass = cls) := by
  constructor
  · rintro ⟨i, ⟨symbol, hi, hc⟩, hk⟩
    by_cases hlt : i < es.length
    · rw [List.getElem?_append_left hlt] at hi
      rw [List.drop_append_of_le_length hlt] at hk
      exact .inl ⟨i, ⟨symbol, hi, hc⟩, hk⟩
    · have hlen := (List.getElem?_eq_some_iff.1 hi).1
      have hi' : i = es.length := by simp at hlen; omega
      subst hi'
      obtain rfl : e = _ := by simpa using hi
      have hk0 : 0 = k := by simpa [enters, exits] using hk.2
      exact .inr ⟨hk0.symm, symbol, rfl, hc⟩
  · rintro (⟨i, hi, hk⟩ | ⟨rfl, symbol, rfl, hc⟩)
    · have hlt := hi.lt
      obtain ⟨symbol, he, hc⟩ := hi
      refine ⟨i, ⟨symbol, ?_, hc⟩, ?_⟩
      · rw [List.getElem?_append_left hlt, he]
      · rwa [List.drop_append_of_le_length hlt]
    · refine ⟨es.length, ⟨symbol, by simp, hc⟩, ?_⟩
      simp [LiesUnder, StaysOpen, enters, exits]

/-- Entering a scope puts it above every declaration. -/
theorem declaredUnder_entered :
    DeclaredUnder (es ++ [⟨.enter, .entered⟩]) k cls name id ↔
      ∃ j, k = j + 1 ∧ DeclaredUnder es j cls name id := by
  rw [declaredUnder_concat]
  simp only [liesUnder_entered (e := ⟨.enter, .entered⟩) rfl rfl]
  constructor
  · rintro (⟨i, hi, j, rfl, hj⟩ | ⟨-, _, he, -⟩)
    · exact ⟨j, rfl, i, hi, hj⟩
    · cases he
  · rintro ⟨j, rfl, i, hi, hj⟩
    exact .inl ⟨i, hi, j, rfl, hj⟩

/-- Leaving a scope takes its declarations away. -/
theorem declaredUnder_left {scope : Scope} :
    DeclaredUnder (es ++ [⟨.exit, .left scope⟩]) k cls name id ↔ DeclaredUnder es (k + 1) cls name id := by
  rw [declaredUnder_concat]
  simp only [liesUnder_left (e := ⟨.exit, .left scope⟩) rfl rfl]
  constructor
  · rintro (h | ⟨-, _, he, -⟩)
    · exact h
    · cases he
  · exact .inl

theorem declaredUnder_refused {c : Call} {error : ScopeError} :
    DeclaredUnder (es ++ [⟨c, .refused error⟩]) k cls name id ↔ DeclaredUnder es k cls name id := by
  rw [declaredUnder_concat]
  simp only [liesUnder_other (e := ⟨c, .refused error⟩) rfl rfl]
  constructor
  · rintro (h | ⟨-, _, he, -⟩)
    · exact h
    · cases he
  · exact .inl

theorem declaredUnder_declared {symbol : Symbol} {name' : String} {id' : SymbolId} :
    DeclaredUnder (es ++ [⟨.declare name' symbol, .declared id'⟩]) k cls name id ↔
      DeclaredUnder es k cls name id ∨ (k = 0 ∧ cls = symbol.nameClass ∧ name = name' ∧ id = id') := by
  rw [declaredUnder_concat]
  simp only [liesUnder_other (e := ⟨.declare name' symbol, .declared id'⟩) rfl rfl]
  refine or_congr Iff.rfl (and_congr_right fun _ => ⟨?_, ?_⟩)
  · rintro ⟨_, he, rfl⟩
    cases he
    exact ⟨rfl, rfl, rfl⟩
  · rintro ⟨rfl, rfl, rfl⟩
    exact ⟨symbol, rfl, rfl⟩

/-- Of two declarations whose scopes are open the later one lies under no more scopes. -/
theorem LiesUnder.le_of_lt {j l : Nat} (hk : LiesUnder k (es.drop (i + 1))) (hl : LiesUnder l (es.drop (j + 1)))
    (hij : i < j) : l ≤ k := by
  obtain ⟨d, hd⟩ : ∃ d, j + 1 = (i + 1) + d := ⟨j - i, by omega⟩
  rw [hd, ← List.drop_drop] at hl
  have hsplit := List.take_append_drop d (es.drop (i + 1))
  have hmid := hk.1 _ (List.take_prefix d _)
  have hen := enters_append ((es.drop (i + 1)).take d) ((es.drop (i + 1)).drop d)
  have hex := exits_append ((es.drop (i + 1)).take d) ((es.drop (i + 1)).drop d)
  rw [hsplit] at hen hex
  have hk := hk.2
  have hl := hl.2
  omega

theorem DeclaredLast.unique {id' : SymbolId} {j : Nat} (h : DeclaredLast es cls name id i)
    (h' : DeclaredLast es cls name id' j) : id = id' := by
  rcases Nat.lt_trichotomy i j with hij | rfl | hij
  · exact absurd h'.isOpen (h.closed _ _ hij h'.declared)
  · obtain ⟨s, hs, -⟩ := h.declared
    obtain ⟨s', hs', -⟩ := h'.declared
    rw [hs] at hs'
    cases hs'
    rfl
  · exact absurd h.isOpen (h'.closed _ _ hij h.declared)

end

end ScopeStack

end Namescope
