import Mathlib.Data.List.Induction
import Namescope.Proofs.Naming.Reachable
/-!
# Chains of fields

A chain is resolved as its declared types say, whichever scopes are open: the struct that a type names is
looked up in the table of all symbols. If a link is missing, or no field can be taken of it, that link alone
is noted, the links before it are marked as in a chain that resolves, and those after it stay as they are.
-/
namespace Namescope

/-! ## Chains and their types -/

/-- A field in a chain, with the type that is noted beside it. -/
structure Link where
  ident : Ident
  resolved : Option String
  deriving DecidableEq

/-- The link with the field that it stands for and the declared type of that. -/
def Link.mark (link : Link) (id : SymbolId) (type : TypeName) : Link := ⟨link.ident.mark id, some type.display⟩

/-- The location `x.f₁…fₙ`. -/
def Location.chain (x : Ident) (links : List Link) : Location :=
  links.foldl (fun base link => .field base link.ident link.resolved) (.name x)

theorem Location.chain_concat (x : Ident) (links : List Link) (link : Link) :
    chain x (links ++ [link]) = .field (chain x links) link.ident link.resolved :=
  List.foldl_concat ..

/-- The fields of the struct type of a name, among all symbols. -/
def SymbolTable.fieldsOf? (table : SymbolTable) (name : String) : Option FieldTable :=
  table.symbols.findSome? fun s => if s.name = name then s.fields? else none

namespace ScopeStack
variable (S : ScopeStack)

/-- A field of the struct type of a name. -/
def fieldOf? (type field : String) : Option SymbolId := (S.table.fieldsOf? type).bind (·.get? field)

/-- The walk along the declared types from a type to that of the last link; every link is marked. -/
inductive Walks : TypeName → List Link → List Link → TypeName → Prop
  | stay (type) : Walks type [] [] type
  | field {name link id type links links' last} : S.fieldOf? name link.ident.name = some id →
      S.typeName? id = some type → Walks type links links' last →
      Walks (.struct name) (link :: links) (link.mark id type :: links') last

/-- What a chain comes to. -/
inductive ChainOutcome (x : Ident) : List Link → Ident → List Link → List (Finding NameIssue) → Prop
  | resolved {id type links links' last} : S.find? .plain x.name = some id → S.typeName? id = some type →
      S.Walks type links links' last → ChainOutcome x links (x.mark id) links' []
  | undeclared {links} : S.find? .plain x.name = none → ChainOutcome x links x links [⟨.undeclared, x.span⟩]
  | noStruct {id links} : S.find? .plain x.name = some id → (∀ name, S.typeName? id ≠ some (.struct name)) →
      ChainOutcome x links (x.mark id) links [⟨.dotNonStruct, x.span⟩]
  | noField {id type before before' name link after} : S.find? .plain x.name = some id →
      S.typeName? id = some type → S.Walks type before before' (.struct name) →
      S.fieldOf? name link.ident.name = none →
      ChainOutcome x (before ++ link :: after) (x.mark id) (before' ++ link :: after)
        [⟨.invalidField, link.ident.span⟩]
  | scalarField {id type before link before' last next after} : S.find? .plain x.name = some id →
      S.typeName? id = some type → S.Walks type (before ++ [link]) before' last → (∀ name, last ≠ .struct name) →
      ChainOutcome x (before ++ link :: next :: after) (x.mark id) (before' ++ next :: after)
        [⟨.dotNonStruct, link.ident.span⟩]

/-- Every link is a field of the struct type before it, and all but the last are of struct types. -/
def HasPath (type : String) : List Link → Prop
  | [] => False
  | [link] => ∃ id, S.fieldOf? type link.ident.name = some id
  | link :: next :: more => ∃ id type', S.fieldOf? type link.ident.name = some id ∧
      S.typeName? id = some (.struct type') ∧ HasPath type' (next :: more)

/-- The chain begins with a visible variable or formal of a struct type, and has all the fields in it. -/
def Resolves (x : Ident) (links : List Link) : Prop :=
  ∃ id type, S.find? .plain x.name = some id ∧ S.typeName? id = some (.struct type) ∧ S.HasPath type links

end ScopeStack

/-! ## Structs by name -/

section
variable {S : ScopeStack}

theorem Symbol.nameClass_of_fields? {s : Symbol} {fields : FieldTable} (h : s.fields? = some fields) :
    s.nameClass = .struct := by
  obtain ⟨name, kind, span⟩ := s
  cases kind <;> first | rfl | cases h

/-- The struct that a scope knows under a name is the one of that name among all symbols. -/
theorem ScopeStack.Settled.fieldOf?_eq (hset : S.Settled) (hS : S.Sound) {name : String} {owner : SymbolId}
    (h : S.find? .struct name = some owner) (field : String) : S.fieldOf? name field = S.field? owner field := by
  obtain ⟨s, hs, rfl, hc⟩ := hS.find? h
  obtain ⟨fields, hfields⟩ := Symbol.fields?_of_nameClass hc
  have hmem : s ∈ S.table.symbols := List.mem_of_getElem? hs
  have htable : S.table.fieldsOf? s.name = some fields := by
    cases hfind : S.table.fieldsOf? s.name with
    | none =>
      have hnone := List.findSome?_eq_none_iff.1 hfind s hmem
      rw [if_pos rfl, hfields] at hnone
      cases hnone
    | some fields' =>
      obtain ⟨s', hmem', hs'⟩ := List.exists_of_findSome?_eq_some hfind
      split at hs'
      · rename_i hname
        obtain ⟨index, hindex⟩ := List.mem_iff_getElem?.1 hmem'
        -- both symbols are what the global scope finds under the name
        have hfirst := hset.named owner s hs hc
        have hsecond := hset.named ⟨index⟩ s' hindex (Symbol.nameClass_of_fields? hs')
        rw [hname, hfirst] at hsecond
        cases hsecond
        obtain rfl : s' = s := Option.some.inj (hindex.symm.trans hs)
        rw [← hs', hfields]
      · cases hs'
  rw [fieldOf?, field?, htable, hs, Option.bind_some, Option.bind_some, hfields, Option.bind_some]

theorem ScopeStack.Settled.ne_struct (hset : S.Settled) (hS : S.Sound) {id : SymbolId} (h : S.held? id = none)
    (name : String) : S.typeName? id ≠ some (.struct name) := by
  intro htype
  obtain ⟨s, hs, ht⟩ := Option.bind_eq_some_iff.1 htype
  obtain ⟨owner, howner⟩ := hset.typed id s name hs ht
  have hnone := held?_eq_none h htype
  rw [hset.find?_eq hS, howner] at hnone
  cases hnone

/-- A field has a declared type, which is noted beside it. -/
theorem ScopeStack.Sound.typeName?_field (hS : S.Sound) {owner id : SymbolId} {field : String}
    (h : S.field? owner field = some id) :
    ∃ type, S.typeName? id = some type ∧ S.noted? id = some type.display := by
  obtain ⟨s, type, hs, -, ht⟩ := hS.field? h
  have htype : (S.table.get? id).bind Symbol.type? = some type := by rw [hs, Option.bind_some, ht]
  exact ⟨type, htype, by rw [noted?, htype, Option.map_some]⟩

/-! ## Walks along types -/

theorem ScopeStack.Walks.concat {type type' : TypeName} {name : String} {links links' : List Link} {link : Link}
    {id : SymbolId} (h : S.Walks type links links' (.struct name))
    (hfield : S.fieldOf? name link.ident.name = some id) (htype : S.typeName? id = some type') :
    S.Walks type (links ++ [link]) (links' ++ [link.mark id type']) type' := by
  generalize hlast : TypeName.struct name = last at h
  induction h with
  | stay =>
    subst hlast
    exact .field hfield htype (.stay _)
  | field hfirst hfirstType _ ih => exact .field hfirst hfirstType (ih hlast)

theorem ScopeStack.Walks.hasPath {type last : TypeName} {links links' : List Link} (h : S.Walks type links links' last)
    (hlinks : links ≠ []) : ∃ name, type = .struct name ∧ S.HasPath name links := by
  induction h with
  | stay => exact absurd rfl hlinks
  | @field name link id type links _ _ hfield htype hmore ih =>
    refine ⟨name, rfl, ?_⟩
    cases links with
    | nil => exact ⟨id, hfield⟩
    | cons next more =>
      obtain ⟨type', rfl, hpath⟩ := ih (List.cons_ne_nil _ _)
      exact ⟨id, type', hfield, htype, hpath⟩

theorem ScopeStack.HasPath.head {type : String} {link : Link} {more : List Link} (h : S.HasPath type (link :: more)) :
    ∃ id, S.fieldOf? type link.ident.name = some id := by
  cases more with
  | nil => exact h
  | cons next more =>
    obtain ⟨id, -, hfield, -⟩ := h
    exact ⟨id, hfield⟩

theorem ScopeStack.HasPath.tail {type : String} {link : Link} {more : List Link} (h : S.HasPath type (link :: more))
    (hmore : more ≠ []) : ∃ id type', S.fieldOf? type link.ident.name = some id ∧
      S.typeName? id = some (.struct type') ∧ S.HasPath type' more := by
  cases more with
  | nil => exact absurd rfl hmore
  | cons next more => exact h

/-- Where more links follow a walk, it has come to a struct type that has them. -/
theorem ScopeStack.Walks.hasPath_rest {type last : TypeName} {links links' : List Link}
    (h : S.Walks type links links' last) {name : String} (hname : type = .struct name) {next : Link}
    {more : List Link} (hpath : S.HasPath name (links ++ next :: more)) :
    ∃ name', last = .struct name' ∧ S.HasPath name' (next :: more) := by
  induction h generalizing name with
  | stay => exact ⟨name, hname, hpath⟩
  | field hfield htype _ ih =>
    cases hname
    obtain ⟨id', type', hfield', htype', hrest⟩ := hpath.tail (by simp)
    rw [hfield] at hfield'
    cases hfield'
    rw [htype] at htype'
    exact ih (Option.some.inj htype') hrest

/-! ## The resolver on chains -/

theorem Holds.chain {x : Ident} {links : List Link} {l' : Location} {owner : SymbolId}
    (h : Holds S (.chain x links) l' owner) (hS : S.Sound) (hset : S.Settled) :
    ∃ id type links' name, S.find? .plain x.name = some id ∧ S.typeName? id = some type ∧
      S.Walks type links links' (.struct name) ∧ S.find? .struct name = some owner ∧
      l' = .chain (x.mark id) links' := by
  induction links using List.reverseRecOn generalizing l' owner with
  | nil =>
    cases h with
    | name hfind hheld =>
      obtain ⟨name, htype, howner⟩ := ScopeStack.held?_eq_some hheld
      exact ⟨_, _, [], name, hfind, htype, .stay _, howner, rfl⟩
  | append_singleton links link ih =>
    rw [Location.chain_concat] at h
    cases h with
    | field hbase hfield hheld =>
      obtain ⟨id, type, links', name, hfind, htype, hwalk, howner, rfl⟩ := ih hbase
      obtain ⟨name', htype', howner'⟩ := ScopeStack.held?_eq_some hheld
      obtain ⟨type', hfieldType, hnoted⟩ := hS.typeName?_field hfield
      rw [htype'] at hfieldType
      cases hfieldType
      have hfieldOf := (hset.fieldOf?_eq hS howner _).trans hfield
      refine ⟨id, type, _, name', hfind, htype, hwalk.concat hfieldOf htype', howner', ?_⟩
      rw [Location.chain_concat, hnoted]
      rfl

/-- A link that comes after one that fails is passed over. -/
theorem ScopeStack.ChainOutcome.concat {x x' : Ident} {links links' : List Link} {f : Finding NameIssue}
    (h : S.ChainOutcome x links x' links' [f]) (link : Link) :
    S.ChainOutcome x (links ++ [link]) x' (links' ++ [link]) [f] := by
  cases h with
  | undeclared hfind => exact .undeclared hfind
  | noStruct hfind htype => exact .noStruct hfind htype
  | noField hfind htype hwalk hnone =>
    simp only [List.append_assoc, List.cons_append]
    exact .noField hfind htype hwalk hnone
  | scalarField hfind htype hwalk hscalar =>
    simp only [List.append_assoc, List.cons_append]
    exact .scalarField hfind htype hwalk hscalar

theorem Fails.chain {x : Ident} {links : List Link} {l' : Location} {f : Finding NameIssue}
    (h : Fails S (.chain x links) l' f) (hS : S.Sound) (hset : S.Settled) :
    ∃ x' links', l' = .chain x' links' ∧
      ∀ last, S.ChainOutcome x (links ++ [last]) x' (links' ++ [last]) [f] := by
  induction links using List.reverseRecOn generalizing l' f with
  | nil =>
    cases h with
    | undeclared hfind => exact ⟨x, [], rfl, fun _ => .undeclared hfind⟩
    | scalar hfind hheld => exact ⟨_, [], rfl, fun _ => .noStruct hfind (hset.ne_struct hS hheld)⟩
  | append_singleton links link ih =>
    rw [Location.chain_concat] at h
    cases h with
    | inner hbase =>
      obtain ⟨x', links', rfl, houtcome⟩ := ih hbase
      exact ⟨x', links' ++ [link], (Location.chain_concat ..).symm, fun last => (houtcome link).concat last⟩
    | noField hbase hnone =>
      obtain ⟨id, type, links', name, hfind, htype, hwalk, howner, rfl⟩ := hbase.chain hS hset
      have hnone := (hset.fieldOf?_eq hS howner _).trans hnone
      refine ⟨_, links' ++ [link], (Location.chain_concat ..).symm, fun last => ?_⟩
      simp only [List.append_assoc, List.cons_append]
      exact .noField hfind htype hwalk hnone
    | @scalarField _ _ _ _ _ field hbase hfield hheld =>
      obtain ⟨id, type, links', name, hfind, htype, hwalk, howner, rfl⟩ := hbase.chain hS hset
      obtain ⟨type', hfieldType, hnoted⟩ := hS.typeName?_field hfield
      have hfieldOf := (hset.fieldOf?_eq hS howner _).trans hfield
      have hscalar : ∀ name, type' ≠ .struct name := fun name e => hset.ne_struct hS hheld name (e ▸ hfieldType)
      refine ⟨x.mark id, links' ++ [link.mark field type'], ?_, fun last => ?_⟩
      · rw [Location.chain_concat, hnoted]
        rfl
      · have hall := hwalk.concat hfieldOf hfieldType
        rw [List.append_assoc]
        exact .scalarField hfind htype hall hscalar

/-- A place that is a chain comes to what the declared types say. -/
theorem Resolve.yields_chain (hS : S.Sound) (hset : S.Settled) (x : Ident) {links : List Link} (hlinks : links ≠ []) :
    ∃ x' links' fs, Yields (location (.chain x links)) S (.chain x' links') S fs ∧
      S.ChainOutcome x links x' links' fs := by
  obtain ⟨init, last, rfl⟩ := (List.eq_nil_or_concat' links).resolve_left hlinks
  obtain ⟨l', fs, hy, hi⟩ := yields_location hS (.chain x (init ++ [last]))
  rw [Location.chain_concat] at hi
  cases hi with
  | chain hbase hfield =>
    obtain ⟨id, type, links', name, hfind, htype, hwalk, howner, rfl⟩ := hbase.chain hS hset
    obtain ⟨type', hfieldType, hnoted⟩ := hS.typeName?_field hfield
    have hfieldOf := (hset.fieldOf?_eq hS howner _).trans hfield
    refine ⟨_, _, _, ?_, .resolved hfind htype (hwalk.concat hfieldOf hfieldType)⟩
    rw [hnoted] at hy
    rw [Location.chain_concat _ links']
    exact hy
  | noField hbase hnone =>
    obtain ⟨id, type, links', name, hfind, htype, hwalk, howner, rfl⟩ := hbase.chain hS hset
    have hnone := (hset.fieldOf?_eq hS howner _).trans hnone
    refine ⟨_, links' ++ [last], _, ?_, .noField hfind htype hwalk hnone⟩
    rwa [Location.chain_concat _ links']
  | broken hfails =>
    obtain ⟨x', links', rfl, houtcome⟩ := hfails.chain hS hset
    refine ⟨x', links' ++ [last], _, ?_, houtcome last⟩
    rwa [Location.chain_concat _ links']

/-- A chain is noted exactly if it does not resolve. -/
theorem ScopeStack.ChainOutcome.quiet_iff {x x' : Ident} {links links' : List Link} {fs : List (Finding NameIssue)}
    (h : S.ChainOutcome x links x' links' fs) (hlinks : links ≠ []) : fs = [] ↔ S.Resolves x links := by
  cases h with
  | resolved hfind htype hwalk =>
    obtain ⟨name, rfl, hpath⟩ := hwalk.hasPath hlinks
    exact iff_of_true rfl ⟨_, name, hfind, htype, hpath⟩
  | undeclared hfind =>
    refine iff_of_false (List.cons_ne_nil _ _) ?_
    rintro ⟨id, name, hfind', -, -⟩
    rw [hfind] at hfind'
    cases hfind'
  | noStruct hfind htype =>
    refine iff_of_false (List.cons_ne_nil _ _) ?_
    rintro ⟨id, name, hfind', htype', -⟩
    rw [hfind] at hfind'
    cases hfind'
    exact htype name htype'
  | noField hfind htype hwalk hnone =>
    refine iff_of_false (List.cons_ne_nil _ _) ?_
    rintro ⟨id, name, hfind', htype', hpath⟩
    rw [hfind] at hfind'
    cases hfind'
    obtain ⟨name', hname, hrest⟩ := hwalk.hasPath_rest (Option.some.inj (htype.symm.trans htype')) hpath
    cases hname
    obtain ⟨field, hfield⟩ := hrest.head
    rw [hnone] at hfield
    cases hfield
  | scalarField hfind htype hwalk hscalar =>
    refine iff_of_false (List.cons_ne_nil _ _) ?_
    rintro ⟨id, name, hfind', htype', hpath⟩
    rw [hfind] at hfind'
    cases hfind'
    rw [List.append_cons] at hpath
    obtain ⟨name', hname, -⟩ := hwalk.hasPath_rest (Option.some.inj (htype.symm.trans htype')) hpath
    exact hscalar name' hname

end

/-! ## Chains in every state -/

/-- In every state that the resolver gets to, a chain of fields is resolved as an expression to what its declared
types say, with nothing noted exactly if all of it is there. -/
theorem chain_resolution {r : Resolver} (h : Resolve.Reachable r) (x : Ident) {links : List Link}
    (hlinks : links ≠ []) (span : Span) : ∃ x' links' fs,
      Resolve.Yields (Resolve.expr (.place (.chain x links) span)) r.scopes (.place (.chain x' links') span) r.scopes fs ∧
      r.scopes.ChainOutcome x links x' links' fs ∧ (fs = [] ↔ r.scopes.Resolves x links) := by
  obtain ⟨hS, hset⟩ := h.settled
  obtain ⟨x', links', fs, hy, houtcome⟩ := Resolve.yields_chain hS hset x hlinks
  exact ⟨x', links', fs, hy.thenQuiet (.pure _ _), houtcome, houtcome.quiet_iff hlinks⟩

/-- The program `struct P { int x; } struct Q { struct P p; } struct Q q;`, without places. -/
def Program.nested : Program where
  decls :=
    [.struct ⟨⟨"P", {}, none⟩, [⟨⟨.int, {}⟩, ⟨"x", {}, none⟩, {}⟩], {}⟩,
     .struct ⟨⟨"Q", {}, none⟩, [⟨⟨.struct ⟨"P", {}, none⟩, {}⟩, ⟨"p", {}, none⟩, {}⟩], {}⟩,
     .variable ⟨⟨.struct ⟨"Q", {}, none⟩, {}⟩, ⟨"q", {}, none⟩, {}⟩]

/-- The scopes after this program. -/
def ScopeStack.nested : ScopeStack where
  table := ⟨[⟨"x", .scalar .int, {}⟩, ⟨"P", .struct (.ofList [("x", ⟨0⟩)]), {}⟩, ⟨"p", .scalar (.struct "P"), {}⟩,
    ⟨"Q", .struct (.ofList [("p", ⟨2⟩)]), {}⟩, ⟨"q", .scalar (.struct "Q"), {}⟩]⟩
  innermost := ⟨[("q", ⟨4⟩)], [("Q", ⟨3⟩), ("P", ⟨1⟩)]⟩

/-- After this program the chain `q.p.x` resolves. -/
theorem nested_chain_resolution : ∃ p' r, (Resolve.program .nested).run {} = .ok (p', r) ∧
    Resolve.Reachable r ∧ ∃ x' links', Resolve.Yields
      (Resolve.expr (.place (.chain ⟨"q", {}, none⟩ [⟨⟨"p", {}, none⟩, none⟩, ⟨⟨"x", {}, none⟩, none⟩]) {})) r.scopes
      (.place (.chain x' links') {}) r.scopes [] := by
  obtain ⟨p', S, vs, fs, hy, -⟩ := Resolve.follows_program .nested {} ScopeStack.sound_empty
  obtain ⟨events, hrun⟩ := hy [] []
  have hscopes : ((Resolve.program .nested).run {}).toOption.map (·.2.scopes) = some .nested := by decide +kernel
  rw [hrun] at hscopes
  obtain rfl : S = .nested := Option.some.inj hscopes
  have hresolves : ScopeStack.nested.Resolves ⟨"q", {}, none⟩ [⟨⟨"p", {}, none⟩, none⟩, ⟨⟨"x", {}, none⟩, none⟩] :=
    ⟨⟨4⟩, "Q", by decide +kernel, by decide +kernel, ⟨2⟩, "P", by decide +kernel, by decide +kernel, ⟨0⟩,
      by decide +kernel⟩
  have hreachable := Resolve.Reachable.between (.program .start hrun)
  obtain ⟨x', links', gs, hchain, -, hquiet⟩ := chain_resolution hreachable ⟨"q", {}, none⟩
    (List.cons_ne_nil ⟨⟨"p", {}, none⟩, none⟩ [⟨⟨"x", {}, none⟩, none⟩]) {}
  obtain rfl := hquiet.2 hresolves
  exact ⟨p', _, hrun, hreachable, x', links', hchain⟩

end Namescope
