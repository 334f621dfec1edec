import Namescope.Proofs.Naming.Shifting
/-!
# Bodies do not show outside

What stands in the body of a function matters to nothing outside that body. Whatever it is, the walk arrives in
front of it in one state, and behind it finds the same names in the same scopes: only the symbols declared from
there on are numbered higher, by as many as the body has declared.
-/
namespace Namescope

/-! ## In front of a body -/

namespace Resolve

/-- Walks over declarations, and over a function until its body begins. -/
def upToBody (before : List Decl) (f : FunctionDecl) : Resolve (List Decl × FunctionDecl) := do
  let head ← decls (← depth) before
  let result ← resultType f.result
  let name ← functionName f
  enter
  let formals ← bindings f.formals
  return (head, { f with result, name, formals })

end Resolve

/-- The visits to a function until its body begins. -/
def FunctionDecl.opening (f : FunctionDecl) : List Visit :=
  [.item (.result f.result), .item f.item, .enter] ++ Visit.bindings f.formals

theorem FunctionDecl.visits_eq (f : FunctionDecl) :
    (Decl.function f).visits = f.opening ++ (f.body.visits ++ [.leave]) := by
  simp [Decl.visits, opening, Visit.scoped]

/-- What a walk over visits without annotations has written is right. -/
theorem VisitSteps.occurrences {S S' : ScopeStack} {vs vs' : List Visit} {fs : List (Finding NameIssue)}
    (h : VisitSteps S vs vs' S' fs) (hS : S.Sound) (hbare : ∀ v ∈ vs, ∀ o ∈ v.occurrences, o.Bare) :
    ∀ v ∈ vs', ∀ o ∈ v.occurrences, o.Sound S'.table :=
  Thread.results (I := ScopeStack.Sound) (P := fun v => ∀ o ∈ Visit.occurrences v, o.Bare)
    (Q := fun (T : ScopeStack) v => ∀ o ∈ Visit.occurrences v, o.Sound T.table) VisitStep.sound
    VisitStep.occurrences (fun hv hQ o ho => (hQ o ho).kept hv.kept) h hS hbare

theorem Program.bare_occurrences {p : Program} (h : p.bare = p) : ∀ v ∈ p.visits, ∀ o ∈ v.occurrences, o.Bare :=
  fun v hv => v.bare_occurrences (Program.bare_of_mem_visits h hv)

/-- The state in front of a body: only the scope of the function is open inside the global one. -/
theorem Resolve.yields_upToBody (before : List Decl) (f : FunctionDecl) :
    ∃ head signature table inner globals fs,
      Yields (upToBody before f) {} (head, signature) ⟨table, inner, [globals]⟩ fs ∧
      VisitSteps {} (before.flatMap Decl.visits ++ f.opening) (head.flatMap Decl.visits ++ signature.opening)
        ⟨table, inner, [globals]⟩ fs ∧
      head.map (Decl.relabel .bare) = before.map (Decl.relabel .bare) ∧
      signature.relabel .bare = f.relabel .bare := by
  obtain ⟨head, S₁, fs₁, hy₁, hhead, hout₁, hb₁⟩ := follows_decls before {} ScopeStack.sound_empty
  have hS₁ := hhead.sound ScopeStack.sound_empty
  obtain ⟨result, fs₂, hy₂, hresult⟩ := yields_resultType hS₁ f.result
  obtain ⟨name, S₂, fs₃, hy₃, hname⟩ := yields_functionName S₁ f
  obtain ⟨formals, S₃, fs₄, hy₄, hformals⟩ := yields_bindings f.formals (hname.sound hS₁).enter
  obtain ⟨table, inner, outer⟩ := S₃
  obtain rfl : outer = [S₂.innermost] := by
    have hout : outer = S₂.innermost :: S₂.outer := hformals.outer
    rw [hout, hname.outer, hout₁]
  have htypes : TypeName.ofRef result = TypeName.ofRef f.result :=
    TypeName.ofRef_of_bare (Item.result.inj hresult.bare)
  have hparams : formals.map (fun formal => TypeName.ofRef formal.type) =
      f.formals.map fun formal => TypeName.ofRef formal.type := Binding.types_of_bare hformals.bare
  refine ⟨head, { f with result, name, formals }, table, inner, S₂.innermost, fs₁ ++ (fs₂ ++ (fs₃ ++ fs₄)), ?_, ?_,
    hb₁, ?_⟩
  · refine (yields_depth {}).andThen <| hy₁.bind <| hy₂.bind <| hy₃.bind ?_
    exact (yields_enter S₂).andThen <| hy₄.thenQuiet (.pure _ _)
  · have hopening := Thread.cons (.item hresult) (.cons (.item hname) (.cons .enter hformals.steps))
    simp only [FunctionDecl.opening, FunctionDecl.item, htypes, hparams]
    exact hhead.append hopening
  · have hbare : result.relabel .bare = f.result.relabel .bare := Item.result.inj hresult.bare
    have hident : name.relabel .bare = f.name.relabel .bare := (Item.function.inj hname.bare).1
    simp only [FunctionDecl.relabel, hbare, hident, hformals.bare]

/-! ## Behind a body -/

/-- What is outside a body: the declarations in front of it, the opening of the function, the state in front of
the body; and, as if nothing were declared in it, the declarations behind and what is found in them. -/
structure Outside where
  head : List Decl
  signature : FunctionDecl
  inFront : Resolver
  tail : List Decl
  findings : List (Finding NameIssue)
  texts : List String

/-- How many symbols there are in front of the body. -/
def Outside.size (o : Outside) : Nat := o.inFront.scopes.table.size

/-- The analysis `a` is the outside around a body that has become `body`, with the state `r` behind it. Nothing is
found outside but what is found in any case, and the symbols declared behind the body are numbered higher by as
many as the body has declared; `texts` is what the declarations outside read next to the table. -/
structure Analysis.Around (a : Analysis) (o : Outside) (body : Block) (r : Resolver) : Prop where
  findings : ∃ inside, r.findings = o.inFront.findings ++ inside ∧
    a.findings = o.inFront.findings ++ inside ++ o.findings
  decls : a.program.decls = o.head ++ .function { o.signature with body } ::
    o.tail.map (Decl.relabel (.shift o.size (r.scopes.table.size - o.size)))
  texts : (o.head ++ o.tail.map (Decl.relabel (.shift o.size (r.scopes.table.size - o.size)))).map
    (fun d => Program.printAnnotated a.table ⟨[d]⟩) = o.texts

/-- Declarations behind a body are walked over as if the body declared nothing, with their symbols shifted. -/
theorem Resolve.decls_behind {after : List Decl} (hafter : ∀ v ∈ after.flatMap Decl.visits, ∀ o ∈ v.occurrences, o.Bare)
    {S : ScopeStack} (hS : S.Sound) : ∃ (tail : List Decl) (rest : List (Finding NameIssue)) (table : SymbolTable),
      ∀ table', S.table.Kept table' → ({ S with table := table' } : ScopeStack).Sound → ∃ tail' S',
        tail' = tail.map (Decl.relabel (.shift S.table.size (table'.size - S.table.size))) ∧
        tail'.map (Decl.relabel .bare) = after.map (Decl.relabel .bare) ∧
        VisitSteps { S with table := table' } (after.flatMap Decl.visits) (tail'.flatMap Decl.visits) S' rest ∧
        table.Alike (.shift S.table.size (table'.size - S.table.size)) S'.table := by
  obtain ⟨tail, S', rest, -, hsteps, -, hbare⟩ := follows_decls after S hS
  obtain ⟨stamps, hstamped, -, hlike⟩ := hsteps.mirrors hS
  refine ⟨tail, rest, S'.table, fun table' hk hS' => ?_⟩
  have hsame : List.Forall₂ (Visit.Alike (.shift S.table.size (table'.size - S.table.size)))
      (after.flatMap Decl.visits) (after.flatMap Decl.visits) :=
    Visit.alike (ℓ := .shift S.table.size (table'.size - S.table.size)) (g := .bare) (h := .bare) (fun e => e) rfl
      (List.forall₂_same.2 fun _ _ => rfl)
  obtain ⟨ws, T', gs, hsteps', hfound, hT', hstamped'⟩ := hlike _ { S with table := table' } _ (hS.alike hk) hsame
  obtain rfl := Likeness.eq_of_findings id hfound
  -- the walk from the longer table is the alike walk, so it leaves the shifted tree
  obtain ⟨tail', T, gs', -, hsteps'', -, hbare'⟩ := follows_decls after { S with table := table' } hS'
  obtain ⟨rfl, rfl, rfl⟩ := hsteps'.unique hsteps''
  have hshift : (⟨tail'⟩ : Program) = (⟨tail⟩ : Program).relabel (.shift S.table.size (table'.size - S.table.size)) := by
    refine Program.eq_relabel_shift (congrArg Program.mk (hbare'.trans hbare.symm)) (hstamped.shift hstamped' ?_)
    intro o ho
    obtain ⟨v, hv, ho⟩ := List.mem_flatMap.1 ho
    exact hafter v hv o ho
  exact ⟨tail', T', Program.mk.inj hshift, hbare', hsteps', hT'.table⟩

/-! ## Around a body -/

/-- What has symbols of a table only stays as it is if symbols behind that table are shifted. -/
theorem Program.relabel_shift_of_sound {p : Program} {table : SymbolTable} (h : ∀ o ∈ p.occurrences, o.Sound table)
    (k : Nat) : p.relabel (.shift table.size k) = p := by
  refine (Program.eq_relabel_shift rfl ?_).symm
  refine ((List.map_inj_left.2 fun o ho => ?_).trans p.occurrences.map_id).symm
  exact (h o ho).relabel_shift

/-- Declarations with shifted symbols read the same, each by itself. -/
theorem SymbolTable.Alike.texts {n k : Nat} {table table' : SymbolTable} (h : table.Alike (.shift n k) table')
    (ds : List Decl) : (ds.map (Decl.relabel (.shift n k))).map (fun d => Program.printAnnotated table' ⟨[d]⟩) =
      ds.map fun d => Program.printAnnotated table ⟨[d]⟩ := by
  rw [List.map_map]
  exact List.map_inj_left.2 fun d _ => h.printAnnotated ⟨[d]⟩

/-- Declarations with symbols of a table, and others whose symbols behind that table are shifted, read the same. -/
theorem SymbolTable.Alike.texts_around {table table₀ table' : SymbolTable} {k : Nat}
    (h : table₀.Alike (.shift table.size k) table') {head tail : List Decl}
    (hhead : ∀ o ∈ (⟨head⟩ : Program).occurrences, o.Sound table) :
    (head ++ tail.map (Decl.relabel (.shift table.size k))).map (fun d => Program.printAnnotated table' ⟨[d]⟩) =
      (head ++ tail).map fun d => Program.printAnnotated table₀ ⟨[d]⟩ := by
  have hshift := Program.mk.inj (Program.relabel_shift_of_sound hhead k)
  have htexts := h.texts (head ++ tail)
  rwa [List.map_append, hshift] at htexts

theorem Decl.visits_around (before after : List Decl) (f : FunctionDecl) :
    (before ++ .function f :: after).flatMap visits =
      before.flatMap visits ++ f.opening ++ (f.body.visits ++ [.leave] ++ after.flatMap visits) := by
  simp [f.visits_eq]

theorem Decl.bare_around {before after before' after' : List Decl} {f f' : FunctionDecl} {body body' : Block}
    (hbefore : before'.map (relabel .bare) = before.map (relabel .bare)) (hf : f'.relabel .bare = f.relabel .bare)
    (hbody : body'.relabel .bare = body.relabel .bare)
    (hafter : after'.map (relabel .bare) = after.map (relabel .bare)) :
    (before' ++ .function { f' with body := body' } :: after').map (relabel .bare) =
      (before ++ .function { f with body } :: after).map (relabel .bare) := by
  obtain ⟨hresult, hname, hformals, -, hspan⟩ := FunctionDecl.mk.inj hf
  simp only [List.map_append, List.map_cons, hbefore, hafter, relabel, FunctionDecl.relabel, hresult, hname,
    hformals, hbody, hspan]

/-! ## Two bodies -/

/-- What is outside a body does not depend on the body. -/
theorem analyze_around {before after : List Decl} {f : FunctionDecl}
    (hbare : (⟨before ++ .function f :: after⟩ : Program).bare = ⟨before ++ .function f :: after⟩) :
    ∃ o : Outside, (Resolve.upToBody before f).run {} = .ok ((o.head, o.signature), o.inFront) ∧
      ∀ body, ∃ a body' r, analyze ⟨before ++ .function { f with body } :: after⟩ = .ok a ∧
        (Resolve.contents body).run o.inFront = .ok (body', r) ∧ a.Around o body' r := by
  have hclean := Program.bare_occurrences hbare
  rw [Program.visits, Decl.visits_around] at hclean
  obtain ⟨hopening, hclean⟩ := List.forall_mem_append.1 hclean
  obtain ⟨-, hafter⟩ := List.forall_mem_append.1 hclean
  obtain ⟨head, signature, table, inner, globals, fs, hy, hfront, hhead, hsignature⟩ := Resolve.yields_upToBody before f
  have hS := hfront.sound ScopeStack.sound_empty
  have hheadSound (o : Occurrence) (ho : o ∈ (⟨head⟩ : Program).occurrences) : o.Sound table := by
    obtain ⟨v, hv, ho⟩ := List.mem_flatMap.1 ho
    exact hfront.occurrences ScopeStack.sound_empty hopening v (List.mem_append_left _ hv) o ho
  -- the walk behind a body that is empty, which the others are compared with
  have hleave : VisitStep ⟨table, inner, [globals]⟩ .leave .leave ⟨table, globals, []⟩ [] := .leave
  obtain ⟨tail, rest, table₀, hbehind⟩ := Resolve.decls_behind hafter (hleave.sound hS)
  obtain ⟨events, hrun⟩ := hy [] []
  refine ⟨⟨head, signature, _, tail, rest, (head ++ tail).map fun d => Program.printAnnotated table₀ ⟨[d]⟩⟩, hrun,
    fun body => ?_⟩
  obtain ⟨body', ⟨table', inner', outer'⟩, vs, inside, hybody, hbody, hout, rfl, hbareBody⟩ :=
    Resolve.follows_contents body _ hS
  obtain rfl : outer' = [globals] := hout
  have hleave' : VisitStep ⟨table', inner', [globals]⟩ .leave .leave ⟨table', globals, []⟩ [] := .leave
  obtain ⟨tail', S', htail', hbareTail, hrest, htable⟩ := hbehind table' hbody.kept (hleave'.sound (hbody.sound hS))
  obtain ⟨a, S'', ha, hatable, hsteps, hshape⟩ := analyze_steps ⟨before ++ .function { f with body } :: after⟩
  -- the walk over the whole program is made of the walks over its parts
  have hparts := hfront.append ((hbody.append (.single hleave')).append hrest)
  rw [Program.visits, Decl.visits_around] at hsteps
  obtain ⟨hprogram, rfl, hfindings⟩ := hsteps.unique hparts
  obtain ⟨more, hrunBody⟩ := hybody ([] ++ fs) ([] ++ events)
  have hdecls : a.program.decls = head ++ .function { signature with body := body' } :: tail' := by
    refine Decl.eq_of_visits ?_ ?_
    · exact (Program.mk.inj hshape).trans (Decl.bare_around hhead hsignature hbareBody hbareTail).symm
    · rw [Decl.visits_around]
      exact hprogram
  refine ⟨a, body', _, ha, hrunBody, ⟨⟨inside, rfl, ?_⟩, htail' ▸ hdecls, ?_⟩⟩
  · rw [hfindings]
    simp
  · rw [hatable]
    exact htable.texts_around hheadSound

/-- Two programs that differ in the body of one function only have the same outside: the declarations and the
opening of the function in front of that body come out as they are, and with the same findings; and the
declarations behind it come out with the same findings, with their symbols numbered higher by as many as the
body has declared, and read the same. Only the one program has to be without annotations; in the body of the
other there may be some. -/
theorem bodies_apart {before after : List Decl} {f : FunctionDecl} {body : Block}
    (hbare : (⟨before ++ .function f :: after⟩ : Program).bare = ⟨before ++ .function f :: after⟩) :
    ∃ (o : Outside) (a b : Analysis) (inner inner' : Block) (r r' : Resolver),
      analyze ⟨before ++ .function f :: after⟩ = .ok a ∧
      analyze ⟨before ++ .function { f with body } :: after⟩ = .ok b ∧
      (Resolve.upToBody before f).run {} = .ok ((o.head, o.signature), o.inFront) ∧
      (Resolve.contents f.body).run o.inFront = .ok (inner, r) ∧ a.Around o inner r ∧
      (Resolve.contents body).run o.inFront = .ok (inner', r') ∧ b.Around o inner' r' := by
  obtain ⟨o, hfront, hbodies⟩ := analyze_around hbare
  obtain ⟨a, inner, r, ha, hr, haround⟩ := hbodies f.body
  obtain ⟨b, inner', r', hb, hr', haround'⟩ := hbodies body
  exact ⟨o, a, b, inner, inner', r, r', ha, hb, hfront, hr, haround, hr', haround'⟩

/-- The program `void f() { int b; } int c;`, and the same program with an empty body. -/
theorem local_variable_apart :
    let binding (name : String) : Binding := ⟨⟨.int, {}⟩, ⟨name, {}, none⟩, {}⟩
    let f : FunctionDecl := ⟨⟨.void, {}⟩, ⟨"f", {}, none⟩, [], .mk [binding "b"] [] {}, {}⟩
    let p : Program := ⟨[.function f, .variable (binding "c")]⟩
    let q : Program := ⟨[.function { f with body := .mk [] [] {} }, .variable (binding "c")]⟩
    p.bare = p ∧ ∃ (o : Outside) (a b : Analysis) (inner inner' : Block) (r r' : Resolver),
      analyze p = .ok a ∧ analyze q = .ok b ∧ a.Around o inner r ∧ b.Around o inner' r' ∧
      a.table.symbols.map Symbol.name = ["f", "b", "c"] ∧ b.table.symbols.map Symbol.name = ["f", "c"] := by
  intro binding f p q
  obtain ⟨o, a, b, inner, inner', r, r', ha, hb, -, -, haround, -, haround'⟩ :=
    @bodies_apart [] [.variable (binding "c")] f (.mk [] [] {}) rfl
  have hrun : (analyze p).toOption.map (·.table.symbols.map Symbol.name) = some ["f", "b", "c"] := by decide +kernel
  have hrun' : (analyze q).toOption.map (·.table.symbols.map Symbol.name) = some ["f", "c"] := by decide +kernel
  rw [show analyze p = .ok a from ha] at hrun
  rw [show analyze q = .ok b from hb] at hrun'
  exact ⟨rfl, o, a, b, inner, inner', r, r', ha, hb, haround, haround', Option.some.inj hrun, Option.some.inj hrun'⟩

end Namescope
