import Namescope.Proofs.Reading.Extents
/-!
# The regions of a tree

A tree as nothing but spans: that of each part, and those of the parts it has. If every part lies over its
tokens, each part lies within the one it is a part of, and parts of one part come one after the other.
-/
namespace Namescope

/-- A span and the regions of the parts in it. -/
inductive Region where
  | mk (span : Span) (parts : List Region)

namespace Region

/-- Where the whole region is. -/
def span : Region → Span
  | mk span _ => span

/-- The regions in it. -/
def parts : Region → List Region
  | mk _ parts => parts

/-- All of `r` is within `span`. -/
def Within (span : Span) (r : Region) : Prop := span.start ≤ r.span.start ∧ r.span.stop ≤ span.stop

/-- `r` stops before `r'` starts. -/
def Before (r r' : Region) : Prop := r.span.stop ≤ r'.span.start

/-- Parts are within the region they are parts of, apart from each other and in order, all the way down. -/
inductive Nested : Region → Prop
  | mk {span parts} : (∀ r ∈ parts, Nested r) → (∀ r ∈ parts, Within span r) → parts.Pairwise Before →
      Nested (.mk span parts)

/-! ## Regions over tokens -/

mutual

/-- A region goes over tokens, and its parts go over some of them. -/
inductive Over : List Token → Region → Prop
  | mk {ts span parts} : ts ≠ [] → span = Token.extent ts → PartsOver ts parts → Over ts (.mk span parts)

/-- Parts go over tokens one after the other; what is between them belongs to none of them. -/
inductive PartsOver : List Token → List Region → Prop
  | nil : PartsOver [] []
  | skip {ts parts} (t : Token) : PartsOver ts parts → PartsOver (t :: ts) parts
  | part {ts r us parts} : Over ts r → PartsOver us parts → PartsOver (ts ++ us) (r :: parts)

end

theorem Over.parts {ts : List Token} {r : Region} (h : Over ts r) : PartsOver ts r.parts := by
  cases h with
  | mk _ _ hparts => exact hparts

namespace PartsOver
variable {ts us : List Token} {r : Region} {parts others : List Region}

theorem append {ts us : List Token} {parts others : List Region} :
    PartsOver ts parts → PartsOver us others → PartsOver (ts ++ us) (parts ++ others)
  | .nil, h' => h'
  | .skip t h, h' => .skip t (h.append h')
  | .part hr h, h' => by
    rw [List.append_assoc]
    exact .part hr (h.append h')

theorem none : ∀ ts : List Token, PartsOver ts []
  | [] => .nil
  | t :: ts => .skip t (none ts)

/-- What comes behind the last part belongs to none. -/
theorem close (h : PartsOver ts parts) (us : List Token) : PartsOver (ts ++ us) parts := by
  have hall := h.append (none us)
  rwa [List.append_nil] at hall

theorem single (h : Over ts r) : PartsOver ts [r] := by
  have hpart := PartsOver.part h .nil
  rwa [List.append_nil] at hpart

end PartsOver

/-! ## Regions over tokens are nested -/

/-- Some of the tokens in a list are within its extent. -/
theorem within_of_sublist {ts us : List Token} (h : Token.Ordered ts) (hus : us.Sublist ts) (hne : us ≠ [])
    {r : Region} (hr : r.span = Token.extent us) : r.Within (Token.extent ts) := by
  obtain ⟨u, us, rfl⟩ := List.exists_cons_of_ne_nil hne
  have hfirst := h.extent_bounds (hus.subset List.mem_cons_self)
  have hlast := h.extent_bounds (hus.subset (Token.getLast?_getD_mem u us))
  rw [Within, hr]
  exact ⟨hfirst.1, hlast.2⟩

mutual

theorem Over.nested {ts : List Token} {r : Region} : Over ts r → Token.Ordered ts →
    r.Nested ∧ ts ≠ [] ∧ r.span = Token.extent ts
  | .mk hne hspan hparts, hts => by
    obtain ⟨hnested, hplaces, hpairs⟩ := hparts.nested hts
    refine ⟨.mk hnested ?_ hpairs, hne, hspan⟩
    intro r hr
    obtain ⟨us, hus, husne, hrspan⟩ := hplaces r hr
    rw [hspan]
    exact within_of_sublist hts hus husne hrspan

theorem PartsOver.nested {ts : List Token} {parts : List Region} : PartsOver ts parts → Token.Ordered ts →
    (∀ r ∈ parts, r.Nested) ∧ (∀ r ∈ parts, ∃ us, us.Sublist ts ∧ us ≠ [] ∧ r.span = Token.extent us) ∧
      parts.Pairwise Before
  | .nil, _ => ⟨nofun, nofun, .nil⟩
  | .skip t h, hts => by
    obtain ⟨hnested, hplaces, hpairs⟩ := h.nested (hts.sublist (List.sublist_cons_self ..))
    refine ⟨hnested, fun r hr => ?_, hpairs⟩
    obtain ⟨us, hus, hrest⟩ := hplaces r hr
    exact ⟨us, hus.cons t, hrest⟩
  | @PartsOver.part ts r us parts h hmore, hall => by
    obtain ⟨hts, hus, -⟩ := Token.ordered_append.1 hall
    obtain ⟨hr, hne, hrspan⟩ := h.nested hts
    obtain ⟨hnested, hplaces, hpairs⟩ := hmore.nested hus
    refine ⟨List.forall_mem_cons.2 ⟨hr, hnested⟩, List.forall_mem_cons.2 ⟨?_, fun q hq => ?_⟩, ?_⟩
    · exact ⟨ts, List.sublist_append_left .., hne, hrspan⟩
    · obtain ⟨vs, hvs, hrest⟩ := hplaces q hq
      exact ⟨vs, hvs.trans (List.sublist_append_right ..), hrest⟩
    · refine List.pairwise_cons.2 ⟨fun q hq => ?_, hpairs⟩
      obtain ⟨vs, hvs, hvsne, hqspan⟩ := hplaces q hq
      have hboth := hall.sublist (List.Sublist.append (List.Sublist.refl ts) hvs)
      rw [Before, hrspan, hqspan]
      exact hboth.extents_apart hne hvsne

end

end Region

/-! ## The regions of expressions -/

/-- A name has no parts. -/
def Ident.region (ident : Ident) : Region := .mk ident.span []

/-- The parts of a field access are what is accessed and the name of the field. -/
def Location.region : Location → Region
  | name ident => ident.region
  | field base ident resolved => .mk (field base ident resolved).span [base.region, ident.region]

mutual

/-- The region of an expression and those of its operands or arguments. -/
def Expr.region : Expr → Region
  | .literal _ span => .mk span []
  | .place location span => .mk span [location.region]
  | .assign target value span => .mk span [target.region, value.region]
  | .call callee args span => .mk span (callee.region :: Expr.regions args)
  | .unary _ operand span => .mk span [operand.region]
  | .binary _ left right span => .mk span [left.region, right.region]

/-- The regions of expressions. -/
def Expr.regions : List Expr → List Region
  | [] => []
  | first :: more => first.region :: Expr.regions more

end

theorem Ident.region_over (ident : Ident) : ident.region.Over [ident.asToken] :=
  .mk (List.cons_ne_nil _ _) rfl (.skip _ .nil)

theorem Location.LiesOver.region {ts : List Token} {location : Location} (h : location.LiesOver ts) :
    location.region.Over ts := by
  induction h with
  | name ident => exact ident.region_over
  | @field all ts base dot ident resolved hall hbase hspan ih =>
    refine .mk (Location.LiesOver.field dot ident resolved hall hbase hspan).ne_nil hspan ?_
    rw [hall]
    exact .part ih (.skip _ (.single ident.region_over))

theorem Expr.region_withSpan (e : Expr) (span : Span) : (e.withSpan span).region = .mk span e.region.parts := by
  cases e <;> rfl

mutual

theorem Expr.LiesOver.region {ts : List Token} {e : Expr} : e.LiesOver ts → e.region.Over ts
  | .literal value span => .mk (List.cons_ne_nil _ _) rfl (.skip _ .nil)
  | .place h => .mk h.ne_nil rfl (.single h.region)
  | .parens opening closing hall h => by
    subst hall
    rw [Expr.region_withSpan]
    exact .mk (List.cons_ne_nil _ _) rfl (.skip _ (h.region.parts.close _))
  | .assign sign hall htarget hvalue => by
    subst hall
    exact .mk (List.append_ne_nil_of_left_ne_nil htarget.ne_nil _) rfl
      (.part htarget.region (.skip _ (.single hvalue.region)))
  | .call callee opening closing hall hargs => by
    subst hall
    exact .mk (List.cons_ne_nil _ _) rfl (.part callee.region_over (.skip _ (hargs.regions.close _)))
  | .unary op sign hall h => by
    subst hall
    exact .mk (List.cons_ne_nil _ _) rfl (.skip _ (.single h.region))
  | .binary op sign hall hleft hright => by
    subst hall
    exact .mk (List.append_ne_nil_of_left_ne_nil hleft.ne_nil _) rfl
      (.part hleft.region (.skip _ (.single hright.region)))

theorem Expr.ArgsOver.regions {ts : List Token} {es : List Expr} :
    Expr.ArgsOver ts es → Region.PartsOver ts (Expr.regions es)
  | .none => .nil
  | .some h => h.regions

theorem Expr.ListOver.regions {ts : List Token} {es : List Expr} :
    Expr.ListOver ts es → Region.PartsOver ts (Expr.regions es)
  | .last h => .single h.region
  | .cons comma h hmore => .part h.region (.skip _ hmore.regions)

end

/-! ## The regions of types and variables -/

/-- The name of a struct type is its part. -/
def TypeRef.region (type : TypeRef) : Region :=
  .mk type.span <| match type.kind with
    | .struct name => [name.region]
    | _ => []

/-- The parts of a variable are its type and its name. -/
def Binding.region (binding : Binding) : Region := .mk binding.span [binding.type.region, binding.name.region]

theorem TypeRef.LiesOver.region {ts : List Token} {type : TypeRef} (h : type.LiesOver ts) :
    type.region.Over ts := by
  cases h with
  | int | bool | void => exact .mk (List.cons_ne_nil _ _) rfl (.skip _ .nil)
  | struct word name => exact .mk (List.cons_ne_nil _ _) rfl (.skip _ (.single name.region_over))

theorem Binding.FormalOver.region {ts : List Token} {b : Binding} (h : b.FormalOver ts) : b.region.Over ts := by
  obtain ⟨name, rfl, htype⟩ := h
  exact .mk (List.append_ne_nil_of_right_ne_nil _ (List.cons_ne_nil _ _)) rfl
    (.part htype.region (.single name.region_over))

theorem Binding.VariableOver.region {ts : List Token} {b : Binding} (h : b.VariableOver ts) : b.region.Over ts := by
  obtain ⟨name, semicolon, rfl, htype⟩ := h
  exact .mk (List.append_ne_nil_of_right_ne_nil _ (List.cons_ne_nil _ _)) rfl
    (.part htype.region (.part name.region_over (.skip _ .nil)))

/-- If each thing goes over its tokens, all of them go over all of their tokens. -/
theorem AllOver.regions {α : Type} {lies : List Token → α → Prop} {region : α → Region}
    (hregion : ∀ ts a, lies ts a → (region a).Over ts) {ts : List Token} {as : List α} (h : AllOver lies ts as) :
    Region.PartsOver ts (as.map region) := by
  induction h with
  | nil => exact .nil
  | cons h _ ih => exact .part (hregion _ _ h) ih

theorem Binding.region_of_variables {ts : List Token} {bs : List Binding} (h : AllOver Binding.VariableOver ts bs) :
    Region.PartsOver ts (bs.map Binding.region) := h.regions fun _ _ h => h.region

theorem Binding.FormalsOver.regions {ts : List Token} {bs : List Binding} (h : Binding.FormalsOver ts bs) :
    Region.PartsOver ts (bs.map Binding.region) := by
  induction h with
  | last h => exact .single h.region
  | cons comma h _ ih => exact .part h.region (.skip _ ih)

theorem Binding.SignatureOver.regions {ts : List Token} {bs : List Binding} (h : Binding.SignatureOver ts bs) :
    Region.PartsOver ts (bs.map Binding.region) := by
  cases h with
  | none => exact .nil
  | some h => exact h.regions

/-! ## The regions of statements -/

mutual

/-- The region of a block and those of its variables and statements. -/
def Block.region : Block → Region
  | .mk locals body span => .mk span (locals.map Binding.region ++ Stmt.regions body)

/-- The region of a statement and those of what stands in it. -/
def Stmt.region : Stmt → Region
  | .assign target value span => .mk span [target.region, value.region]
  | .increment target span | .decrement target span | .read target span => .mk span [target.region]
  | .write value span => .mk span [value.region]
  | .ifThen cond yes span => .mk span [cond.region, yes.region]
  | .ifElse cond yes no span => .mk span [cond.region, yes.region, no.region]
  | .whileLoop cond body span | .repeatLoop cond body span => .mk span [cond.region, body.region]
  | .call callee args span => .mk span (callee.region :: Expr.regions args)
  | .ret none span => .mk span []
  | .ret (some value) span => .mk span [value.region]

/-- The regions of statements. -/
def Stmt.regions : List Stmt → List Region
  | [] => []
  | first :: more => first.region :: Stmt.regions more

end

theorem Expr.ConditionOver.region {ts : List Token} {e : Expr} (h : e.ConditionOver ts) :
    Region.PartsOver ts [e.region] := by
  obtain ⟨opening, closing, h⟩ := h
  exact .skip _ ((Region.PartsOver.single h.region).close _)

/-- A simple statement is where its span is put, and its parts are over its tokens. -/
theorem Stmt.SimpleOver.region {ts : List Token} {statement : Span → Stmt} (h : Stmt.SimpleOver ts statement)
    (span : Span) : ∃ parts, (statement span).region = .mk span parts ∧ Region.PartsOver ts parts := by
  cases h with
  | assign sign htarget hvalue => exact ⟨_, rfl, .part htarget.region (.skip _ (.single hvalue.region))⟩
  | increment sign h | decrement sign h => exact ⟨_, rfl, .part h.region (.skip _ .nil)⟩
  | read word arrow h | write word arrow h => exact ⟨_, rfl, .skip _ (.skip _ (.single h.region))⟩
  | call callee opening closing h => exact ⟨_, rfl, .part callee.region_over (.skip _ (h.regions.close _))⟩
  | ret word => exact ⟨_, rfl, .skip _ .nil⟩
  | retValue word h => exact ⟨_, rfl, .skip _ (.single h.region)⟩

mutual

theorem Block.LiesOver.region {ts : List Token} {b : Block} : b.LiesOver ts → b.region.Over ts
  | .mk opening closing hall hlocals hbody => by
    subst hall
    have hparts := (Binding.region_of_variables hlocals).append hbody.regions
    exact .mk (List.cons_ne_nil _ _) rfl (.skip _ (hparts.close _))

theorem Stmt.ListOver.regions {ts : List Token} {body : List Stmt} :
    Stmt.ListOver ts body → Region.PartsOver ts (Stmt.regions body)
  | .nil => .nil
  | .cons h hmore => .part h.region hmore.regions

theorem Stmt.LiesOver.region {ts : List Token} {s : Stmt} : s.LiesOver ts → s.region.Over ts
  | .simple semicolon hall h hs => by
    subst hall hs
    obtain ⟨parts, hregion, hparts⟩ := h.region (Token.extent _)
    rw [hregion]
    exact .mk (List.append_ne_nil_of_right_ne_nil _ (List.cons_ne_nil _ _)) rfl (hparts.close _)
  | .ifThen word hall hcond hyes => by
    subst hall
    exact .mk (List.cons_ne_nil _ _) rfl (.skip _ (hcond.region.append (.single hyes.region)))
  | .ifElse word other hall hcond hyes hno => by
    subst hall
    have hparts := (hcond.region.append (.single hyes.region)).append (.skip ⟨.keyword .elseWord, other⟩ (.single hno.region))
    exact .mk (List.cons_ne_nil _ _) rfl (.skip _ hparts)
  | .whileLoop word hall hcond hbody => by
    subst hall
    exact .mk (List.cons_ne_nil _ _) rfl (.skip _ (hcond.region.append (.single hbody.region)))
  | .repeatLoop word hall hcond hbody => by
    subst hall
    exact .mk (List.cons_ne_nil _ _) rfl (.skip _ (hcond.region.append (.single hbody.region)))

end

/-! ## The regions of declarations -/

/-- The region of a declaration and those of what it declares. -/
def Decl.region : Decl → Region
  | .variable binding => binding.region
  | .function d =>
    .mk d.span (d.result.region :: d.name.region :: (d.formals.map Binding.region ++ [d.body.region]))
  | .struct d => .mk d.span (d.name.region :: d.fields.map Binding.region)

theorem Decl.LiesOver.region {ts : List Token} {d : Decl} (h : d.LiesOver ts) : d.region.Over ts := by
  cases h with
  | «variable» h => exact h.region
  | function name opening closing hall hresult hformals hbody =>
    subst hall
    have hrest := hformals.regions.append (.skip ⟨.mark .rparen, closing⟩ (.single hbody.region))
    exact .mk (List.append_ne_nil_of_right_ne_nil _ (List.cons_ne_nil _ _)) rfl
      (.part hresult.region (.part name.region_over (.skip ⟨.mark .lparen, opening⟩ hrest)))
  | struct word name opening closing semicolon hall hfields =>
    subst hall
    have hparts := (Binding.region_of_variables hfields).close [⟨.mark .rbrace, closing⟩, ⟨.mark .semicolon, semicolon⟩]
    exact .mk (List.cons_ne_nil _ _) rfl (.skip _ (.part name.region_over (.skip _ hparts)))

end Namescope
