import Namescope.Proofs.Reading.Paths
/-!
# Trees at their places

The grammar over tokens at their places: which tokens a tree is written with, where the span of each of its
parts goes from the first token of the part to the last. Precedence is left to the grammar of kinds; here
the tree is given.
-/
namespace Namescope

/-! ## From the first token to the last -/

namespace Token

/-- From the start of the first token to the end of the last, at the line and column of the first. -/
def extent : List Token → Span
  | [] => {}
  | t :: ts => { t.span with stop := (ts.getLast?.getD t).span.stop }

theorem getLast?_getD_mem (t : Token) (ts : List Token) : ts.getLast?.getD t ∈ t :: ts :=
  List.mem_of_getLast? List.getLast?_cons

/-- Only the last tokens matter for the end. -/
theorem stop_extent_append (ts : List Token) {us : List Token} (hus : us ≠ []) :
    (extent (ts ++ us)).stop = (extent us).stop := by
  obtain ⟨u, us, rfl⟩ := List.exists_cons_of_ne_nil hus
  cases ts with
  | nil => rfl
  | cons t ts =>
    show ((ts ++ u :: us).getLast?.getD t).span.stop = _
    rw [List.getLast?_append, List.getLast?_cons]
    rfl

theorem extent_append {ts us : List Token} (hts : ts ≠ []) (hus : us ≠ []) :
    extent (ts ++ us) = { extent ts with stop := (extent us).stop } := by
  obtain ⟨t, ts, rfl⟩ := List.exists_cons_of_ne_nil hts
  rw [← stop_extent_append (t :: ts) hus]
  rfl

namespace Ordered

/-- The first token starts and ends before all others. -/
theorem head_le {t u : Token} {ts : List Token} (h : Ordered (t :: ts)) (hu : u ∈ t :: ts) :
    t.span.start ≤ u.span.start ∧ t.span.stop ≤ u.span.stop := by
  rcases List.mem_cons.1 hu with rfl | hmem
  · exact ⟨Nat.le_refl _, Nat.le_refl _⟩
  · have hapart := (List.pairwise_cons.1 h.apart).1 u hmem
    have ht := h.upright t List.mem_cons_self
    have hu := h.upright u hu
    omega

theorem extent_upright {ts : List Token} (h : Ordered ts) : (extent ts).start ≤ (extent ts).stop := by
  cases ts with
  | nil => exact Nat.le_refl _
  | cons t ts =>
    have hlast := getLast?_getD_mem t ts
    exact Nat.le_trans (h.upright t List.mem_cons_self) (h.head_le hlast).2

theorem sublist {ts us : List Token} (h : Ordered ts) (hus : us.Sublist ts) : Ordered us :=
  ⟨h.apart.sublist hus, fun t ht => h.upright t (hus.subset ht)⟩

/-- No token starts before the first or stops behind the last. -/
theorem extent_bounds {ts : List Token} (h : Ordered ts) {u : Token} (hu : u ∈ ts) :
    (extent ts).start ≤ u.span.start ∧ u.span.stop ≤ (extent ts).stop := by
  obtain ⟨before, after, rfl⟩ := List.append_of_mem hu
  have hfrom : Ordered (u :: after) := h.sublist (List.sublist_append_right ..)
  refine ⟨?_, ?_⟩
  · cases before with
    | nil => exact Nat.le_refl _
    | cons t before => exact (h.head_le hu).1
  · rw [stop_extent_append before (List.cons_ne_nil _ _)]
    exact (hfrom.head_le (getLast?_getD_mem u after)).2

/-- What comes first stops before the rest starts. -/
theorem extents_apart {ts us : List Token} (h : Ordered (ts ++ us)) (hts : ts ≠ []) (hus : us ≠ []) :
    (extent ts).stop ≤ (extent us).start := by
  obtain ⟨t, ts, rfl⟩ := List.exists_cons_of_ne_nil hts
  obtain ⟨u, us, rfl⟩ := List.exists_cons_of_ne_nil hus
  exact (ordered_append.1 h).2.2 _ (getLast?_getD_mem t ts) u List.mem_cons_self

/-- A first and a last part together go from the first token to the last. -/
theorem merge_extents {ts us : List Token} (mid : List Token) (h : Ordered (ts ++ (mid ++ us))) (hts : ts ≠ [])
    (hus : us ≠ []) : (extent ts).merge (extent us) = extent (ts ++ (mid ++ us)) := by
  obtain ⟨hts', hrest, hcross⟩ := ordered_append.1 h
  have hus' := (ordered_append.1 hrest).2.1
  have houter : Ordered (ts ++ us) :=
    ordered_append.2 ⟨hts', hus', fun t ht u hu => hcross t ht u (List.mem_append_right _ hu)⟩
  have hapart := houter.extents_apart hts hus
  have hfirst := hts'.extent_upright
  have hlast := hus'.extent_upright
  rw [extent_append hts (List.append_ne_nil_of_right_ne_nil mid hus), stop_extent_append mid hus, Span.merge,
    Nat.min_eq_left (by omega), Nat.max_eq_right (by omega)]

end Ordered

end Token

/-- From the token that was next to the one taken last, a path goes over the extent of its tokens. -/
theorem Cursor.Goes.merge_lastSpan {c d : Cursor} {ts : List Token} (h : c.Goes ts d) (hts : Token.Ordered ts)
    (hne : ts ≠ []) {start : Span} (hstart : c.here = start) : start.merge d.lastSpan = Token.extent ts := by
  obtain ⟨t, ts, rfl⟩ := List.exists_cons_of_ne_nil hne
  have hlast : d.lastSpan = (ts.getLast?.getD t).span := by
    rw [lastSpan, h.last, List.getLast?_cons]
    rfl
  have hle := hts.head_le (Token.getLast?_getD_mem t ts)
  rw [← hstart, h.here_eq, hlast, Span.merge, Nat.min_eq_left hle.1, Nat.max_eq_right hle.2]
  rfl

/-! ## Expressions at their places -/

/-- A name and the fields after it. A location keeps no span; the one it is given is that of its tokens. -/
inductive Location.LiesOver : List Token → Location → Prop
  | name (ident : Ident) : LiesOver [ident.asToken] (.name ident)
  | field {all ts base} (dot : Span) (ident : Ident) (resolved : Option String) :
      all = ts ++ [⟨.mark .dot, dot⟩, ident.asToken] → LiesOver ts base →
        (Location.field base ident resolved).span = Token.extent all → LiesOver all (.field base ident resolved)

mutual

/-- An expression and the tokens it is written with, parentheses around it included. -/
inductive Expr.LiesOver : List Token → Expr → Prop
  | literal (value : Literal) (span : Span) : Expr.LiesOver [⟨value.token, span⟩] (.literal value span)
  | place {ts location} : location.LiesOver ts → Expr.LiesOver ts (.place location (Token.extent ts))
  | parens {all ts e} (opening closing : Span) :
      all = ⟨.mark .lparen, opening⟩ :: (ts ++ [⟨.mark .rparen, closing⟩]) → Expr.LiesOver ts e →
        Expr.LiesOver all (e.withSpan (Token.extent all))
  | assign {all ts target us value} (sign : Span) :
      all = ts ++ ⟨.mark .assign, sign⟩ :: us → Expr.LiesOver ts target → Expr.LiesOver us value →
        Expr.LiesOver all (.assign target value (Token.extent all))
  | call {all ts args} (callee : Ident) (opening closing : Span) :
      all = callee.asToken :: ⟨.mark .lparen, opening⟩ :: (ts ++ [⟨.mark .rparen, closing⟩]) →
        Expr.ArgsOver ts args → Expr.LiesOver all (.call callee args (Token.extent all))
  | unary {all ts e} (op : UnaryOp) (sign : Span) : all = ⟨.mark op.mark, sign⟩ :: ts → Expr.LiesOver ts e →
      Expr.LiesOver all (.unary op e (Token.extent all))
  | binary {all ts left us right} (op : BinaryOp) (sign : Span) :
      all = ts ++ ⟨.mark op.mark, sign⟩ :: us → Expr.LiesOver ts left → Expr.LiesOver us right →
        Expr.LiesOver all (.binary op left right (Token.extent all))

/-- The arguments of a call. -/
inductive Expr.ArgsOver : List Token → List Expr → Prop
  | none : Expr.ArgsOver [] []
  | some {ts es} : Expr.ListOver ts es → Expr.ArgsOver ts es

/-- Expressions separated by commas. -/
inductive Expr.ListOver : List Token → List Expr → Prop
  | last {ts e} : Expr.LiesOver ts e → Expr.ListOver ts [e]
  | cons {ts e us es} (comma : Span) : Expr.LiesOver ts e → Expr.ListOver us es →
      Expr.ListOver (ts ++ ⟨.mark .comma, comma⟩ :: us) (e :: es)

end

theorem Location.LiesOver.ne_nil {ts : List Token} {location : Location} (h : location.LiesOver ts) : ts ≠ [] := by
  cases h with
  | name => exact List.cons_ne_nil _ _
  | field _ _ _ hall =>
    rw [hall]
    exact List.append_ne_nil_of_right_ne_nil _ (List.cons_ne_nil _ _)

theorem Location.LiesOver.span_eq {ts : List Token} {location : Location} (h : location.LiesOver ts) :
    location.span = Token.extent ts := by
  cases h with
  | name => rfl
  | field _ _ _ _ _ hspan => exact hspan

theorem Expr.span_withSpan (e : Expr) (span : Span) : (e.withSpan span).span = span := by cases e <;> rfl

namespace Expr.LiesOver
variable {ts us : List Token} {e left right : Expr}

theorem ne_nil (h : e.LiesOver ts) : ts ≠ [] := by
  cases h with
  | literal => exact List.cons_ne_nil _ _
  | place h => exact h.ne_nil
  | parens _ _ hall | call _ _ _ hall | unary _ _ hall =>
    rw [hall]
    exact List.cons_ne_nil _ _
  | assign _ hall | binary _ _ hall =>
    rw [hall]
    exact List.append_ne_nil_of_right_ne_nil _ (List.cons_ne_nil _ _)

theorem span_eq (h : e.LiesOver ts) : e.span = Token.extent ts := by
  cases h with
  | parens => exact Expr.span_withSpan ..
  | _ => rfl

/-- Two operands and what stands between them. -/
theorem merge_spans (hleft : left.LiesOver ts) (hright : right.LiesOver us) (mid : List Token)
    (h : Token.Ordered (ts ++ (mid ++ us))) : left.span.merge right.span = Token.extent (ts ++ (mid ++ us)) := by
  rw [hleft.span_eq, hright.span_eq]
  exact h.merge_extents mid hleft.ne_nil hright.ne_nil

end Expr.LiesOver

/-! ## Types and variables at their places -/

/-- Types. -/
inductive TypeRef.LiesOver : List Token → TypeRef → Prop
  | int (span : Span) : LiesOver [⟨.keyword .int, span⟩] ⟨.int, span⟩
  | bool (span : Span) : LiesOver [⟨.keyword .bool, span⟩] ⟨.bool, span⟩
  | void (span : Span) : LiesOver [⟨.keyword .void, span⟩] ⟨.void, span⟩
  | struct (word : Span) (name : Ident) : LiesOver [⟨.keyword .struct, word⟩, name.asToken]
      ⟨.struct name, Token.extent [⟨.keyword .struct, word⟩, name.asToken]⟩

/-- A type and a name. -/
inductive Binding.FormalOver : List Token → Binding → Prop
  | mk {all ts type} (name : Ident) : all = ts ++ [name.asToken] → type.LiesOver ts →
      FormalOver all ⟨type, name, Token.extent all⟩

/-- A type, a name and a semicolon. -/
inductive Binding.VariableOver : List Token → Binding → Prop
  | mk {all ts type} (name : Ident) (semicolon : Span) :
      all = ts ++ [name.asToken, ⟨.mark .semicolon, semicolon⟩] → type.LiesOver ts →
        VariableOver all ⟨type, name, Token.extent all⟩

/-- Any number of things, one after the other. -/
inductive AllOver {α : Type} (lies : List Token → α → Prop) : List Token → List α → Prop
  | nil : AllOver lies [] []
  | cons {ts a us as} : lies ts a → AllOver lies us as → AllOver lies (ts ++ us) (a :: as)

/-- Formals separated by commas. -/
inductive Binding.FormalsOver : List Token → List Binding → Prop
  | last {ts b} : b.FormalOver ts → FormalsOver ts [b]
  | cons {ts b us bs} (comma : Span) : b.FormalOver ts → FormalsOver us bs →
      FormalsOver (ts ++ ⟨.mark .comma, comma⟩ :: us) (b :: bs)

/-- What stands between the parentheses of a function. -/
inductive Binding.SignatureOver : List Token → List Binding → Prop
  | none : SignatureOver [] []
  | some {ts bs} : FormalsOver ts bs → SignatureOver ts bs

/-! ## Statements at their places -/

/-- An expression in parentheses that are not its own. -/
inductive Expr.ConditionOver : List Token → Expr → Prop
  | mk {ts e} (opening closing : Span) : e.LiesOver ts →
      ConditionOver (⟨.mark .lparen, opening⟩ :: (ts ++ [⟨.mark .rparen, closing⟩])) e

/-- A statement that ends with a semicolon, without the semicolon; where its own span ends is left open. -/
inductive Stmt.SimpleOver : List Token → (Span → Stmt) → Prop
  | assign {ts target us value} (sign : Span) : target.LiesOver ts → value.LiesOver us →
      SimpleOver (ts ++ ⟨.mark .assign, sign⟩ :: us) (.assign target value)
  | increment {ts target} (sign : Span) : target.LiesOver ts →
      SimpleOver (ts ++ [⟨.mark .plusPlus, sign⟩]) (.increment target)
  | decrement {ts target} (sign : Span) : target.LiesOver ts →
      SimpleOver (ts ++ [⟨.mark .minusMinus, sign⟩]) (.decrement target)
  | read {ts target} (word arrow : Span) : target.LiesOver ts →
      SimpleOver (⟨.keyword .cin, word⟩ :: ⟨.mark .shiftRight, arrow⟩ :: ts) (.read target)
  | write {ts value} (word arrow : Span) : value.LiesOver ts →
      SimpleOver (⟨.keyword .cout, word⟩ :: ⟨.mark .shiftLeft, arrow⟩ :: ts) (.write value)
  | call {ts args} (callee : Ident) (opening closing : Span) : Expr.ArgsOver ts args →
      SimpleOver (callee.asToken :: ⟨.mark .lparen, opening⟩ :: (ts ++ [⟨.mark .rparen, closing⟩]))
        (.call callee args)
  | ret (word : Span) : SimpleOver [⟨.keyword .returnWord, word⟩] (.ret none)
  | retValue {ts value} (word : Span) : value.LiesOver ts →
      SimpleOver (⟨.keyword .returnWord, word⟩ :: ts) (.ret (some value))

mutual

/-- Local variables and then statements, in braces. -/
inductive Block.LiesOver : List Token → Block → Prop
  | mk {all ts locals us body} (opening closing : Span) :
      all = ⟨.mark .lbrace, opening⟩ :: (ts ++ us ++ [⟨.mark .rbrace, closing⟩]) →
        AllOver Binding.VariableOver ts locals → Stmt.ListOver us body →
          Block.LiesOver all (.mk locals body (Token.extent all))

/-- Statements one after the other. -/
inductive Stmt.ListOver : List Token → List Stmt → Prop
  | nil : Stmt.ListOver [] []
  | cons {ts first us more} : Stmt.LiesOver ts first → Stmt.ListOver us more →
      Stmt.ListOver (ts ++ us) (first :: more)

/-- Statements. -/
inductive Stmt.LiesOver : List Token → Stmt → Prop
  | simple {all ts statement s} (semicolon : Span) : all = ts ++ [⟨.mark .semicolon, semicolon⟩] →
      Stmt.SimpleOver ts statement → s = statement (Token.extent all) → Stmt.LiesOver all s
  | ifThen {all ts cond us yes} (word : Span) : all = ⟨.keyword .ifWord, word⟩ :: (ts ++ us) →
      Expr.ConditionOver ts cond → Block.LiesOver us yes →
        Stmt.LiesOver all (.ifThen cond yes (Token.extent all))
  | ifElse {all ts cond us yes vs no} (word other : Span) :
      all = ⟨.keyword .ifWord, word⟩ :: (ts ++ us ++ ⟨.keyword .elseWord, other⟩ :: vs) →
        Expr.ConditionOver ts cond → Block.LiesOver us yes → Block.LiesOver vs no →
          Stmt.LiesOver all (.ifElse cond yes no (Token.extent all))
  | whileLoop {all ts cond us body} (word : Span) : all = ⟨.keyword .whileWord, word⟩ :: (ts ++ us) →
      Expr.ConditionOver ts cond → Block.LiesOver us body →
        Stmt.LiesOver all (.whileLoop cond body (Token.extent all))
  | repeatLoop {all ts cond us body} (word : Span) : all = ⟨.keyword .repeatWord, word⟩ :: (ts ++ us) →
      Expr.ConditionOver ts cond → Block.LiesOver us body →
        Stmt.LiesOver all (.repeatLoop cond body (Token.extent all))

end

/-! ## Declarations at their places -/

/-- Declarations. -/
inductive Decl.LiesOver : List Token → Decl → Prop
  | variable {ts binding} : binding.VariableOver ts → LiesOver ts (.variable binding)
  | function {all ts result us formals vs body} (name : Ident) (opening closing : Span) :
      all = ts ++ name.asToken :: ⟨.mark .lparen, opening⟩ :: (us ++ ⟨.mark .rparen, closing⟩ :: vs) →
        result.LiesOver ts → Binding.SignatureOver us formals → body.LiesOver vs →
          LiesOver all (.function ⟨result, name, formals, body, Token.extent all⟩)
  | struct {all ts fields} (word : Span) (name : Ident) (opening closing semicolon : Span) :
      all = ⟨.keyword .struct, word⟩ :: name.asToken :: ⟨.mark .lbrace, opening⟩ ::
        (ts ++ [⟨.mark .rbrace, closing⟩, ⟨.mark .semicolon, semicolon⟩]) →
        AllOver Binding.VariableOver ts fields →
          LiesOver all (.struct ⟨name, fields, Token.extent all⟩)

end Namescope
