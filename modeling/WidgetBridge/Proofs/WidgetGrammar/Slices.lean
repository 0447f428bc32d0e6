import WidgetBridge.Proofs.WidgetGrammar.Declaration
import WidgetBridge.Proofs.WidgetGrammar.Lexing

/-!
# Expressions are slices

Whatever is read of a source stands for a run of its tokens.  `Expr.Sliced ts e` says that all parts
of the expression `e` are such runs.  Where the numerals among the tokens can be read, reading an
expression fails only with a place (`ends_expr`).
-/

namespace WidgetBridge.WidgetGrammar

open WidgetBridge.Text WidgetBridge.Number

/-! ## Runs of trees -/

theorem infix_tokensOf {ts us : List TokenTree} (h : ts <:+: us) :
    TokenTree.tokensOf ts <:+: TokenTree.tokensOf us := by
  obtain ⟨a, b, rfl⟩ := h
  simp only [tokensOf_append]
  exact List.infix_append _ _ _

theorem tokensOf_group (o : Token) (inner : List TokenTree) (c : Token) :
    TokenTree.tokensOf [.group o inner c] = o :: (TokenTree.tokensOf inner ++ [c]) := by
  simp [TokenTree.tokensOf, TokenTree.tokens]

theorem infix_inner (o : Token) (inner : List TokenTree) (c : Token) :
    TokenTree.tokensOf inner ++ [c] <:+: TokenTree.tokensOf [.group o inner c] := by
  rw [tokensOf_group]
  exact (List.suffix_cons _ _).isInfix

theorem tokens_infix_of_mem_splitFrom {separator : String} {follow : Option Token}
    {part ts : List TokenTree} {r : Range} (h : r ∈ Range.splitFrom separator follow part ts) :
    r.tokens <:+: TokenTree.tokensOf (part.reverse ++ ts) := by
  fun_induction Range.splitFrom separator follow part ts with
  | case1 => cases h
  | case2 part hne =>
    cases List.mem_singleton.1 h
    simp [Range.tokens]
  | case3 part t ts hsep rest hempty ih =>
    exact (ih h).trans
      (infix_tokensOf ((List.suffix_cons _ _).trans (List.suffix_append _ _)).isInfix)
  | case4 part t ts hsep rest hempty ih =>
    rcases List.mem_cons.1 h with rfl | h
    · exact infix_tokensOf (List.prefix_append _ _).isInfix
    · exact (ih h).trans
        (infix_tokensOf ((List.suffix_cons _ _).trans (List.suffix_append _ _)).isInfix)
  | case5 part t ts hsep ih => simpa using ih h
  | case6 part o inner c ts ih => simpa using ih h

theorem tokens_infix_of_mem_splitTop {r p : Range} {separator : String}
    (h : p ∈ r.splitTop separator) :
    p.tokens <:+: r.tokens :=
  tokens_infix_of_mem_splitFrom h

theorem dropConst_suffix (ts : List TokenTree) : dropConst ts <:+ ts := by
  fun_induction dropConst ts with
  | case1 t ts hconst ih => exact ih.trans (List.suffix_cons _ _)
  | case2 t ts hconst => exact List.suffix_rfl
  | case3 ts hts => exact List.suffix_rfl

theorem typeArgsFrom_suffix {depth : Nat} {inside ts args rest : List TokenTree}
    (h : typeArgsFrom depth inside ts = some (args, rest)) : rest <:+ ts := by
  fun_induction typeArgsFrom depth inside ts with
  | case1 => cases h
  | case2 depth inside o inner c ts ih => exact (ih h).trans (List.suffix_cons _ _)
  | case3 depth inside t ts hopen ih => exact (ih h).trans (List.suffix_cons _ _)
  | case4 depth inside t ts hopen hclose hdepth =>
    cases h
    exact List.suffix_cons _ _
  | case5 depth inside t ts hopen hclose hdepth ih => exact (ih h).trans (List.suffix_cons _ _)
  | case6 => cases h
  | case7 depth inside t ts hopen hclose hend ih => exact (ih h).trans (List.suffix_cons _ _)

theorem typeArgs?_suffix {ts args rest : List TokenTree} (h : typeArgs? ts = some (args, rest)) :
    rest <:+ ts := by
  unfold typeArgs? at h
  split at h
  · split_ifs at h
    exact (typeArgsFrom_suffix h).trans (List.suffix_cons _ _)
  · cases h

theorem dottedName_suffix (ts : List TokenTree) : (dottedName ts).2 <:+ ts := by
  fun_induction dottedName ts with
  | case1 dot n ts hdot names rest hrest ih =>
    rw [hrest] at ih
    exact ih.trans ((List.suffix_cons _ _).trans (List.suffix_cons _ _))
  | case2 dot n ts hdot => exact List.suffix_rfl
  | case3 ts hts => exact List.suffix_rfl

theorem cutTop?_eq {text : String} {ts a b : List TokenTree} {t : TokenTree}
    (h : Range.cutTop? text ts = some (a, t, b)) : ts = a ++ t :: b := by
  induction ts generalizing a with
  | nil => cases h
  | cons u us ih =>
    unfold Range.cutTop? at h
    split_ifs at h
    · cases h
      rfl
    · rw [Option.map_eq_some_iff] at h
      obtain ⟨⟨a', t', b'⟩, hr, heq⟩ := h
      cases heq
      rw [ih hr, List.cons_append]

/-! ## Expressions -/

/-- A number that is written in the source, with or without a sign. -/
def Written (ts : List Token) (v : Value) : Prop :=
  ∀ x, v = .float x → ∃ t ∈ ts, ∃ y, numeralValue t.text = .ok (.float y) ∧ (x = y ∨ x = -y)

/-- An expression all of whose parts are runs of tokens. -/
inductive Expr.Sliced (ts : List Token) : Expr → Prop
  | call {r : Range} {callee typeArgs : String} {args : List (Option String × Expr)}
    {comments : List String} : r.tokens <:+: ts → (∀ a ∈ args, Sliced ts a.2) →
    (∀ c ∈ comments, ∃ t ∈ ts, ∃ l ∈ t.comments, c = l.text) →
    Sliced ts (.call r callee typeArgs args comments)
  | string {r : Range} {parts : List Part} : r.tokens <:+: ts → Sliced ts (.string r parts)
  | literal {r : Range} {v : Value} : r.tokens <:+: ts → Written ts v → Sliced ts (.literal r v)
  | list {r : Range} {items : List Expr} : r.tokens <:+: ts → (∀ e ∈ items, Sliced ts e) →
    Sliced ts (.list r items)
  | map {r : Range} {entries : List (Expr × Expr)} : r.tokens <:+: ts →
    (∀ e ∈ entries, Sliced ts e.1) → (∀ e ∈ entries, Sliced ts e.2) → Sliced ts (.map r entries)
  | closure {r : Range} {params : List String} {body : Option Expr} {block : Option Range} :
    r.tokens <:+: ts → (∀ e ∈ body, Sliced ts e) → Sliced ts (.closure r params body block)
  | other {r : Range} : r.tokens <:+: ts → Sliced ts (.other r)

theorem Expr.Sliced.range {ts : List Token} {e : Expr} (h : e.Sliced ts) :
    e.range.tokens <:+: ts := by
  cases h <;> assumption

theorem Expr.Sliced.withRange {ts : List Token} {e : Expr} (h : e.Sliced ts) {r : Range}
    (hr : r.tokens <:+: ts) : (e.withRange r).Sliced ts := by
  cases h with
  | call _ hargs hcomments => exact .call hr hargs hcomments
  | string => exact .string hr
  | literal _ hv => exact .literal hr hv
  | list _ hitems => exact .list hr hitems
  | map _ hkeys hvalues => exact .map hr hkeys hvalues
  | closure _ hbody => exact .closure hr hbody
  | other => exact .other hr

/-- A shape whose parts are runs of tokens. -/
def Shape.Sliced (ts : List Token) : Shape → Prop
  | .listOf inner c | .mapOf inner c | .callOf _ _ inner c =>
    TokenTree.tokensOf inner ++ [c] <:+: ts
  | .arrow _ _ body => TokenTree.tokensOf body <:+: ts
  | .block _ _ | .other => True

section Shapes

variable {all : List Token} {ts : List TokenTree}

theorem group_suffix_of_callHead? {callee typeArgs : String} {o c : Token} {inner : List TokenTree}
    (h : callHead? ts = some (callee, typeArgs, o, inner, c)) :
    [TokenTree.group o inner c] <:+ ts := by
  unfold callHead? at h
  split at h
  · next n us =>
    dsimp only at h
    split_ifs at h with hident hangle
    · split at h
      · next o' inner' c' heq =>
        split_ifs at h
        cases h
        split at heq
        · next args rest hargs =>
          dsimp only at heq
          rw [← heq]
          exact (typeArgs?_suffix hargs).trans ((dottedName_suffix us).trans (List.suffix_cons _ _))
        · cases heq
      · cases h
    · split at h
      · next o' inner' c' heq =>
        split_ifs at h
        cases h
        dsimp only at heq
        rw [← heq]
        exact (dottedName_suffix us).trans (List.suffix_cons _ _)
      · cases h
  · cases h

theorem sliced_callShape (h : TokenTree.tokensOf ts <:+: all) : (callShape ts).Sliced all := by
  unfold callShape
  split
  · next callee typeArgs o inner c hhead =>
    exact (infix_inner o inner c).trans
      ((infix_tokensOf (group_suffix_of_callHead? hhead).isInfix).trans h)
  · trivial

theorem sliced_openShape (h : TokenTree.tokensOf ts <:+: all) : (openShape ts).Sliced all := by
  unfold openShape
  split
  · next o inner c a body =>
    split_ifs
    · exact (infix_tokensOf ((List.suffix_cons _ _).trans (List.suffix_cons _ _)).isInfix).trans h
    · exact sliced_callShape h
  · split_ifs
    · trivial
    · exact sliced_callShape h
  · exact sliced_callShape h

theorem sliced_collection? (h : TokenTree.tokensOf ts <:+: all) {shape : Shape}
    (hs : collection? ts = some shape) : shape.Sliced all := by
  unfold collection? at hs
  split at hs
  · next o inner c =>
    split_ifs at hs <;> cases hs <;> exact (infix_inner o inner c).trans h
  · cases hs

theorem sliced_shapeOf (h : TokenTree.tokensOf ts <:+: all) : (shapeOf ts).Sliced all := by
  have hgetD {us : List TokenTree}
      (hus : us <:+ ts) : ((collection? us).getD (openShape ts)).Sliced all := by
    cases hs : collection? us with
    | none => exact sliced_openShape h
    | some shape => exact sliced_collection? ((infix_tokensOf hus.isInfix).trans h) hs
  unfold shapeOf
  split_ifs
  · split
    · trivial
    · next rest hargs => exact hgetD (typeArgs?_suffix hargs)
  · exact hgetD List.suffix_rfl

end Shapes

theorem infix_argumentRange (arg : Range) : (argumentRange arg).2.tokens <:+: arg.tokens := by
  unfold argumentRange
  split
  · next n colon v heq =>
    split_ifs
    · unfold Range.tokens
      rw [heq]
      exact infix_tokensOf ((List.suffix_cons _ _).trans (List.suffix_cons _ _)).isInfix
    · exact List.infix_rfl
  · exact List.infix_rfl

theorem infix_entryRanges? {entry k v : Range} (h : entryRanges? entry = some (k, v)) :
    k.tokens <:+: entry.tokens ∧ v.tokens <:+: entry.tokens := by
  unfold entryRanges? at h
  rw [Option.map_eq_some_iff] at h
  obtain ⟨⟨key, colon, value⟩, hcut, heq⟩ := h
  cases heq
  unfold Range.tokens
  rw [cutTop?_eq hcut]
  constructor
  · exact infix_tokensOf (List.prefix_append _ _).isInfix
  · exact infix_tokensOf ((List.suffix_cons _ _).trans (List.suffix_append _ _)).isInfix

theorem leadingComments_eq {inner : List TokenTree} {closer : Token} {c : String}
    (h : c ∈ leadingComments inner closer) :
    ∃ t ∈ TokenTree.tokensOf inner ++ [closer], ∃ l ∈ t.comments, c = l.text := by
  unfold leadingComments at h
  obtain ⟨l, hl, rfl⟩ := List.mem_map.1 h
  cases inner with
  | nil => exact ⟨closer, by simp, l, hl, rfl⟩
  | cons t ts =>
    exact ⟨t.first, List.mem_append_left _ (first_mem_tokensOf List.mem_cons_self), l, hl, rfl⟩

section Exprs

variable {all : List Token}
  (hnum : ∀ t ∈ all, t.lexeme.kind = .number → ∃ v, numeralValue t.text = .ok v)

include hnum

theorem ends_atom? {ts : List TokenTree} (h : TokenTree.tokensOf ts <:+: all) {v : Attempt Value}
    (hv : atom? ts = some v) : Ends v (Written all) Placed := by
  unfold atom? at hv
  split at hv
  · next t =>
    have ht : t ∈ all := h.subset (by simp [TokenTree.tokensOf, TokenTree.tokens])
    split_ifs at hv with hkind
    · cases hv
      obtain ⟨w, hw⟩ := hnum t ht (by simpa using hkind)
      rw [hw]
      refine .ok ?_
      rintro x rfl
      exact ⟨t, ht, x, hw, .inl rfl⟩
    all_goals
      cases hv
      refine .ok ?_
      rintro x ⟨⟩
  · next sign t =>
    have ht : t ∈ all := h.subset (by simp [TokenTree.tokensOf, TokenTree.tokens])
    split_ifs at hv with hkind
    cases hv
    rw [Bool.and_eq_true] at hkind
    obtain ⟨w, hw⟩ := hnum t ht (by simpa using hkind.2)
    rw [hw]
    refine .ok fun x hx => ?_
    cases w with
    | float y =>
      cases hx
      exact ⟨t, ht, y, hw, .inr rfl⟩
    | _ => cases hx
  · cases hv

omit hnum

/-- With some fuel, what is read of ranges of a source are slices of it. -/
structure ReadsSliced (all : List Token) (fuel : Nat) : Prop where
  expr : ∀ r : Range, r.tokens <:+: all → Ends (exprOf fuel r) (Expr.Sliced all) Placed
  shape : ∀ (r : Range) (shape : Shape), r.tokens <:+: all → shape.Sliced all →
    Ends (shapeExpr fuel r shape) (Expr.Sliced all) Placed
  items : ∀ rs : List Range, (∀ r ∈ rs, r.tokens <:+: all) →
    Ends (exprsOf fuel rs) (fun es => ∀ e ∈ es, e.Sliced all) Placed
  entries : ∀ rs : List Range, (∀ r ∈ rs, r.tokens <:+: all) →
    Ends (entriesOf fuel rs) (fun o => ∀ es ∈ o, ∀ e ∈ es, e.1.Sliced all ∧ e.2.Sliced all) Placed
  arguments : ∀ rs : List Range, (∀ r ∈ rs, r.tokens <:+: all) →
    Ends (argsOf fuel rs) (fun as => ∀ a ∈ as, a.2.Sliced all) Placed

section Succ

variable {fuel : Nat} {r : Range} {rs : List Range}

include hnum in
theorem ReadsSliced.expr_succ (ih : ReadsSliced all fuel) (hr : r.tokens <:+: all) :
    Ends (exprOf (fuel + 1) r) (Expr.Sliced all) Placed := by
  unfold exprOf
  dsimp only
  split_ifs with hempty hbare
  · exact .error ⟨_, _, rfl⟩
  · refine Ends.bind (ih.expr ⟨dropConst r.trees, r.follow⟩ ?_) fun e he => .ok (he.withRange hr)
    exact (infix_tokensOf (dropConst_suffix r.trees).isInfix).trans hr
  · split
    · exact .ok (.string hr)
    · split
      · next v hv => exact Ends.bind (ends_atom? hnum hr hv) fun w hw => .ok (.literal hr hw)
      · exact ih.shape r _ hr (sliced_shapeOf hr)

theorem ReadsSliced.shape_succ (ih : ReadsSliced all fuel) (hr : r.tokens <:+: all) {shape : Shape}
    (hshape : shape.Sliced all) : Ends (shapeExpr (fuel + 1) r shape) (Expr.Sliced all) Placed := by
  have hparts {inner : List TokenTree} {c : Token} (h : TokenTree.tokensOf inner ++ [c] <:+: all) :
      ∀ r ∈ (Range.mk inner (some c)).splitTop ",", r.tokens <:+: all := fun r hr =>
    (tokens_infix_of_mem_splitTop hr).trans ((List.prefix_append _ _).isInfix.trans h)
  cases shape with
  | listOf inner c => exact Ends.bind (ih.items _ (hparts hshape)) fun es hes => .ok (.list hr hes)
  | mapOf inner c =>
    refine Ends.bind (ih.entries _ (hparts hshape)) fun o ho => ?_
    cases o with
    | none => exact .ok (.other hr)
    | some es => exact .ok (.map hr (fun e he => (ho es rfl e he).1) fun e he => (ho es rfl e he).2)
  | arrow params a body =>
    refine Ends.bind (ih.expr ⟨body, _⟩ hshape) fun e he => .ok (.closure hr ?_)
    rintro _ ⟨⟩
    exact he
  | block params body => exact .ok (.closure hr fun e he => by cases he)
  | callOf callee typeArgs inner c =>
    refine Ends.bind (ih.arguments _ (hparts hshape)) fun args hargs =>
      .ok (.call hr hargs fun c hc => ?_)
    obtain ⟨t, ht, hl⟩ := leadingComments_eq hc
    exact ⟨t, hshape.subset ht, hl⟩
  | other => exact .ok (.other hr)

theorem ReadsSliced.items_succ (ih : ReadsSliced all fuel) (hrs : ∀ r ∈ rs, r.tokens <:+: all) :
    Ends (exprsOf (fuel + 1) rs) (fun es => ∀ e ∈ es, e.Sliced all) Placed := by
  cases rs with
  | nil => exact .ok (List.forall_mem_nil _)
  | cons r rs =>
    obtain ⟨hr, hrs⟩ := List.forall_mem_cons.1 hrs
    refine Ends.bind (ih.expr r hr) fun e he => Ends.bind (ih.items rs hrs) fun es hes => ?_
    exact .ok (List.forall_mem_cons.2 ⟨he, hes⟩)

theorem ReadsSliced.entries_succ (ih : ReadsSliced all fuel) (hrs : ∀ r ∈ rs, r.tokens <:+: all) :
    Ends (entriesOf (fuel + 1) rs) (fun o => ∀ es ∈ o, ∀ e ∈ es, e.1.Sliced all ∧ e.2.Sliced all)
      Placed := by
  cases rs with
  | nil =>
    refine .ok ?_
    rintro es ⟨⟩
    exact List.forall_mem_nil _
  | cons r rs =>
    obtain ⟨hr, hrs⟩ := List.forall_mem_cons.1 hrs
    unfold entriesOf
    split
    · exact .ok fun es hes => by cases hes
    · next k v hkv =>
      obtain ⟨hk, hv⟩ := infix_entryRanges? hkv
      refine Ends.bind (ih.expr k (hk.trans hr)) fun key hkey => ?_
      refine Ends.bind (ih.expr v (hv.trans hr)) fun value hvalue => ?_
      refine Ends.bind (ih.entries rs hrs) fun o ho => ?_
      cases o with
      | none => exact .ok fun es hes => by cases hes
      | some es =>
        refine .ok ?_
        rintro _ ⟨⟩
        exact List.forall_mem_cons.2 ⟨⟨hkey, hvalue⟩, ho es rfl⟩

theorem ReadsSliced.arguments_succ (ih : ReadsSliced all fuel) (hrs : ∀ r ∈ rs, r.tokens <:+: all) :
    Ends (argsOf (fuel + 1) rs) (fun as => ∀ a ∈ as, a.2.Sliced all) Placed := by
  cases rs with
  | nil => exact .ok (List.forall_mem_nil _)
  | cons r rs =>
    obtain ⟨hr, hrs⟩ := List.forall_mem_cons.1 hrs
    refine Ends.bind (ih.expr _ ((infix_argumentRange r).trans hr)) fun e he => ?_
    refine Ends.bind (ih.arguments rs hrs) fun as has => ?_
    exact .ok (List.forall_mem_cons.2 ⟨he, has⟩)

end Succ

include hnum

/-- Reading an expression fails only with a place. -/
theorem readsSliced (fuel : Nat) : ReadsSliced all fuel := by
  induction fuel with
  | zero =>
    exact {
      expr := fun _ hr => .ok (.other hr)
      shape := fun _ _ hr _ => .ok (.other hr)
      items := fun _ _ => .ok (List.forall_mem_nil _)
      entries := fun _ _ => .ok fun es hes => by cases hes
      arguments := fun _ _ => .ok (List.forall_mem_nil _) }
  | succ fuel ih =>
    exact {
      expr := fun _ hr => ih.expr_succ hnum hr
      shape := fun _ _ hr hshape => ih.shape_succ hr hshape
      items := fun _ hrs => ih.items_succ hrs
      entries := fun _ hrs => ih.entries_succ hrs
      arguments := fun _ hrs => ih.arguments_succ hrs }

theorem ends_expr {r : Range} (h : r.tokens <:+: all) : Ends r.expr (Expr.Sliced all) Placed :=
  (readsSliced hnum _).expr r h

end Exprs

end WidgetBridge.WidgetGrammar
