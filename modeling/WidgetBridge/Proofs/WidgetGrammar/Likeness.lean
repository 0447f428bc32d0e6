import WidgetBridge.Proofs.WidgetGrammar.Expressions
import WidgetBridge.Proofs.WidgetGrammar.Measure
import WidgetBridge.Proofs.WidgetGrammar.Transplant

/-!
# Reading does not depend on the place

Whether a range is read as an expression, and of what kind, is told by its forest without indices,
places and gaps.  Each function that looks at a forest gives the same for the bare forest; the five
readers follow by induction on their fuel, as long as there is enough of it (`readsLike`).
-/

namespace WidgetBridge.WidgetGrammar

open WidgetBridge.Text

/-! ## Functions on forests -/

@[simp] theorem Token.isPunct_bare (t : Token) (s : String) : t.bare.isPunct s = t.isPunct s := rfl

@[simp] theorem Token.isName_bare (t : Token) (s : String) : t.bare.isName s = t.isName s := rfl

@[simp] theorem Token.isIdent_bare (t : Token) : t.bare.isIdent = t.isIdent := rfl

@[simp] theorem Token.text_bare (t : Token) : t.bare.text = t.text := rfl

@[simp] theorem Token.kind_bare (t : Token) : t.bare.lexeme.kind = t.lexeme.kind := rfl

@[simp] theorem Token.bare_bare (t : Token) : t.bare.bare = t.bare := rfl

@[simp] theorem TokenTree.isPunct_bare (t : TokenTree) (s : String) :
    t.bare.isPunct s = t.isPunct s := by
  cases t <;> rfl

mutual

@[simp] theorem TokenTree.bare_bare : (t : TokenTree) → t.bare.bare = t.bare
  | .leaf _ => rfl
  | .group _ ts _ => by simp only [TokenTree.bare, Token.bare_bare, bareAll_bareAll ts]

@[simp] theorem bareAll_bareAll : (ts : List TokenTree) → bareAll (bareAll ts) = bareAll ts
  | [] => rfl
  | t :: ts => by simp only [bareAll_cons, TokenTree.bare_bare t, bareAll_bareAll ts]

end

mutual

@[simp] theorem TokenTree.size_bare : (t : TokenTree) → t.bare.size = t.size
  | .leaf _ => rfl
  | .group _ ts _ => by simp only [TokenTree.bare, TokenTree.size, sizeOf'_bareAll ts]

@[simp] theorem sizeOf'_bareAll : (ts : List TokenTree) →
    TokenTree.sizeOf' (bareAll ts) = TokenTree.sizeOf' ts
  | [] => rfl
  | t :: ts => by
    simp only [bareAll_cons, TokenTree.sizeOf', TokenTree.size_bare t, sizeOf'_bareAll ts]

end

@[simp] theorem length_bareAll (ts : List TokenTree) : (bareAll ts).length = ts.length := by
  rw [bareAll_eq_map, List.length_map]

@[simp] theorem bareAll_reverse (ts : List TokenTree) :
    bareAll ts.reverse = (bareAll ts).reverse := by
  rw [bareAll_eq_map, bareAll_eq_map, List.map_reverse]

@[simp] theorem isEmpty_bareAll (ts : List TokenTree) : (bareAll ts).isEmpty = ts.isEmpty := by
  cases ts <;> rfl

theorem dropConst_bareAll (ts : List TokenTree) :
    dropConst (bareAll ts) = bareAll (dropConst ts) := by
  fun_induction dropConst ts with
  | case1 t ts hconst ih => simpa [TokenTree.bare, dropConst, hconst] using ih
  | case2 t ts hconst => simp [TokenTree.bare, dropConst, hconst]
  | case3 ts hts =>
    cases ts with
    | nil => rfl
    | cons t ts =>
      cases t with
      | leaf t => exact absurd rfl (hts t ts)
      | group o inner c => rfl

theorem isSome_literalTokens?_bareAll (ts : List TokenTree) :
    (literalTokens? (bareAll ts)).isSome = (literalTokens? ts).isSome := by
  fun_induction literalTokens? ts with
  | case1 => rfl
  | case2 t ts hkind ih => simpa [TokenTree.bare, literalTokens?, hkind] using ih
  | case3 t ts hkind => simp [TokenTree.bare, literalTokens?, hkind]
  | case4 => rfl

theorem atom?_bareAll (ts : List TokenTree) : atom? (bareAll ts) = atom? ts := by
  rcases ts with _ | ⟨t, _ | ⟨u, _ | ⟨v, ts⟩⟩⟩
  · rfl
  · cases t <;> rfl
  · cases t <;> cases u <;> rfl
  · cases t <;> cases u <;> rfl

theorem typeArgsFrom_bareAll (depth : Nat) (inside ts : List TokenTree) :
    typeArgsFrom depth (bareAll inside) (bareAll ts) =
      (typeArgsFrom depth inside ts).map (Prod.map bareAll bareAll) := by
  fun_induction typeArgsFrom depth inside ts with
  | case1 => rfl
  | case2 depth inside o inner c ts ih => simpa [TokenTree.bare, typeArgsFrom] using ih
  | case3 depth inside t ts hopen ih => simpa [TokenTree.bare, typeArgsFrom, hopen] using ih
  | case4 depth inside t ts hopen hclose hdepth =>
    simp only [bareAll_cons, TokenTree.bare, typeArgsFrom, Token.text_bare, hopen, hclose, hdepth,
      Bool.false_eq_true, if_true, if_false]
    simp
  | case5 depth inside t ts hopen hclose hdepth ih =>
    simpa only [bareAll_cons, TokenTree.bare, typeArgsFrom, Token.text_bare, hopen, hclose, hdepth,
      Bool.false_eq_true, if_true, if_false] using ih
  | case6 depth inside t ts hopen hclose hend =>
    simp only [bareAll_cons, TokenTree.bare, typeArgsFrom, Token.text_bare, hopen, hclose, hend,
      Bool.false_eq_true, if_true, if_false]
    rfl
  | case7 depth inside t ts hopen hclose hend ih =>
    simpa only [bareAll_cons, TokenTree.bare, typeArgsFrom, Token.text_bare, hopen, hclose, hend,
      Bool.false_eq_true, if_false] using ih

theorem typeArgs?_bareAll (ts : List TokenTree) :
    typeArgs? (bareAll ts) = (typeArgs? ts).map (Prod.map bareAll bareAll) := by
  rcases ts with _ | ⟨t | _, ts⟩
  · rfl
  · have hinside := typeArgsFrom_bareAll 1 [] ts
    change (if (t.text == "<") = true then typeArgsFrom 1 [] (bareAll ts) else none) =
      (if (t.text == "<") = true then typeArgsFrom 1 [] ts else none).map (Prod.map bareAll bareAll)
    split_ifs
    · exact hinside
    · rfl
  · rfl

theorem startsAngle_bareAll (ts : List TokenTree) : startsAngle (bareAll ts) = startsAngle ts := by
  rcases ts with _ | ⟨_ | _, ts⟩ <;> rfl

theorem dottedName_bareAll (ts : List TokenTree) :
    dottedName (bareAll ts) = ((dottedName ts).1, bareAll (dottedName ts).2) := by
  fun_induction dottedName ts with
  | case1 dot n ts hdot names rest hrest ih =>
    rw [hrest] at ih
    simp [TokenTree.bare, dottedName, hdot, ih]
  | case2 dot n ts hdot =>
    simp [TokenTree.bare, dottedName, hdot]
  | case3 ts hts =>
    rcases ts with _ | ⟨_ | _, _ | ⟨_ | _, ts⟩⟩
    all_goals first | rfl | exact absurd rfl (hts _ _ _)

/-- A shape without what depends on the place. The type arguments are left out, since their source
keeps the gaps. -/
def Shape.bare : Shape → Shape
  | .listOf inner c => .listOf (bareAll inner) c.bare
  | .mapOf inner c => .mapOf (bareAll inner) c.bare
  | .arrow params a body => .arrow ⟨bareAll params.trees, none⟩ a.bare (bareAll body)
  | .block params body => .block ⟨bareAll params.trees, none⟩ ⟨bareAll body.trees, none⟩
  | .callOf callee _ inner c => .callOf callee "" (bareAll inner) c.bare
  | .other => .other

/-- The shape of a call with a name before what may be type arguments and brackets. -/
def headShape (callee : String) (rest : List TokenTree) : Shape :=
  match if startsAngle rest then ((typeArgs? rest).map Prod.snd).getD [] else rest with
  | [.group o inner c] => if o.isPunct "(" then .callOf callee "" (bareAll inner) c.bare else .other
  | _ => .other

/-- The shape of a call of which only the brackets are left. -/
def groupShape (callee : String) : List TokenTree → Shape
  | [.group o inner c] => if o.isPunct "(" then .callOf callee "" (bareAll inner) c.bare else .other
  | _ => .other

theorem groupShape_bareAll (callee : String) (ts : List TokenTree) :
    groupShape callee (bareAll ts) = groupShape callee ts := by
  rcases ts with _ | ⟨_ | ⟨o, inner, c⟩, _ | ⟨_, _⟩⟩
  · rfl
  · rfl
  · rfl
  · simp [groupShape, TokenTree.bare]
  · rfl

theorem headShape_bareAll (callee : String) (ts : List TokenTree) :
    headShape callee (bareAll ts) = headShape callee ts := by
  unfold headShape
  rw [startsAngle_bareAll, typeArgs?_bareAll]
  split_ifs
  · cases typeArgs? ts with
    | none => rfl
    | some args => exact groupShape_bareAll callee _
  · exact groupShape_bareAll callee _

/-- The head of a call of which only the brackets are left. -/
def groupHead? (callee typeArgs : String) : List TokenTree →
    Option (String × String × Token × List TokenTree × Token)
  | [.group o inner c] => if o.isPunct "(" then some (callee, typeArgs, o, inner, c) else none
  | _ => none

/-- The shape of a call with a head. -/
def shapeOfHead : Option (String × String × Token × List TokenTree × Token) → Shape
  | some (callee, typeArgs, _, inner, c) => .callOf callee typeArgs inner c
  | none => .other

theorem bare_shapeOfHead (callee typeArgs : String) (ts : List TokenTree) :
    (shapeOfHead (groupHead? callee typeArgs ts)).bare = groupShape callee ts := by
  rcases ts with _ | ⟨_ | ⟨o, inner, c⟩, _ | ⟨_, _⟩⟩
  all_goals try rfl
  unfold groupHead? groupShape
  dsimp only
  split_ifs <;> rfl

/-- The shape of a call, from the name on. -/
def namedShape : List TokenTree → Shape
  | .leaf n :: ts =>
    if n.isIdent then headShape (join "." (n.text :: (dottedName ts).1))
      (dottedName ts).2 else .other
  | _ => .other

theorem bare_callShape_eq (ts : List TokenTree) : (callShape ts).bare = namedShape ts := by
  unfold callShape callHead? namedShape headShape
  rcases ts with _ | ⟨n | _, ts⟩
  · rfl
  · dsimp only
    generalize (dottedName ts).1 = names
    generalize (dottedName ts).2 = rest
    by_cases hident : n.isIdent = true
    · simp only [hident, if_true]
      by_cases hangle : startsAngle rest = true
      · simp only [hangle, if_true]
        cases typeArgs? rest with
        | none => rfl
        | some args => exact bare_shapeOfHead _ _ _
      · simp only [hangle]
        exact bare_shapeOfHead _ _ _
    · simp only [hident]
      rfl
  · rfl

theorem bare_callShape (ts : List TokenTree) :
    (callShape (bareAll ts)).bare = (callShape ts).bare := by
  rw [bare_callShape_eq, bare_callShape_eq]
  rcases ts with _ | ⟨n | _, ts⟩
  · rfl
  · simp only [bareAll_cons, TokenTree.bare, namedShape, dottedName_bareAll, headShape_bareAll]
    rfl
  · rfl

theorem bare_openShape (ts : List TokenTree) :
    (openShape (bareAll ts)).bare = (openShape ts).bare := by
  have hcall := bare_callShape ts
  rcases ts with _ | ⟨_ | ⟨o, inner, c⟩, _ | ⟨a | ⟨bo, binner, bc⟩, body⟩⟩
  · exact hcall
  · exact hcall
  · exact hcall
  · exact hcall
  · exact hcall
  · simp only [bareAll_cons, TokenTree.bare] at hcall ⊢
    by_cases hclosure : (o.isPunct "(" && a.isPunct "=>") = true
    · simp only [openShape, Token.isPunct_bare, hclosure, if_true, Shape.bare, Token.bare_bare,
        bareAll_bareAll]
    · simpa only [openShape, Token.isPunct_bare, hclosure, Bool.false_eq_true, if_false] using hcall
  · cases body with
    | nil =>
      simp only [bareAll_cons, bareAll_nil, TokenTree.bare] at hcall ⊢
      by_cases hblock : (o.isPunct "(" && bo.isPunct "\x7b") = true
      · simp only [openShape, Token.isPunct_bare, hblock, if_true, Shape.bare, bareAll_bareAll]
      · simpa only [openShape, Token.isPunct_bare, hblock, Bool.false_eq_true, if_false] using hcall
    | cons t ts => exact hcall

theorem bare_collection? (ts : List TokenTree) :
    (collection? (bareAll ts)).map Shape.bare = (collection? ts).map Shape.bare := by
  rcases ts with _ | ⟨_ | ⟨o, inner, c⟩, _ | ⟨_, _⟩⟩
  · rfl
  · rfl
  · rfl
  · simp only [bareAll_cons, bareAll_nil, TokenTree.bare, collection?, Token.isPunct_bare]
    by_cases hsquare : o.isPunct "[" = true
    · simp [hsquare, Shape.bare]
    · by_cases hcurly : o.isPunct "\x7b" = true <;> simp [hsquare, hcurly, Shape.bare]
  · rfl

theorem bare_shapeOf (ts : List TokenTree) : (shapeOf (bareAll ts)).bare = (shapeOf ts).bare := by
  have hgetD
      (us : List TokenTree) : ((collection? (bareAll us)).getD (openShape (bareAll ts))).bare =
      ((collection? us).getD (openShape ts)).bare := by
    have hcollection := bare_collection? us
    cases hb : collection? (bareAll us) <;> cases hs : collection? us <;> rw [hb, hs] at hcollection
    · exact bare_openShape ts
    · cases hcollection
    · cases hcollection
    · exact Option.some.inj hcollection
  unfold shapeOf
  rw [startsAngle_bareAll, typeArgs?_bareAll]
  split_ifs
  · cases typeArgs? ts with
    | none => rfl
    | some args => exact hgetD args.2
  · exact hgetD ts

/-! ## Parts of ranges -/

/-- The bare forests of ranges. -/
def bareParts (rs : List Range) : List (List TokenTree) := rs.map fun r => bareAll r.trees

theorem splitFrom_bareAll (separator : String) (follow follow' : Option Token)
    (part ts : List TokenTree) :
    bareParts (Range.splitFrom separator follow' (bareAll part) (bareAll ts)) =
      bareParts (Range.splitFrom separator follow part ts) := by
  fun_induction Range.splitFrom separator follow part ts with
  | case1 part hpart => simp [Range.splitFrom, bareParts, hpart]
  | case2 part hpart => simp [Range.splitFrom, bareParts, hpart, ← bareAll_reverse]
  | case3 part t ts hsep rest hempty ih =>
    simpa [TokenTree.bare, Range.splitFrom, hsep, hempty] using ih
  | case4 part t ts hsep rest hempty ih =>
    simpa [TokenTree.bare, Range.splitFrom, hsep, hempty, bareParts, ← bareAll_reverse] using ih
  | case5 part t ts hsep ih => simpa [TokenTree.bare, Range.splitFrom, hsep] using ih
  | case6 part o inner c ts ih => simpa [TokenTree.bare, Range.splitFrom] using ih

theorem cutTop?_bareAll (text : String) (ts : List TokenTree) : Range.cutTop? text (bareAll ts) =
    (Range.cutTop? text ts).map fun r => (bareAll r.1, r.2.1.bare, bareAll r.2.2) := by
  induction ts with
  | nil => rfl
  | cons t ts ih =>
    by_cases ht : t.isPunct text = true
    · simp [Range.cutTop?, ht]
    · simp only [bareAll_cons, Range.cutTop?, TokenTree.isPunct_bare, ht, ih]
      cases Range.cutTop? text ts <;> rfl

/-- Ranges that differ in their place only. -/
def Range.Like (r r' : Range) : Prop := bareAll r'.trees = bareAll r.trees

/-- Shapes that differ in their place only. -/
def Shape.Like (s s' : Shape) : Prop := s'.bare = s.bare

theorem Range.Like.shapeOf {r r' : Range} (h : r.Like r') :
    (shapeOf r.trees).Like (shapeOf r'.trees) := by
  rw [Shape.Like, ← bare_shapeOf r.trees, ← bare_shapeOf r'.trees, h]

theorem Range.Like.size_eq {r r' : Range} (h : r.Like r') :
    TokenTree.sizeOf' r'.trees = TokenTree.sizeOf' r.trees := by
  rw [← sizeOf'_bareAll, h, sizeOf'_bareAll]

theorem Range.Like.splitTop {r r' : Range} (h : r.Like r') (separator : String) :
    bareParts (r'.splitTop separator) = bareParts (r.splitTop separator) := by
  have key (q : Range) := splitFrom_bareAll separator q.follow none [] q.trees
  unfold Range.splitTop
  rw [← key r, ← key r', h]

theorem Range.Like.argumentRange {r r' : Range} (h : r.Like r') :
    (argumentRange r).2.Like (argumentRange r').2 := by
  have key (q : Range) : bareAll (WidgetGrammar.argumentRange q).2.trees =
      (WidgetGrammar.argumentRange ⟨bareAll q.trees, none⟩).2.trees := by
    obtain ⟨ts, follow⟩ := q
    rcases ts with _ | ⟨n | _, _ | ⟨c | _, ts⟩⟩
    · rfl
    · rfl
    · by_cases hc : (n.isIdent && c.isPunct ":") = true <;>
        simp [WidgetGrammar.argumentRange, TokenTree.bare, hc]
    · rfl
    · rfl
    · rfl
    · rfl
  rw [Range.Like, key r, key r', h]

theorem Range.Like.entryRanges? {r r' : Range} (h : r.Like r') :
    (entryRanges? r').map (fun e => (bareAll e.1.trees, bareAll e.2.trees)) =
      (entryRanges? r).map fun e => (bareAll e.1.trees, bareAll e.2.trees) := by
  have key (q : Range) : (WidgetGrammar.entryRanges? q).map
      (fun e => (bareAll e.1.trees, bareAll e.2.trees)) =
      (Range.cutTop? ":" (bareAll q.trees)).map fun e => (e.1, e.2.2) := by
    rw [cutTop?_bareAll, WidgetGrammar.entryRanges?]
    cases Range.cutTop? ":" q.trees <;> rfl
  rw [key, key, h]

/-! ## Expressions -/

/-- The name in a call. -/
def Expr.callee? : Expr → Option String
  | .call _ callee _ _ _ => some callee
  | _ => none

theorem Expr.callee?_withRange (e : Expr) (r : Range) : (e.withRange r).callee? = e.callee? := by
  cases e <;> rfl

theorem bareParts_cons_eq {r : Range} {rs rs' : List Range}
    (h : bareParts rs' = bareParts (r :: rs)) :
    ∃ q qs, rs' = q :: qs ∧ r.Like q ∧ bareParts qs = bareParts rs := by
  obtain ⟨q, qs, rfl, hq, hqs⟩ := List.map_eq_cons_iff.1 h
  exact ⟨q, qs, rfl, hq, hqs⟩

/-- The parts of what stands in brackets, in two places. -/
theorem parts_of_bare {inner inner' : List TokenTree} (h : bareAll inner' = bareAll inner)
    (c c' : Token) :
    bareParts ((Range.mk inner' (some c')).splitTop ",") =
      bareParts ((Range.mk inner (some c)).splitTop ",") ∧
      sizeOfParts ((Range.mk inner (some c)).splitTop ",") ≤ TokenTree.sizeOf' inner + 1 := by
  exact ⟨@Range.Like.splitTop ⟨inner, some c⟩ ⟨inner', some c'⟩ h ",",
    sizeOfParts_splitTop ⟨inner, some c⟩ ","⟩

section Prefix

variable {r r' : Range}

theorem Range.Like.isEmpty_eq (h : r.Like r') : r'.isEmpty = r.isEmpty := by
  rw [Range.isEmpty, Range.isEmpty, ← isEmpty_bareAll, h, isEmpty_bareAll]

theorem Range.Like.dropConst (h : r.Like r') (follow follow' : Option Token) :
    (Range.mk (dropConst r.trees) follow).Like ⟨WidgetGrammar.dropConst r'.trees, follow'⟩ := by
  rw [Range.Like, ← dropConst_bareAll, h, dropConst_bareAll]

/-- Whether a prefix is dropped does not depend on the place. -/
theorem Range.Like.drops_eq (h : r.Like r') :
    (!(WidgetGrammar.dropConst r'.trees).isEmpty &&
        decide ((WidgetGrammar.dropConst r'.trees).length < r'.trees.length)) =
      (!(WidgetGrammar.dropConst r.trees).isEmpty &&
        decide ((WidgetGrammar.dropConst r.trees).length < r.trees.length)) := by
  have hdropped : bareAll (WidgetGrammar.dropConst r'.trees) =
      bareAll (WidgetGrammar.dropConst r.trees) :=
    h.dropConst none none
  rw [← isEmpty_bareAll (WidgetGrammar.dropConst r'.trees),
    ← length_bareAll (WidgetGrammar.dropConst r'.trees),
    ← length_bareAll r'.trees, hdropped, h, isEmpty_bareAll, length_bareAll, length_bareAll]

theorem Range.Like.isSome_literalTokens? (h : r.Like r') :
    (literalTokens? r'.trees).isSome = (literalTokens? r.trees).isSome := by
  rw [← isSome_literalTokens?_bareAll, h, isSome_literalTokens?_bareAll]

theorem Range.Like.atom?_eq (h : r.Like r') : atom? r'.trees = atom? r.trees := by
  rw [← atom?_bareAll, h, atom?_bareAll]

end Prefix

/-- Shapes of one form, whose parts differ in their place only. -/
inductive Shape.Paired : Shape → Shape → Prop
  | listOf {inner inner' : List TokenTree} (c c' : Token) (h : bareAll inner' = bareAll inner) :
      Paired (.listOf inner c) (.listOf inner' c')
  | mapOf {inner inner' : List TokenTree} (c c' : Token) (h : bareAll inner' = bareAll inner) :
      Paired (.mapOf inner c) (.mapOf inner' c')
  | arrow (params params' : Range) (a a' : Token) {body body' : List TokenTree}
      (h : bareAll body' = bareAll body) :
      Paired (.arrow params a body) (.arrow params' a' body')
  | block (params params' body body' : Range) : Paired (.block params body) (.block params' body')
  | callOf (callee typeArgs typeArgs' : String) {inner inner' : List TokenTree} (c c' : Token)
      (h : bareAll inner' = bareAll inner) :
      Paired (.callOf callee typeArgs inner c) (.callOf callee typeArgs' inner' c')
  | other : Paired .other .other

theorem Shape.Like.paired {s s' : Shape} (h : s.Like s') : s.Paired s' := by
  unfold Shape.Like at h
  cases s <;> cases s'
  -- shapes of two forms stay apart when they are bare
  all_goals try cases h
  case listOf =>
    rw [Shape.bare, Shape.bare, Shape.listOf.injEq] at h
    exact .listOf _ _ h.1
  case mapOf =>
    rw [Shape.bare, Shape.bare, Shape.mapOf.injEq] at h
    exact .mapOf _ _ h.1
  case arrow =>
    rw [Shape.bare, Shape.bare, Shape.arrow.injEq] at h
    exact .arrow _ _ _ _ h.2.2
  case block => exact .block _ _ _ _
  case callOf =>
    rw [Shape.bare, Shape.bare, Shape.callOf.injEq] at h
    obtain ⟨rfl, -, hinner, -⟩ := h
    exact .callOf _ _ _ _ _ hinner
  case other => exact .other

/-- With enough fuel on both sides, what can be read in one place can be read in any other. -/
structure ReadsLike (n : Nat) : Prop where
  expr : ∀ {m : Nat} {r r' : Range} {e : Expr}, r.Like r' → 3 * TokenTree.sizeOf' r.trees + 1 ≤ n →
    3 * TokenTree.sizeOf' r.trees + 1 ≤ m → exprOf n r = .ok e →
    ∃ e', exprOf m r' = .ok e' ∧ e'.callee? = e.callee?
  shape : ∀ {m : Nat} {r r' : Range} {s s' : Shape} {e : Expr}, s.Paired s' → 3 * s.size ≤ n →
    3 * s.size ≤ m →
    0 < n → 0 < m → shapeExpr n r s = .ok e →
      ∃ e', shapeExpr m r' s' = .ok e' ∧ e'.callee? = e.callee?
  items : ∀ {m : Nat} {rs rs' : List Range} {es : List Expr}, bareParts rs' = bareParts rs →
    3 * sizeOfParts rs + 1 ≤ n → 3 * sizeOfParts rs + 1 ≤ m → exprsOf n rs = .ok es →
    ∃ es', exprsOf m rs' = .ok es'
  entries : ∀ {m : Nat} {rs rs' : List Range} {es : Option (List (Expr × Expr))}, bareParts rs' =
    bareParts rs →
    3 * sizeOfParts rs + 1 ≤ n → 3 * sizeOfParts rs + 1 ≤ m → entriesOf n rs = .ok es →
    ∃ es', entriesOf m rs' = .ok es' ∧ es'.isSome = es.isSome
  arguments : ∀ {m : Nat} {rs rs' : List Range} {as : List (Option String × Expr)}, bareParts rs' =
    bareParts rs →
    3 * sizeOfParts rs + 1 ≤ n → 3 * sizeOfParts rs + 1 ≤ m → argsOf n rs = .ok as →
    ∃ as', argsOf m rs' = .ok as'

section ReadsLike

variable {n m : Nat} {r r' : Range} {rs rs' : List Range}

theorem ReadsLike.expr_succ (ih : ReadsLike n) {e : Expr} (hr : r.Like r')
    (hn : 3 * TokenTree.sizeOf' r.trees + 1 ≤ n + 1)
    (hm : 3 * TokenTree.sizeOf' r.trees + 1 ≤ m + 1) (h : exprOf (n + 1) r = .ok e) :
    ∃ e', exprOf (m + 1) r' = .ok e' ∧ e'.callee? = e.callee? := by
  have htokens := hr.isSome_literalTokens?
  unfold exprOf at h ⊢
  dsimp only at h ⊢
  rw [hr.isEmpty_eq, hr.drops_eq, hr.atom?_eq]
  split_ifs at h ⊢ with hempty hdrops
  · obtain ⟨e₀, he₀, h⟩ := exists_of_bind_ok h
    cases h
    have hlt : TokenTree.sizeOf' (dropConst r.trees) < TokenTree.sizeOf' r.trees := by
      rw [Bool.and_eq_true, decide_eq_true_iff] at hdrops
      exact sizeOf'_lt_of_suffix (dropConst_suffix r.trees) hdrops.2
    obtain ⟨e', he', hcallee⟩ := ih.expr (m := m) (hr.dropConst _ r'.follow) (by dsimp only; omega)
      (by dsimp only; omega) he₀
    rw [he']
    exact ⟨_, rfl, by rw [Expr.callee?_withRange, Expr.callee?_withRange, hcallee]⟩
  · cases htoks : literalTokens? r.trees with
    | some ts =>
      rw [htoks] at h htokens
      obtain ⟨ts', hts'⟩ := Option.isSome_iff_exists.1 htokens
      cases h
      rw [hts']
      exact ⟨_, rfl, rfl⟩
    | none =>
      rw [htoks] at h htokens
      rw [Option.isNone_iff_eq_none.1 (Option.isSome_eq_false_iff.1 htokens)]
      cases hatom : atom? r.trees with
      | some v =>
        rw [hatom] at h
        obtain ⟨w, hw, h⟩ := exists_of_bind_ok h
        cases h
        dsimp only
        rw [hw]
        exact ⟨_, rfl, rfl⟩
      | none =>
        rw [hatom] at h
        have hpos : 0 < TokenTree.sizeOf' r.trees :=
          sizeOf'_pos (by simpa [Range.isEmpty] using hempty)
        have hsize := size_shapeOf_le r.trees
        exact ih.shape hr.shapeOf.paired (by omega) (by omega) (by omega) (by omega) h

theorem ReadsLike.shape_succ (ih : ReadsLike n) {s s' : Shape} {e : Expr} (hs : s.Paired s')
    (hn : 3 * s.size ≤ n + 1) (hm : 3 * s.size ≤ m + 1) (h : shapeExpr (n + 1) r s = .ok e) :
    ∃ e', shapeExpr (m + 1) r' s' = .ok e' ∧ e'.callee? = e.callee? := by
  cases hs with
  | listOf c c' hinner =>
    obtain ⟨hparts, hsize⟩ := parts_of_bare hinner c c'
    simp only [Shape.size] at hn hm
    obtain ⟨es, hes, h⟩ := exists_of_bind_ok h
    cases h
    obtain ⟨es', hes'⟩ := ih.items (m := m) hparts (by omega) (by omega) hes
    exact ⟨.list r' es', by simp only [shapeExpr, hes', bind, Except.bind, pure, Except.pure], rfl⟩
  | mapOf c c' hinner =>
    obtain ⟨hparts, hsize⟩ := parts_of_bare hinner c c'
    simp only [Shape.size] at hn hm
    obtain ⟨es, hes, h⟩ := exists_of_bind_ok h
    obtain ⟨es', hes', -⟩ := ih.entries (m := m) hparts (by omega) (by omega) hes
    simp only [shapeExpr, hes', bind, Except.bind, pure, Except.pure]
    cases es <;> cases h <;> cases es' <;> exact ⟨_, rfl, rfl⟩
  | @arrow params params' a a' body body' hbody =>
    simp only [Shape.size] at hn hm
    obtain ⟨e₀, he₀, h⟩ := exists_of_bind_ok h
    cases h
    have hlike (follow follow' : Option Token) : (Range.mk body follow).Like ⟨body', follow'⟩ :=
      hbody
    have hread (follow : Option Token) := ih.expr (m := m) (hlike _ follow) (by dsimp only; omega)
      (by dsimp only; omega) he₀
    unfold shapeExpr
    dsimp only
    split
    all_goals
      obtain ⟨e', he', -⟩ := hread _
      rw [he']
      exact ⟨_, rfl, rfl⟩
  | block params params' body body' =>
    cases h
    exact ⟨_, rfl, rfl⟩
  | @callOf callee typeArgs typeArgs' inner inner' c c' hinner =>
    obtain ⟨hparts, hsize⟩ := parts_of_bare hinner c c'
    simp only [Shape.size] at hn hm
    obtain ⟨as, has, h⟩ := exists_of_bind_ok h
    cases h
    obtain ⟨as', has'⟩ := ih.arguments (m := m) hparts (by omega) (by omega) has
    refine ⟨.call r' callee typeArgs' as' (leadingComments inner' c'), ?_, rfl⟩
    simp only [shapeExpr, has', bind, Except.bind, pure, Except.pure]
  | other =>
    cases h
    exact ⟨_, rfl, rfl⟩

theorem ReadsLike.items_succ (ih : ReadsLike n) {es : List Expr}
    (hrs : bareParts rs' = bareParts rs) (hn : 3 * sizeOfParts rs + 1 ≤ n + 1)
    (hm : 3 * sizeOfParts rs + 1 ≤ m + 1) (h : exprsOf (n + 1) rs = .ok es) :
    ∃ es', exprsOf (m + 1) rs' = .ok es' := by
  cases rs with
  | nil =>
    obtain rfl := List.map_eq_nil_iff.1 hrs
    exact ⟨[], rfl⟩
  | cons r rs =>
    obtain ⟨q, qs, rfl, hq, hqs⟩ := bareParts_cons_eq hrs
    rw [sizeOfParts_cons] at hn hm
    obtain ⟨e, he, h⟩ := exists_of_bind_ok h
    obtain ⟨es, hes, -⟩ := exists_of_bind_ok h
    obtain ⟨e', he', -⟩ := ih.expr (m := m) hq (by omega) (by omega) he
    obtain ⟨es', hes'⟩ := ih.items (m := m) hqs (by omega) (by omega) hes
    exact ⟨e' :: es', by simp only [exprsOf, he', hes', bind, Except.bind, pure, Except.pure]⟩

theorem ReadsLike.entries_succ (ih : ReadsLike n) {es : Option (List (Expr × Expr))}
    (hrs : bareParts rs' = bareParts rs) (hn : 3 * sizeOfParts rs + 1 ≤ n + 1)
    (hm : 3 * sizeOfParts rs + 1 ≤ m + 1) (h : entriesOf (n + 1) rs = .ok es) :
    ∃ es', entriesOf (m + 1) rs' = .ok es' ∧ es'.isSome = es.isSome := by
  cases rs with
  | nil =>
    obtain rfl := List.map_eq_nil_iff.1 hrs
    cases h
    exact ⟨some [], rfl, rfl⟩
  | cons r rs =>
    obtain ⟨q, qs, rfl, hq, hqs⟩ := bareParts_cons_eq hrs
    rw [sizeOfParts_cons] at hn hm
    have hentry := hq.entryRanges?
    unfold entriesOf at h ⊢
    cases hr : entryRanges? r with
    | none =>
      rw [hr] at h hentry
      cases h
      rw [Option.map_eq_none_iff.1 hentry]
      exact ⟨none, rfl, rfl⟩
    | some kv =>
      obtain ⟨k, v⟩ := kv
      rw [hr] at h hentry
      obtain ⟨⟨k', v'⟩, hq', hkv⟩ := Option.map_eq_some_iff.1 hentry
      rw [Prod.mk.injEq] at hkv
      have hlikek : k.Like k' := hkv.1
      have hlikev : v.Like v' := hkv.2
      obtain ⟨hk, hv⟩ := infix_entryRanges? hr
      have hksize := sizeOf'_le_of_infix hk
      have hvsize := sizeOf'_le_of_infix hv
      obtain ⟨key, hkey, h⟩ := exists_of_bind_ok h
      obtain ⟨value, hvalue, h⟩ := exists_of_bind_ok h
      obtain ⟨o, ho, h⟩ := exists_of_bind_ok h
      obtain ⟨key', hkey', -⟩ := ih.expr (m := m) hlikek (by omega) (by omega) hkey
      obtain ⟨value', hvalue', -⟩ := ih.expr (m := m) hlikev (by omega) (by omega) hvalue
      obtain ⟨o', ho', hsome⟩ := ih.entries (m := m) hqs (by omega) (by omega) ho
      rw [hq']
      simp only [hkey', hvalue', ho', bind, Except.bind, pure, Except.pure]
      cases o <;> cases o' <;> cases hsome <;> cases h <;> exact ⟨_, rfl, rfl⟩

theorem ReadsLike.arguments_succ (ih : ReadsLike n) {as : List (Option String × Expr)}
    (hrs : bareParts rs' = bareParts rs) (hn : 3 * sizeOfParts rs + 1 ≤ n + 1)
    (hm : 3 * sizeOfParts rs + 1 ≤ m + 1) (h : argsOf (n + 1) rs = .ok as) :
    ∃ as', argsOf (m + 1) rs' = .ok as' := by
  cases rs with
  | nil =>
    obtain rfl := List.map_eq_nil_iff.1 hrs
    exact ⟨[], rfl⟩
  | cons r rs =>
    obtain ⟨q, qs, rfl, hq, hqs⟩ := bareParts_cons_eq hrs
    rw [sizeOfParts_cons] at hn hm
    have hsize := sizeOf'_le_of_infix (infix_argumentRange r)
    obtain ⟨e, he, h⟩ := exists_of_bind_ok h
    obtain ⟨as, has, -⟩ := exists_of_bind_ok h
    obtain ⟨e', he', -⟩ := ih.expr (m := m) hq.argumentRange (by omega) (by omega) he
    obtain ⟨as', has'⟩ := ih.arguments (m := m) hqs (by omega) (by omega) has
    exact ⟨((argumentRange q).1, e') :: as', by
      simp only [argsOf, he', has', bind, Except.bind, pure, Except.pure]⟩

/-- What can be read in one place can be read in any other, however deep the reader goes. -/
theorem readsLike (n : Nat) : ReadsLike n := by
  induction n with
  | zero => constructor <;> intros <;> omega
  | succ n ih =>
    constructor
    all_goals
      intro m
      intros
      obtain ⟨m, rfl⟩ := Nat.exists_eq_succ_of_ne_zero (by omega : m ≠ 0)
    · exact ih.expr_succ ‹_› ‹_› ‹_› ‹_›
    · exact ih.shape_succ ‹_› ‹_› ‹_› ‹_›
    · exact ih.items_succ ‹_› ‹_› ‹_› ‹_›
    · exact ih.entries_succ ‹_› ‹_› ‹_› ‹_›
    · exact ih.arguments_succ ‹_› ‹_› ‹_› ‹_›

end ReadsLike

theorem range_of_shapeExpr {fuel : Nat} {r : Range} {s : Shape} {e : Expr}
    (h : shapeExpr fuel r s = .ok e) :
    e.range = r := by
  cases fuel with
  | zero =>
    cases h
    rfl
  | succ fuel =>
    cases s with
    | block params body =>
      cases h
      rfl
    | other =>
      cases h
      rfl
    | mapOf inner c =>
      obtain ⟨es, -, h⟩ := exists_of_bind_ok h
      cases es <;> cases h <;> rfl
    | _ =>
      obtain ⟨es, -, h⟩ := exists_of_bind_ok h
      cases h
      rfl

theorem range_of_exprOf {fuel : Nat} {r : Range} {e : Expr} (h : exprOf fuel r = .ok e) :
    e.range = r := by
  cases fuel with
  | zero =>
    cases h
    rfl
  | succ fuel =>
    unfold exprOf at h
    dsimp only at h
    split_ifs at h
    · obtain ⟨e₀, -, h⟩ := exists_of_bind_ok h
      cases h
      cases e₀ <;> rfl
    · split at h
      · cases h
        rfl
      · split at h
        · obtain ⟨v, -, h⟩ := exists_of_bind_ok h
          cases h
          rfl
        · exact range_of_shapeExpr h

/-- What is read by itself is read in every other place, with the same callee. -/
theorem readsAs_of_like {r r' : Range} {e : Expr} (h : r.expr = .ok e) (hr : r.Like r') :
    ReadsAs (fun e' => e'.callee? = e.callee?) r' := by
  intro fuel hf
  rw [hr.size_eq] at hf
  obtain ⟨e', he', hcallee⟩ := (readsLike _).expr hr (by omega) hf h
  exact ⟨e', he', range_of_exprOf he', hcallee⟩

end WidgetBridge.WidgetGrammar
