import WidgetBridge.Proofs.WidgetGrammar.Slices

/-!
# Reading an expression comes to an end

The readers of expressions take fuel.  Each step goes to a part with fewer tokens, to the shape of
the range at hand, or to the next of several parts, so that three steps for each token are enough:
with more fuel the result is the same (`exprOf_eq_expr`).
-/

namespace WidgetBridge.WidgetGrammar

open WidgetBridge.Text

/-! ## Sizes -/

mutual

theorem TokenTree.length_tokens : (t : TokenTree) → t.tokens.length = t.size
  | .leaf _ => rfl
  | .group _ ts _ => by
    rw [TokenTree.tokens, TokenTree.size, ← length_tokensOf ts]
    simp

theorem length_tokensOf :
    (ts : List TokenTree) → (TokenTree.tokensOf ts).length = TokenTree.sizeOf' ts
  | [] => rfl
  | t :: ts => by
    rw [TokenTree.tokensOf, TokenTree.sizeOf', ← TokenTree.length_tokens t, ← length_tokensOf ts,
      List.length_append]

end

theorem sizeOf'_le_of_infix {ts us : List TokenTree}
    (h : TokenTree.tokensOf us <:+: TokenTree.tokensOf ts) :
    TokenTree.sizeOf' us ≤ TokenTree.sizeOf' ts := by
  rw [← length_tokensOf, ← length_tokensOf]
  exact h.length_le

theorem sizeOf'_le_of_suffix {ts us : List TokenTree} (h : us <:+ ts) :
    TokenTree.sizeOf' us ≤ TokenTree.sizeOf' ts :=
  sizeOf'_le_of_infix (infix_tokensOf h.isInfix)

theorem sizeOf'_lt_of_suffix {ts us : List TokenTree} (h : us <:+ ts)
    (hlen : us.length < ts.length) :
    TokenTree.sizeOf' us < TokenTree.sizeOf' ts := by
  obtain ⟨pre, rfl⟩ := h
  have hpre : pre ≠ [] := by
    rintro rfl
    simp at hlen
  have := sizeOf'_pos hpre
  rw [sizeOf'_append]
  omega

/-- Splitting makes no tokens. -/
theorem sizeOfParts_splitTop (r : Range) (separator : String) :
    sizeOfParts (r.splitTop separator) ≤ TokenTree.sizeOf' r.trees + 1 := by
  simpa [TokenTree.sizeOf', Range.splitTop] using sizeOfParts_splitFrom separator
    r.follow [] r.trees

/-- The number of tokens that a shape takes up at least. -/
def Shape.size : Shape → Nat
  | .listOf inner _ | .mapOf inner _ | .callOf _ _ inner _ => TokenTree.sizeOf' inner + 2
  | .arrow _ _ body => TokenTree.sizeOf' body + 1
  | .block _ _ | .other => 0

theorem size_callShape_le (ts : List TokenTree) : (callShape ts).size ≤ TokenTree.sizeOf' ts := by
  unfold callShape
  split
  · next callee typeArgs o inner c hhead =>
    exact sizeOf'_le_of_suffix (group_suffix_of_callHead? hhead)
  · exact Nat.zero_le _

theorem size_openShape_le (ts : List TokenTree) : (openShape ts).size ≤ TokenTree.sizeOf' ts := by
  unfold openShape
  split
  · next o inner c a body =>
    split_ifs
    · simp only [Shape.size, TokenTree.sizeOf', TokenTree.size]
      omega
    · exact size_callShape_le _
  · split_ifs
    · exact Nat.zero_le _
    · exact size_callShape_le _
  · exact size_callShape_le _

theorem size_shapeOf_le (ts : List TokenTree) : (shapeOf ts).size ≤ TokenTree.sizeOf' ts := by
  have hgetD {us : List TokenTree} (hus : us <:+ ts) :
      ((collection? us).getD (openShape ts)).size ≤ TokenTree.sizeOf' ts := by
    cases hs : collection? us with
    | none => exact size_openShape_le ts
    | some shape =>
      refine le_trans ?_ (sizeOf'_le_of_suffix hus)
      unfold collection? at hs
      split at hs
      · split_ifs at hs <;> cases hs <;> exact Nat.le_refl _
      · cases hs
  unfold shapeOf
  split_ifs
  · split
    · exact Nat.zero_le _
    · next rest hargs => exact hgetD (typeArgs?_suffix hargs)
  · exact hgetD List.suffix_rfl

/-! ## Fuel -/

/-- With two amounts of fuel, what needs no more than either of them is read alike. -/
structure ReadsAlike (fuel fuel' : Nat) : Prop where
  expr : ∀ r : Range, 3 * TokenTree.sizeOf' r.trees + 1 ≤ fuel →
    3 * TokenTree.sizeOf' r.trees + 1 ≤ fuel' →
    exprOf fuel r = exprOf fuel' r
  shape : ∀ (r : Range) (shape : Shape), 3 * shape.size ≤ fuel → 3 * shape.size ≤ fuel' →
    0 < fuel → 0 < fuel' →
    shapeExpr fuel r shape = shapeExpr fuel' r shape
  items : ∀ rs : List Range, 3 * sizeOfParts rs + 1 ≤ fuel → 3 * sizeOfParts rs + 1 ≤ fuel' →
    exprsOf fuel rs = exprsOf fuel' rs
  entries : ∀ rs : List Range, 3 * sizeOfParts rs + 1 ≤ fuel → 3 * sizeOfParts rs + 1 ≤ fuel' →
    entriesOf fuel rs = entriesOf fuel' rs
  arguments : ∀ rs : List Range, 3 * sizeOfParts rs + 1 ≤ fuel → 3 * sizeOfParts rs + 1 ≤ fuel' →
    argsOf fuel rs = argsOf fuel' rs

section Alike

variable {fuel fuel' : Nat}

theorem ReadsAlike.expr_succ (ih : ReadsAlike fuel fuel') {r : Range}
    (h : 3 * TokenTree.sizeOf' r.trees + 1 ≤ fuel + 1)
    (h' : 3 * TokenTree.sizeOf' r.trees + 1 ≤ fuel' + 1) :
    exprOf (fuel + 1) r = exprOf (fuel' + 1) r := by
  unfold exprOf
  dsimp only
  split_ifs with hempty hbare
  · rfl
  · simp only [Bool.and_eq_true, decide_eq_true_eq] at hbare
    have hlt := sizeOf'_lt_of_suffix (dropConst_suffix r.trees) hbare.2
    rw [ih.expr ⟨dropConst r.trees, r.follow⟩ (by dsimp only; omega) (by dsimp only; omega)]
  · have hpos : 0 < TokenTree.sizeOf' r.trees := sizeOf'_pos (by simpa [Range.isEmpty] using hempty)
    have hsize := size_shapeOf_le r.trees
    rw [ih.shape r (shapeOf r.trees) (by omega) (by omega) (by omega) (by omega)]

theorem ReadsAlike.shape_succ (ih : ReadsAlike fuel fuel') {r : Range} {shape : Shape}
    (h : 3 * shape.size ≤ fuel + 1) (h' : 3 * shape.size ≤ fuel' + 1) :
    shapeExpr (fuel + 1) r shape = shapeExpr (fuel' + 1) r shape := by
  have hparts (inner : List TokenTree) (c : Token) := sizeOfParts_splitTop ⟨inner, some c⟩ ","
  unfold shapeExpr
  cases shape with
  | listOf inner c =>
    have hinner := hparts inner c
    simp only [Shape.size] at h h' hinner
    dsimp only
    rw [ih.items _ (by omega) (by omega)]
  | mapOf inner c =>
    have hinner := hparts inner c
    simp only [Shape.size] at h h' hinner
    dsimp only
    rw [ih.entries _ (by omega) (by omega)]
  | arrow params a body =>
    simp only [Shape.size] at h h'
    dsimp only
    rw [ih.expr ⟨body, _⟩ (by dsimp only; omega) (by dsimp only; omega)]
  | block params body => rfl
  | callOf callee typeArgs inner c =>
    have hinner := hparts inner c
    simp only [Shape.size] at h h' hinner
    dsimp only
    rw [ih.arguments _ (by omega) (by omega)]
  | other => rfl

theorem ReadsAlike.items_succ (ih : ReadsAlike fuel fuel') {rs : List Range}
    (h : 3 * sizeOfParts rs + 1 ≤ fuel + 1) (h' : 3 * sizeOfParts rs + 1 ≤ fuel' + 1) :
    exprsOf (fuel + 1) rs = exprsOf (fuel' + 1) rs := by
  cases rs with
  | nil => rfl
  | cons r rs =>
    rw [sizeOfParts_cons] at h h'
    unfold exprsOf
    rw [ih.expr r (by omega) (by omega), ih.items rs (by omega) (by omega)]

theorem ReadsAlike.entries_succ (ih : ReadsAlike fuel fuel') {rs : List Range}
    (h : 3 * sizeOfParts rs + 1 ≤ fuel + 1) (h' : 3 * sizeOfParts rs + 1 ≤ fuel' + 1) :
    entriesOf (fuel + 1) rs = entriesOf (fuel' + 1) rs := by
  cases rs with
  | nil => rfl
  | cons r rs =>
    rw [sizeOfParts_cons] at h h'
    unfold entriesOf
    split
    · rfl
    · next k v hkv =>
      obtain ⟨hkey, hvalue⟩ := infix_entryRanges? hkv
      have hkey := sizeOf'_le_of_infix hkey
      have hvalue := sizeOf'_le_of_infix hvalue
      rw [ih.expr k (by omega) (by omega), ih.expr v (by omega) (by omega),
        ih.entries rs (by omega) (by omega)]

theorem ReadsAlike.arguments_succ (ih : ReadsAlike fuel fuel') {rs : List Range}
    (h : 3 * sizeOfParts rs + 1 ≤ fuel + 1) (h' : 3 * sizeOfParts rs + 1 ≤ fuel' + 1) :
    argsOf (fuel + 1) rs = argsOf (fuel' + 1) rs := by
  cases rs with
  | nil => rfl
  | cons r rs =>
    rw [sizeOfParts_cons] at h h'
    have hsize := sizeOf'_le_of_infix (infix_argumentRange r)
    unfold argsOf
    rw [ih.arguments rs (by omega) (by omega)]
    dsimp only
    rw [ih.expr (argumentRange r).2 (by omega) (by omega)]

end Alike

/-- Two readings agree if both have fuel enough. -/
theorem readsAlike (fuel fuel' : Nat) : ReadsAlike fuel fuel' := by
  induction fuel generalizing fuel' with
  | zero => constructor <;> intros <;> omega
  | succ fuel ih =>
    cases fuel' with
    | zero => constructor <;> intros <;> omega
    | succ fuel' =>
      exact {
        expr := fun _ h h' => (ih fuel').expr_succ h h'
        shape := fun _ _ h h' _ _ => (ih fuel').shape_succ h h'
        items := fun _ h h' => (ih fuel').items_succ h h'
        entries := fun _ h h' => (ih fuel').entries_succ h h'
        arguments := fun _ h h' => (ih fuel').arguments_succ h h' }

/-- Three steps for each token are enough to read an expression. -/
theorem exprOf_eq_expr {fuel : Nat} {r : Range} (h : 3 * TokenTree.sizeOf' r.trees + 1 ≤ fuel) :
    exprOf fuel r = r.expr :=
  (readsAlike fuel _).expr r h (Nat.le_add_right _ 2)

end WidgetBridge.WidgetGrammar
