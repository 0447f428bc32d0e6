import WidgetBridge.Proofs.WidgetGrammar.Declaration
import WidgetBridge.Proofs.WidgetGrammar.Slices
import WidgetBridge.State.WidgetScan

/-!
# Calls in a forest

The arguments that a forest gives to a function, found along its trees: a tree at a time
(`argumentsOf_append`), none where the function is not named (`argumentsOf_eq_nil`), and each one a
run of the tokens of the forest (`tokens_infix_of_mem_argumentsOf`).
-/

namespace WidgetBridge.State

open WidgetBridge.WidgetGrammar

/-- A forest that does not start with brackets. -/
def LeafFirst (ts : List TokenTree) : Prop := ∀ u ∈ ts.head?, ∃ t, u = .leaf t

theorem leafFirst_cons (t : Token) (ts : List TokenTree) : LeafFirst (.leaf t :: ts) := by
  rintro u ⟨⟩
  exact ⟨t, rfl⟩

theorem argumentsOf_leaf (function : String) (t : Token) {ts : List TokenTree} (h : LeafFirst ts) :
    argumentsOf function (.leaf t :: ts) = argumentsOf function ts := by
  cases ts with
  | nil => simp [argumentsOf]
  | cons u us =>
    obtain ⟨v, rfl⟩ := h u rfl
    rw [argumentsOf]
    simp

theorem argumentsOf_append (function : String) (ts : List TokenTree) {us : List TokenTree}
    (h : LeafFirst us) :
    argumentsOf function (ts ++ us) = argumentsOf function ts ++ argumentsOf function us := by
  fun_induction argumentsOf function ts with
  | case1 => rfl
  | case2 t o inner c ts hcall ih => simp [argumentsOf, hcall, ih]
  | case3 t o inner c ts hcall ih =>
    rw [List.cons_append, List.cons_append, argumentsOf, if_neg hcall]
    exact ih
  | case4 t ts hts ih =>
    rw [List.cons_append, argumentsOf_leaf, ih]
    cases ts with
    | nil => exact h
    | cons u us =>
      cases u with
      | leaf v => exact leafFirst_cons v _
      | group o inner c => exact absurd rfl (hts o inner c us)
  | case5 o inner c ts _ ih => simp [argumentsOf, ih]

theorem argumentsOf_eq_nil {function : String} {ts : List TokenTree}
    (h : ∀ t ∈ TokenTree.tokensOf ts, t.isName function = false) :
    argumentsOf function ts = [] := by
  fun_induction argumentsOf function ts with
  | case1 => rfl
  | case2 t o inner c ts hcall ih => simp [TokenTree.tokensOf, TokenTree.tokens, h] at hcall
  | case3 t o inner c ts hcall ih => exact ih fun u hu => h u (List.mem_append_right _ hu)
  | case4 t ts hts ih => exact ih fun u hu => h u (List.mem_append_right _ hu)
  | case5 o inner c ts ih₁ ih₂ =>
    rw [ih₁, ih₂, List.append_nil]
    · exact fun u hu => h u (by simp [TokenTree.tokensOf, hu])
    · exact fun u hu => h u (by simp [TokenTree.tokensOf, TokenTree.tokens, hu])

theorem argumentsOf_leaves (function : String) (toks : List Token) :
    argumentsOf function (leaves toks) = [] := by
  induction toks with
  | nil => exact argumentsOf_eq_nil (by simp [leaves, TokenTree.tokensOf])
  | cons t toks ih =>
    have hfirst : LeafFirst (leaves toks) := by
      cases toks with
      | nil => rintro u ⟨⟩
      | cons u us => exact leafFirst_cons u _
    exact (argumentsOf_leaf function t hfirst).trans ih

theorem tokens_infix_of_mem_argumentsOf {function : String} {ts : List TokenTree} {r : Range}
    (h : r ∈ argumentsOf function ts) : r.tokens <:+: TokenTree.tokensOf ts := by
  have htail {t : TokenTree} {ts : List TokenTree} {us : List Token}
      (h : us <:+: TokenTree.tokensOf ts) : us <:+: TokenTree.tokensOf (t :: ts) :=
    h.trans (infix_tokensOf (List.suffix_cons _ _).isInfix)
  have hinner {o c : Token} {inner ts : List TokenTree} {us : List Token}
      (h : us <:+: TokenTree.tokensOf inner) :
        us <:+: TokenTree.tokensOf (.group o inner c :: ts) := by
    refine h.trans ((List.prefix_append _ [c]).isInfix.trans ((infix_inner o inner c).trans ?_))
    exact infix_tokensOf (List.prefix_append [TokenTree.group o inner c] ts).isInfix
  fun_induction argumentsOf function ts with
  | case1 => cases h
  | case2 t o inner c ts hcall ih =>
    rcases List.mem_cons.1 h with rfl | h
    · exact htail (hinner List.infix_rfl)
    · exact htail (htail (ih h))
  | case3 t o inner c ts hcall ih => exact htail (ih h)
  | case4 t ts hts ih => exact htail (ih h)
  | case5 o inner c ts ihi ih =>
    rcases List.mem_append.1 h with h | h
    · exact hinner (ihi h)
    · exact htail (ih h)

end WidgetBridge.State
