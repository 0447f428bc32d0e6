import WidgetBridge.Proofs.WidgetGrammar.MemberSlices
import WidgetBridge.Proofs.WidgetGrammar.Passage
import WidgetBridge.Proofs.WidgetGrammar.Positions

/-!
# Ranges that are closed under the matching of brackets

A range of a source is told by the numbers of its first token and of the token after its last one.
`Source.matching` pairs the brackets of a source, and a range is closed if both or none of the
brackets of every pair stand in it (`Source.IsClosed`).

`Source.range` is the part of the forest that a range takes up.  Such parts are described by
`Source.Spans s start stop ts`: the trees `ts` stand for the tokens from `start` to `stop`, and
every pair that touches these tokens is a group among the trees.  This is kept when a forest is cut
between two trees (`Spans.append`) and inside a group (`Spans.inner`), which is all that the readers
of source ever do.
-/

namespace WidgetBridge.WidgetGrammar

open WidgetBridge.Text

/-! ## Pairs of brackets -/

/-- The numbers of brackets that match, in the order of the closing ones.  `open_` are the brackets
that are open, the innermost first. -/
def matchFrom (open_ : List Nat) : List Token → List (Nat × Nat)
  | [] => []
  | t :: ts =>
    if t.lexeme.opens then matchFrom (t.index :: open_) ts
    else if t.lexeme.closes then
      match open_ with
      | o :: outer => (o, t.index) :: matchFrom outer ts
      | [] => matchFrom [] ts
    else matchFrom open_ ts

/-- The pairs of brackets of a source. -/
def Source.matching (s : Source) : List (Nat × Nat) := matchFrom [] s.tokens

mutual

/-- The pairs of brackets of a tree. -/
def TokenTree.pairs : TokenTree → List (Nat × Nat)
  | .leaf _ => []
  | .group o inner c => pairsOf inner ++ [(o.index, c.index)]

/-- The pairs of brackets of a forest. -/
def pairsOf : List TokenTree → List (Nat × Nat)
  | [] => []
  | t :: ts => t.pairs ++ pairsOf ts

end

theorem tokensOf_leaf (t : Token) : TokenTree.tokensOf [.leaf t] = [t] := rfl

theorem pairsOf_append (ts us : List TokenTree) :
    pairsOf (ts ++ us) = pairsOf ts ++ pairsOf us := by
  induction ts with
  | nil => rfl
  | cons t ts ih => rw [List.cons_append, pairsOf, pairsOf, ih, List.append_assoc]

theorem pairsOf_group (o : Token) (inner : List TokenTree) (c : Token) :
    pairsOf [.group o inner c] = pairsOf inner ++ [(o.index, c.index)] := by
  simp [pairsOf, TokenTree.pairs]

theorem matchFrom_of_opens {t : Token} (h : t.lexeme.opens = true) (open_ : List Nat)
    (ts : List Token) :
    matchFrom open_ (t :: ts) = matchFrom (t.index :: open_) ts := by
  rw [matchFrom.eq_def]
  dsimp only
  rw [if_pos h]

theorem matchFrom_of_closes {t : Token} (h : t.lexeme.closes = true) (o : Nat) (open_ : List Nat)
    (ts : List Token) : matchFrom (o :: open_) (t :: ts) = (o, t.index) :: matchFrom open_ ts := by
  have hopens : ¬t.lexeme.opens = true := by simp [Lexeme.not_opens_of_closes h]
  rw [matchFrom.eq_def]
  dsimp only
  rw [if_neg hopens, if_pos h]

theorem matchFrom_of_plain {t : Token} (ho : t.lexeme.opens = false) (hc : t.lexeme.closes = false)
    (open_ : List Nat) (ts : List Token) : matchFrom open_ (t :: ts) = matchFrom open_ ts := by
  rw [matchFrom.eq_def]
  dsimp only
  rw [if_neg (by simp [ho]), if_neg (by simp [hc])]

mutual

theorem TokenTree.Nested.matchFrom_tokens : {t : TokenTree} → t.Nested →
    ∀ (open_ : List Nat) (rest : List Token),
      matchFrom open_ (t.tokens ++ rest) = t.pairs ++ matchFrom open_ rest
  | .leaf t, h, open_, rest => matchFrom_of_plain h.1 h.2 open_ rest
  | .group o ts c, h, open_, rest => by
    rw [TokenTree.tokens, TokenTree.pairs, List.append_assoc, List.cons_append,
      matchFrom_of_opens h.1, NestedAll.matchFrom_tokensOf h.2.2, List.singleton_append,
      matchFrom_of_closes h.2.1, List.append_assoc, List.singleton_append]

/-- The pairs of a forest are those that are found with a stack of open brackets. -/
theorem NestedAll.matchFrom_tokensOf : {ts : List TokenTree} → NestedAll ts →
    ∀ (open_ : List Nat) (rest : List Token),
      matchFrom open_ (TokenTree.tokensOf ts ++ rest) = pairsOf ts ++ matchFrom open_ rest
  | [], _, open_, rest => rfl
  | t :: ts, h, open_, rest => by
    rw [TokenTree.tokensOf, pairsOf, List.append_assoc, TokenTree.Nested.matchFrom_tokens h.1,
      NestedAll.matchFrom_tokensOf h.2, List.append_assoc]

end

mutual

theorem TokenTree.Nested.exists_of_mem_pairs {p : Nat × Nat} :
    {t : TokenTree} → t.Nested → p ∈ t.pairs →
    ∃ o ∈ t.tokens, ∃ c ∈ t.tokens, p = (o.index, c.index) ∧ o.lexeme.opens = true ∧
      c.lexeme.closes = true
  | .leaf _, _, hp => by cases hp
  | .group o ts c, h, hp => by
    rcases List.mem_append.1 hp with hp | hp
    · obtain ⟨o', ho, c', hc, hpair⟩ := NestedAll.exists_of_mem_pairsOf h.2.2 hp
      have hinner {t : Token} (ht : t ∈ TokenTree.tokensOf ts) :
          t ∈ (TokenTree.group o ts c).tokens :=
        List.mem_append_left _ (List.mem_cons_of_mem _ ht)
      exact ⟨o', hinner ho, c', hinner hc, hpair⟩
    · cases List.mem_singleton.1 hp
      exact ⟨o, List.mem_cons_self, c, List.mem_append_right _ (List.mem_singleton_self c),
        rfl, h.1, h.2.1⟩

/-- A pair of a forest is an opening and a closing bracket among its tokens. -/
theorem NestedAll.exists_of_mem_pairsOf {p : Nat × Nat} : {ts : List TokenTree} → NestedAll ts →
    p ∈ pairsOf ts → ∃ o ∈ TokenTree.tokensOf ts, ∃ c ∈ TokenTree.tokensOf ts,
      p = (o.index, c.index) ∧ o.lexeme.opens = true ∧ c.lexeme.closes = true
  | [], _, hp => by cases hp
  | t :: ts, h, hp => by
    rcases List.mem_append.1 hp with hp | hp
    · obtain ⟨o, ho, c, hc, hpair⟩ := TokenTree.Nested.exists_of_mem_pairs h.1 hp
      exact ⟨o, List.mem_append_left _ ho, c, List.mem_append_left _ hc, hpair⟩
    · obtain ⟨o, ho, c, hc, hpair⟩ := NestedAll.exists_of_mem_pairsOf h.2 hp
      exact ⟨o, List.mem_append_right _ ho, c, List.mem_append_right _ hc, hpair⟩

end

/-- A forest of matching brackets is told by its tokens. -/
theorem NestedAll.ofTokens_tokensOf {ts : List TokenTree} (h : NestedAll ts) :
    TokenTree.ofTokens (TokenTree.tokensOf ts) = ts := by
  rw [TokenTree.ofTokens, h.foldl_push]
  simp [TokenTree.Levels.close]

/-! ## Sources -/

/-- A source whose tokens are numbered from zero and make up a forest of matching brackets. -/
structure Source.Formed (s : Source) : Prop where
  index_getElem : ∀ (i : Nat) (hi : i < s.tokens.length), s.tokens[i].index = i
  tokensOf_trees : TokenTree.tokensOf s.trees = s.tokens
  nested : NestedAll s.trees

theorem formed_of_read {source : String} {s : Source} (h : Source.read source = .ok s) :
    s.Formed where
  index_getElem := index_getElem_of_read h
  tokensOf_trees := ((ends_read source).of_ok s h).tokensOf_trees
  nested := nestedAll_of_read h

/-- The tokens of a range. -/
def Source.slice (s : Source) (start stop : Nat) : List Token :=
  (s.tokens.drop start).take (stop - start)

theorem Source.tokens_eq_slice (s : Source) {start stop : Nat} (h : start ≤ stop) :
    s.tokens = s.tokens.take start ++ s.slice start stop ++ s.tokens.drop stop := by
  have hstop : s.tokens.drop stop = (s.tokens.drop start).drop (stop - start) := by
    rw [List.drop_drop, Nat.add_sub_of_le h]
  rw [Source.slice, hstop, List.append_assoc, List.take_append_drop, List.take_append_drop]

/-- A range inside a source such that both or none of two matching brackets stand in it. -/
structure Source.IsClosed (s : Source) (start stop : Nat) : Prop where
  le : start ≤ stop
  stop_le : stop ≤ s.tokens.length
  closed : ∀ p ∈ s.matching, (start ≤ p.1 ∧ p.1 < stop) ↔ (start ≤ p.2 ∧ p.2 < stop)

instance (s : Source) (start stop : Nat) : Decidable (s.IsClosed start stop) :=
  decidable_of_iff (start ≤ stop ∧ stop ≤ s.tokens.length ∧
      ∀ p ∈ s.matching, (start ≤ p.1 ∧ p.1 < stop) ↔ (start ≤ p.2 ∧ p.2 < stop))
    ⟨fun h => ⟨h.1, h.2.1, h.2.2⟩, fun h => ⟨h.le, h.stop_le, h.closed⟩⟩

/-! ## The forest of a range -/

/-- A token, if it stands in a range. -/
def Token.between (start stop : Nat) (t : Token) : List TokenTree :=
  if start ≤ t.index ∧ t.index < stop then [.leaf t] else []

mutual

/-- The part of a tree in a range.  A bracket whose partner stands outside counts as a plain
token. -/
def TokenTree.between (start stop : Nat) : TokenTree → List TokenTree
  | .leaf t => t.between start stop
  | .group o inner c =>
    if start ≤ o.index ∧ c.index < stop then [.group o inner c]
    else o.between start stop ++ betweenAll start stop inner ++ c.between start stop

/-- The part of a forest in a range. -/
def betweenAll (start stop : Nat) : List TokenTree → List TokenTree
  | [] => []
  | t :: ts => t.between start stop ++ betweenAll start stop ts

end

/-- The trees of a source from one token to the one before another. -/
def Source.range (s : Source) (start stop : Nat) : Range :=
  ⟨betweenAll start stop s.trees, s.tokens[stop]?⟩

theorem tokensOf_tokenBetween (start stop : Nat) (t : Token) :
    TokenTree.tokensOf (t.between start stop) = [t].filter fun u =>
      start ≤ u.index ∧ u.index < stop := by
  unfold Token.between
  split_ifs with h <;> simp [TokenTree.tokensOf, TokenTree.tokens, h]

mutual

theorem tokensOf_between (start stop : Nat) : (t : TokenTree) → InOrder [t] →
    TokenTree.tokensOf (t.between start stop) =
      t.tokens.filter fun u => start ≤ u.index ∧ u.index < stop
  | .leaf t, _ => tokensOf_tokenBetween start stop t
  | .group o inner c, h => by
    have hinner := tokensOf_betweenAll start stop inner h.inner
    unfold TokenTree.between
    split_ifs with hin
    · rw [InOrder, tokensOf_group, List.pairwise_cons, List.pairwise_append] at h
      obtain ⟨hfirst, -, -, hlast⟩ := h
      rw [tokensOf_group, TokenTree.tokens, List.cons_append, eq_comm]
      refine List.filter_eq_self.2 fun u hu => ?_
      rw [decide_eq_true_eq]
      have hoc := hfirst c (by simp)
      rcases List.mem_cons.1 hu with rfl | hu
      · exact ⟨hin.1, by omega⟩
      · have hou := hfirst u hu
        rcases List.mem_append.1 hu with hu | hu
        · have huc := hlast u hu c (by simp)
          exact ⟨by omega, by omega⟩
        · cases List.mem_singleton.1 hu
          exact ⟨by omega, hin.2⟩
    · rw [tokensOf_append, tokensOf_append, tokensOf_tokenBetween, tokensOf_tokenBetween, hinner,
        ← List.filter_append, ← List.filter_append, List.singleton_append, TokenTree.tokens]

theorem tokensOf_betweenAll (start stop : Nat) : (ts : List TokenTree) → InOrder ts →
    TokenTree.tokensOf (betweenAll start stop ts) =
      (TokenTree.tokensOf ts).filter fun u => start ≤ u.index ∧ u.index < stop
  | [], _ => rfl
  | t :: ts, h => by
    rw [← List.singleton_append] at h
    have hfirst : InOrder [t] := h.left
    have hrest : InOrder ts := h.right
    rw [betweenAll, tokensOf_append, tokensOf_between start stop t hfirst,
      tokensOf_betweenAll start stop ts hrest, TokenTree.tokensOf, List.filter_append]

end

theorem pairsOf_tokenBetween (start stop : Nat) (t : Token) :
    pairsOf (t.between start stop) = [] := by
  unfold Token.between
  split_ifs <;> rfl

mutual

theorem mem_pairs_between {start stop : Nat} {p : Nat × Nat} (hp : start ≤ p.1 ∧ p.2 < stop) :
    (t : TokenTree) → p ∈ t.pairs → p ∈ pairsOf (t.between start stop)
  | .leaf _, h => by cases h
  | .group o inner c, h => by
    unfold TokenTree.between
    split_ifs with hin
    · rw [pairsOf_group]
      exact h
    · rw [pairsOf_append, pairsOf_append, pairsOf_tokenBetween, pairsOf_tokenBetween,
        List.nil_append, List.append_nil]
      rcases List.mem_append.1 h with h | h
      · exact mem_pairsOf_betweenAll hp inner h
      · cases List.mem_singleton.1 h
        exact absurd hp hin

/-- Pairs in a range are pairs of its part of the forest. -/
theorem mem_pairsOf_betweenAll {start stop : Nat} {p : Nat × Nat} (hp : start ≤ p.1 ∧ p.2 < stop) :
    (ts : List TokenTree) → p ∈ pairsOf ts → p ∈ pairsOf (betweenAll start stop ts)
  | [], h => by cases h
  | t :: ts, h => by
    rw [betweenAll, pairsOf_append]
    exact List.mem_append.2
      ((List.mem_append.1 h).imp (mem_pairs_between hp t) (mem_pairsOf_betweenAll hp ts))

end

mutual

theorem mem_pairs_of_between {start stop : Nat} {p : Nat × Nat} :
    (t : TokenTree) → p ∈ pairsOf (t.between start stop) → p ∈ t.pairs
  | .leaf t, h => by
    rw [TokenTree.between, pairsOf_tokenBetween] at h
    cases h
  | .group o inner c, h => by
    unfold TokenTree.between at h
    split_ifs at h with hin
    · rwa [pairsOf_group] at h
    · rw [pairsOf_append, pairsOf_append, pairsOf_tokenBetween, pairsOf_tokenBetween,
        List.nil_append, List.append_nil] at h
      exact List.mem_append_left _ (mem_pairsOf_of_betweenAll inner h)

theorem mem_pairsOf_of_betweenAll {start stop : Nat} {p : Nat × Nat} :
    (ts : List TokenTree) → p ∈ pairsOf (betweenAll start stop ts) → p ∈ pairsOf ts
  | [], h => by cases h
  | t :: ts, h => by
    rw [betweenAll, pairsOf_append] at h
    exact List.mem_append.2
      ((List.mem_append.1 h).imp (mem_pairs_of_between t) (mem_pairsOf_of_betweenAll ts))

end

mutual

theorem TokenTree.Nested.between {start stop : Nat} : {t : TokenTree} → t.Nested →
    (∀ p ∈ t.pairs, (start ≤ p.1 ∧ p.1 < stop) ↔ (start ≤ p.2 ∧ p.2 < stop)) →
      NestedAll (t.between start stop)
  | .leaf t, h, _ => by
    rw [TokenTree.between, Token.between]
    split_ifs
    · exact ⟨h, trivial⟩
    · trivial
  | .group o ts c, h, hclosed => by
    have hown := hclosed (o.index, c.index) (List.mem_append_right _ (List.mem_singleton_self _))
    unfold TokenTree.between
    split_ifs with hin
    · exact ⟨h, trivial⟩
    · have ho : o.between start stop = [] := if_neg fun ho => hin ⟨ho.1, (hown.1 ho).2⟩
      have hc : c.between start stop = [] := if_neg fun hc => hin ⟨(hown.2 hc).1, hc.2⟩
      rw [ho, hc, List.nil_append, List.append_nil]
      exact NestedAll.betweenAll h.2.2 fun p hp => hclosed p (List.mem_append_left _ hp)

/-- No bracket of a closed range loses its partner. -/
theorem NestedAll.betweenAll {start stop : Nat} : {ts : List TokenTree} → NestedAll ts →
    (∀ p ∈ pairsOf ts, (start ≤ p.1 ∧ p.1 < stop) ↔ (start ≤ p.2 ∧ p.2 < stop)) →
      NestedAll (betweenAll start stop ts)
  | [], _, _ => trivial
  | _ :: _, h, hclosed =>
    nestedAll_append
      (TokenTree.Nested.between h.1 fun p hp => hclosed p (List.mem_append_left _ hp))
      (NestedAll.betweenAll h.2 fun p hp => hclosed p (List.mem_append_right _ hp))

end

/-! ## Spans -/

/-- Trees that stand for the tokens of a range. -/
def Source.Covers (s : Source) (start stop : Nat) (ts : List TokenTree) : Prop :=
  ∃ before after, s.tokens = before ++ TokenTree.tokensOf ts ++ after ∧ start = before.length ∧
    stop = start + (TokenTree.tokensOf ts).length

/-- Trees that stand for the tokens of a range, and whose groups are the pairs that touch it. -/
structure Source.Spans (s : Source) (start stop : Nat) (ts : List TokenTree) : Prop where
  covers : s.Covers start stop ts
  nested : NestedAll ts
  matched : ∀ p ∈ pairsOf ts, p ∈ s.matching
  touched : ∀ p ∈ s.matching, (start ≤ p.1 ∧ p.1 < stop) ∨ (start ≤ p.2 ∧ p.2 < stop) →
    p ∈ pairsOf ts

section Spans

variable {s : Source} (hs : s.Formed) {start stop : Nat} {ts us : List TokenTree}

theorem Source.Covers.le (h : s.Covers start stop ts) : start ≤ stop := by
  obtain ⟨before, after, htokens, hstart, hstop⟩ := h
  omega

theorem Source.Covers.stop_le (h : s.Covers start stop ts) : stop ≤ s.tokens.length := by
  obtain ⟨before, after, htokens, hstart, hstop⟩ := h
  have := congrArg List.length htokens
  simp only [List.length_append] at this
  omega

theorem Source.Covers.infix (h : s.Covers start stop ts) : TokenTree.tokensOf ts <:+: s.tokens := by
  obtain ⟨before, after, htokens, -⟩ := h
  exact ⟨before, after, htokens.symm⟩

theorem Source.Covers.slice_eq (h : s.Covers start stop ts) :
    s.slice start stop = TokenTree.tokensOf ts := by
  obtain ⟨before, after, htokens, hstart, hstop⟩ := h
  rw [Source.slice, htokens, hstop, Nat.add_sub_cancel_left, hstart, List.append_assoc,
    List.drop_left, List.take_left]

theorem Source.Covers.append (h : s.Covers start stop (ts ++ us)) :
    s.Covers start (start + (TokenTree.tokensOf ts).length) ts ∧
      s.Covers (start + (TokenTree.tokensOf ts).length) stop us := by
  obtain ⟨before, after, htokens, hstart, hstop⟩ := h
  rw [tokensOf_append] at htokens
  rw [tokensOf_append, List.length_append] at hstop
  refine ⟨⟨before, TokenTree.tokensOf us ++ after, ?_, hstart, rfl⟩,
    ⟨before ++ TokenTree.tokensOf ts, after, ?_, ?_, ?_⟩⟩
  · rw [htokens]
    simp only [List.append_assoc]
  · rw [htokens]
    simp only [List.append_assoc]
  · rw [List.length_append, hstart]
  · omega

include hs

/-- The pairs of a source are the groups of its forest. -/
theorem Source.Formed.matching_eq : s.matching = pairsOf s.trees := by
  have hmatch := hs.nested.matchFrom_tokensOf [] []
  rwa [List.append_nil, hs.tokensOf_trees, matchFrom, List.append_nil] at hmatch

theorem Source.Formed.inOrder : InOrder s.trees := by
  rw [InOrder, hs.tokensOf_trees, List.pairwise_iff_getElem]
  intro i j hi hj hij
  rwa [hs.index_getElem, hs.index_getElem]

/-- The tokens of a range are numbered by it. -/
theorem Source.Covers.getElem (h : s.Covers start stop ts) (k : Nat)
    (hk : k < (TokenTree.tokensOf ts).length) :
    (TokenTree.tokensOf ts)[k].index = start + k ∧
      s.tokens[start + k]? = some (TokenTree.tokensOf ts)[k] := by
  obtain ⟨before, after, htokens, hstart, hstop⟩ := h
  have hlength := congrArg List.length htokens
  simp only [List.length_append] at hlength
  have hget : s.tokens[start + k]? = some (TokenTree.tokensOf ts)[k] := by
    rw [htokens, hstart, List.append_assoc, List.getElem?_append_right (by omega),
      Nat.add_sub_cancel_left, List.getElem?_append_left hk, List.getElem?_eq_getElem hk]
  have hin : start + k < s.tokens.length := by omega
  refine ⟨?_, hget⟩
  rw [List.getElem?_eq_getElem hin, Option.some.injEq] at hget
  rw [← hget, hs.index_getElem]

theorem Source.Covers.mem_range (h : s.Covers start stop ts) {t : Token}
    (ht : t ∈ TokenTree.tokensOf ts) :
    start ≤ t.index ∧ t.index < stop ∧ s.tokens[t.index]? = some t := by
  obtain ⟨k, hk, rfl⟩ := List.getElem_of_mem ht
  obtain ⟨hindex, hget⟩ := h.getElem hs k hk
  obtain ⟨-, -, -, -, hstop⟩ := h
  rw [hindex]
  exact ⟨by omega, by omega, hget⟩

theorem Source.Covers.mem_of_getElem? (h : s.Covers start stop ts) {i : Nat} (hi : start ≤ i)
    (hlt : i < stop) {t : Token} (ht : s.tokens[i]? = some t) :
    t ∈ TokenTree.tokensOf ts ∧ t.index = i := by
  obtain ⟨k, rfl⟩ := Nat.exists_eq_add_of_le hi
  have hk : k < (TokenTree.tokensOf ts).length := by
    obtain ⟨-, -, -, -, hstop⟩ := h
    omega
  obtain ⟨hindex, hget⟩ := h.getElem hs k hk
  rw [ht, Option.some.injEq] at hget
  rw [hget]
  exact ⟨List.getElem_mem hk, hindex⟩

/-- Both brackets of a group stand in the range of the trees. -/
theorem Source.Covers.mem_of_mem_pairsOf (h : s.Covers start stop ts) (hts : NestedAll ts)
    {p : Nat × Nat} (hp : p ∈ pairsOf ts) :
    (start ≤ p.1 ∧ p.1 < stop) ∧ start ≤ p.2 ∧ p.2 < stop := by
  obtain ⟨o, ho, c, hc, rfl, -⟩ := hts.exists_of_mem_pairsOf hp
  have ho := h.mem_range hs ho
  have hc := h.mem_range hs hc
  exact ⟨⟨ho.1, ho.2.1⟩, hc.1, hc.2.1⟩

/-- A source that was read is spanned by its forest. -/
theorem Source.Formed.spans : s.Spans 0 s.tokens.length s.trees where
  covers := ⟨[], [], by simp [hs.tokensOf_trees], rfl, by simp [hs.tokensOf_trees]⟩
  nested := hs.nested
  matched p hp := by rwa [hs.matching_eq]
  touched p hp _ := by rwa [← hs.matching_eq]

theorem Source.Spans.isClosed (h : s.Spans start stop ts) : s.IsClosed start stop where
  le := h.covers.le
  stop_le := h.covers.stop_le
  closed p hp := by
    constructor
    · exact fun hin => (h.covers.mem_of_mem_pairsOf hs h.nested (h.touched p hp (.inl hin))).2
    · exact fun hin => (h.covers.mem_of_mem_pairsOf hs h.nested (h.touched p hp (.inr hin))).1

/-- A forest is cut between two of its trees. -/
theorem Source.Spans.append (h : s.Spans start stop (ts ++ us)) :
    ∃ m, s.Spans start m ts ∧ s.Spans m stop us := by
  obtain ⟨hts, hus⟩ := h.covers.append
  have hm := hus.le
  have hnested := nestedAll_iff.1 h.nested
  have hnts : NestedAll ts := nestedAll_iff.2 fun t ht => hnested t (List.mem_append_left _ ht)
  have hnus : NestedAll us := nestedAll_iff.2 fun t ht => hnested t (List.mem_append_right _ ht)
  refine ⟨_, ⟨hts, hnts, fun p hp => ?_, fun p hp htouch => ?_⟩,
    ⟨hus, hnus, fun p hp => ?_, fun p hp htouch => ?_⟩⟩
  · exact h.matched p (pairsOf_append ts us ▸ List.mem_append_left _ hp)
  · have hin := h.touched p hp (by omega)
    rw [pairsOf_append] at hin
    refine (List.mem_append.1 hin).resolve_right fun hright => ?_
    have := hus.mem_of_mem_pairsOf hs hnus hright
    omega
  · exact h.matched p (pairsOf_append ts us ▸ List.mem_append_right _ hp)
  · have hle := hts.le
    have hin := h.touched p hp (by omega)
    rw [pairsOf_append] at hin
    refine (List.mem_append.1 hin).resolve_left fun hleft => ?_
    have := hts.mem_of_mem_pairsOf hs hnts hleft
    omega

theorem Source.Spans.suffix (h : s.Spans start stop us) (hts : ts <:+ us) :
    ∃ m ≥ start, s.Spans m stop ts := by
  obtain ⟨vs, rfl⟩ := hts
  obtain ⟨m, hvs, hts⟩ := h.append hs
  exact ⟨m, hvs.covers.le, hts⟩

theorem Source.Spans.tail_of_leaf {t : Token} (h : s.Spans start stop (.leaf t :: ts)) :
    s.tokens[start]? = some t ∧ s.Spans (start + 1) stop ts := by
  rw [← List.singleton_append] at h
  obtain ⟨m, hleaf, hts⟩ := h.append hs
  obtain ⟨-, hget⟩ := hleaf.covers.getElem hs 0 (by simp [tokensOf_leaf])
  obtain ⟨-, -, -, -, hm⟩ := hleaf.covers
  obtain rfl : m = start + 1 := hm
  exact ⟨hget, hts⟩

/-- What stands between the brackets of a group. -/
theorem Source.Spans.inner {o c : Token} {inner : List TokenTree}
    (h : s.Spans start stop [.group o inner c]) :
    ∃ m, stop = m + 1 ∧ o.index = start ∧ c.index = m ∧ s.Spans (start + 1) m inner := by
  have htokens : TokenTree.tokensOf ([.leaf o] ++ (inner ++ [.leaf c])) =
      TokenTree.tokensOf [.group o inner c] := by
    rw [tokensOf_append, tokensOf_append, tokensOf_leaf, tokensOf_leaf, tokensOf_group,
      List.singleton_append]
  have hflat : s.Covers start stop ([.leaf o] ++ (inner ++ [.leaf c])) := by
    rw [Source.Covers, htokens]
    exact h.covers
  obtain ⟨ho, hrest⟩ := hflat.append
  obtain ⟨hinner, hc⟩ := hrest.append
  have hoindex := ho.mem_range hs (t := o) (by simp [tokensOf_leaf])
  have hcindex := hc.mem_range hs (t := c) (by simp [tokensOf_leaf])
  obtain ⟨-, -, -, -, hstop⟩ := hc
  simp only [tokensOf_leaf, List.length_singleton] at hoindex hcindex hinner hstop
  generalize start + 1 + (TokenTree.tokensOf inner).length = m at hcindex hinner hstop
  have hle := hinner.le
  refine ⟨m, hstop, by omega, by omega, hinner, h.nested.1.2.2, fun p hp => ?_,
    fun p hp htouch => ?_⟩
  · exact h.matched p (pairsOf_group o inner c ▸ List.mem_append_left _ hp)
  · have hin := h.touched p hp (by omega)
    rw [pairsOf_group] at hin
    refine (List.mem_append.1 hin).resolve_right fun hown => ?_
    cases List.mem_singleton.1 hown
    dsimp only at htouch
    omega

/-- The tokens of a range are told by their numbers. -/
theorem Source.Formed.filter_index (hle : start ≤ stop) :
    (s.tokens.filter fun t => start ≤ t.index ∧ t.index < stop) = s.slice start stop := by
  have hbefore : (s.tokens.take start).filter (fun t => start ≤ t.index ∧ t.index < stop) = [] := by
    refine List.filter_eq_nil_iff.2 fun t ht => ?_
    obtain ⟨i, hi, rfl⟩ := List.mem_take_iff_getElem.1 ht
    rw [decide_eq_true_eq, hs.index_getElem]
    omega
  have hafter : (s.tokens.drop stop).filter (fun t => start ≤ t.index ∧ t.index < stop) = [] := by
    refine List.filter_eq_nil_iff.2 fun t ht => ?_
    obtain ⟨i, hi, rfl⟩ := List.mem_drop_iff_getElem.1 ht
    rw [decide_eq_true_eq, hs.index_getElem]
    omega
  have hinside : (s.slice start stop).filter (fun t => start ≤ t.index ∧ t.index < stop) =
      s.slice start stop := by
    refine List.filter_eq_self.2 fun t ht => ?_
    obtain ⟨i, hi, rfl⟩ := List.mem_take_iff_getElem.1 ht
    rw [decide_eq_true_eq, List.getElem_drop, hs.index_getElem]
    omega
  nth_rewrite 1 [s.tokens_eq_slice hle]
  rw [List.filter_append, List.filter_append, hbefore, hinside, hafter, List.nil_append,
    List.append_nil]

/-- The forest of a closed range spans it. -/
theorem Source.IsClosed.spans (h : s.IsClosed start stop) :
    s.Spans start stop (s.range start stop).trees where
  covers := by
    have htokens : TokenTree.tokensOf (s.range start stop).trees = s.slice start stop := by
      rw [Source.range, tokensOf_betweenAll start stop s.trees hs.inOrder, hs.tokensOf_trees,
        hs.filter_index h.le]
    have hle := h.le
    have hstop := h.stop_le
    rw [Source.Covers, htokens]
    refine ⟨s.tokens.take start, s.tokens.drop stop, s.tokens_eq_slice hle, ?_, ?_⟩
    · rw [List.length_take]
      omega
    · rw [Source.slice, List.length_take, List.length_drop]
      omega
  nested := hs.nested.betweenAll fun p hp => h.closed p (by rwa [hs.matching_eq])
  matched p hp := by
    rw [hs.matching_eq]
    exact mem_pairsOf_of_betweenAll _ hp
  touched p hp htouch := by
    have hboth := h.closed p hp
    rw [hs.matching_eq] at hp
    exact mem_pairsOf_betweenAll (by omega) _ hp

/-- A range holds the only forest that spans it. -/
theorem Source.Spans.trees_eq (h : s.Spans start stop ts) : (s.range start stop).trees = ts := by
  have hrange := (h.isClosed hs).spans hs
  rw [← hrange.nested.ofTokens_tokensOf, ← hrange.covers.slice_eq, h.covers.slice_eq,
    h.nested.ofTokens_tokensOf]

/-- From the first token to the last, a source holds its whole forest. -/
theorem Source.Formed.range_all : s.range 0 s.tokens.length = s.all := by
  have htrees : betweenAll 0 s.tokens.length s.trees = s.trees := (hs.spans).trees_eq hs
  rw [Source.range, Source.all, htrees, List.getElem?_eq_none (Nat.le_refl _)]

/-- The first and the last token of trees that cover a range. -/
theorem Source.Covers.exists_ends (h : s.Covers start stop ts) (hne : ts ≠ []) :
    ∃ first last, (TokenTree.tokensOf ts).head? = some first ∧
      (TokenTree.tokensOf ts).getLast? = some last ∧
      first.index = start ∧ last.index + 1 = stop ∧ s.tokens[start]? = some first ∧
      s.tokens[stop - 1]? = some last := by
  have hlength := List.length_pos_iff.2 (tokensOf_ne_nil hne)
  obtain ⟨hfirst, hstart⟩ := h.getElem hs 0 hlength
  have hend : (TokenTree.tokensOf ts).length - 1 < (TokenTree.tokensOf ts).length := by omega
  obtain ⟨hlast, hget⟩ := h.getElem hs _ hend
  obtain ⟨-, -, -, -, hstop⟩ := h
  refine ⟨_, _, by rw [List.head?_eq_getElem?, List.getElem?_eq_getElem hlength],
    by rw [List.getLast?_eq_getElem?, List.getElem?_eq_getElem hend], hfirst, by omega, hstart, ?_⟩
  rw [← hget]
  congr 1
  omega

end Spans

/-! ## Ranges of a source -/

theorem first?_eq_head? (r : Range) : r.first? = r.tokens.head? := by
  unfold Range.first? Range.tokens
  cases r.trees with
  | nil => rfl
  | cons t ts => cases t <;> rfl

theorem last?_eq_getLast? (r : Range) : r.last? = r.tokens.getLast? := by
  unfold Range.last? Range.tokens
  cases h : r.trees.getLast? with
  | none => rw [List.getLast?_eq_none_iff.1 h]; rfl
  | some t => exact (getLast?_tokensOf h).symm

/-- A range that is closed, not empty, and told by its first and last token: it holds the part of
the forest between them, and its text is the source from the one to the other. -/
structure Range.IsSlice (source : String) (s : Source) (r : Range) : Prop where
  start_lt : r.start < r.stop
  closed : s.IsClosed r.start r.stop
  trees : r.trees = (s.range r.start r.stop).trees
  tokens : r.tokens = s.slice r.start r.stop
  text : ∃ first last, s.tokens[r.start]? = some first ∧ s.tokens[r.stop - 1]? = some last ∧
    r.text = slice source first.start last.stop

section Ranges

variable {s : Source} {start stop : Nat} {r : Range}

/-- A range is told by the tokens that it stands for. -/
theorem Source.Spans.ends_eq (hs : s.Formed) (h : s.Spans start stop r.trees) (hne : r.trees ≠ []) :
    r.start = start ∧ r.stop = stop ∧ start < stop := by
  obtain ⟨first, last, hfirst, hlast, hstart, hstop, -⟩ := h.covers.exists_ends hs hne
  have hle := (h.covers.mem_range hs (List.mem_of_mem_head? hfirst)).2.1
  refine ⟨?_, ?_, by omega⟩
  · rw [Range.start, first?_eq_head?, Range.tokens, hfirst, ← hstart]
  · rw [Range.stop, last?_eq_getLast?, Range.tokens, hlast, ← hstop]

theorem Source.Spans.isSlice {source : String} (hread : Source.read source = .ok s)
    (h : s.Spans start stop r.trees) (hne : r.trees ≠ []) : r.IsSlice source s := by
  have hs := formed_of_read hread
  obtain ⟨rfl, rfl, hlt⟩ := h.ends_eq hs hne
  obtain ⟨first, last, hfirst, hlast, -, -, hstart, hstop⟩ := h.covers.exists_ends hs hne
  obtain ⟨before, after, htokens, -⟩ := h.covers
  refine ⟨hlt, h.isClosed hs, (h.trees_eq hs).symm, h.covers.slice_eq.symm, first, last,
    hstart, hstop, ?_⟩
  exact textOfTokens_eq_slice hread htokens hfirst hlast

end Ranges

end WidgetBridge.WidgetGrammar
