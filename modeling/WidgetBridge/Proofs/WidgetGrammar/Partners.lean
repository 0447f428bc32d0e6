import WidgetBridge.Proofs.WidgetGrammar.Balance
import WidgetBridge.Proofs.WidgetGrammar.Brackets

/-!
# Partners of brackets

Three stacks of open brackets run over a source: the scanner's, to refuse what is not well nested,
the one of the levels on which the forest is built, and the one of `matchFrom`.  They hold the same
brackets at every step (`held_push`), so that the forest is never asked to close a level that is not
open, and every pair is of one kind.

The pairs of a source are the groups of its forest.  Each bracket stands in exactly one of them
(`NestedAll.ends_perm`), and no two cross (`NestedAll.laminar`); so every bracket has a partner, and
is the partner of its partner (`Source.Paired`).
-/

namespace WidgetBridge.WidgetGrammar

open WidgetBridge.Text

/-! ## Stacks -/

/-- The open levels as the scanner holds them: the brackets that opened them. -/
def TokenTree.Levels.held (l : TokenTree.Levels) : List (String × Place) :=
  l.open_.map fun level => (level.1.text, level.1.place)

section Stacks

variable {l : TokenTree.Levels} {t : Token} {ts : List Token} {next : List (String × Place)}

theorem held_push (h : nextOpen l.held t.lexeme.kind t.text t.place = .ok next) :
    (l.push t).held = next := by
  rcases nextOpen_cases h with ⟨hopens, rfl⟩ | ⟨hcloses, o, hheld, -⟩ | ⟨hplain, rfl⟩
  · rw [push_of_opens hopens]
    rfl
  · obtain ⟨here, open_⟩ := l
    cases open_ with
    | nil => cases hheld
    | cons level open_ =>
      obtain ⟨o', outer⟩ := level
      rw [push_of_closes hcloses]
      exact (List.cons.inj hheld).2
  · obtain ⟨hopens, hcloses⟩ := Bool.or_eq_false_iff.1 hplain
    rw [push_of_plain hopens hcloses]
    rfl

/-- The levels of a forest are those that the scanner holds open. -/
theorem held_foldl_push (h : openAfter l.held (ts.map Token.lexeme) = .ok next) :
    (ts.foldl TokenTree.Levels.push l).held = next := by
  induction ts generalizing l with
  | nil =>
    cases h
    rfl
  | cons t ts ih =>
    obtain ⟨mid, hmid, hts⟩ := exists_of_bind_ok h
    rw [← held_push hmid] at hts
    exact ih hts

/-- A closing bracket finds a level to close. -/
theorem open_ne_nil_of_closes {before after : List Token}
    (h : openAfter [] ((before ++ t :: after).map Token.lexeme) = .ok next)
    (ht : t.lexeme.closes = true) :
    (before.foldl TokenTree.Levels.push {}).open_ ≠ [] := by
  rw [List.map_append, openAfter_append] at h
  obtain ⟨mid, hmid, hrest⟩ := exists_of_bind_ok h
  obtain ⟨last, hlast, -⟩ := exists_of_bind_ok hrest
  obtain ⟨o, rfl, -⟩ := (nextOpen_of_closes ht).1 hlast
  have hheld : (before.foldl TokenTree.Levels.push {}).held = o :: last := held_foldl_push hmid
  intro hnil
  rw [TokenTree.Levels.held, hnil] at hheld
  cases hheld

/-- The brackets of a pair are of one kind.  `open_` are the brackets that are open before. -/
theorem closerOf_of_mem_matchFrom {open_ : List Token}
    (h : openAfter (open_.map fun t => (t.text, t.place)) (ts.map Token.lexeme) = .ok next)
    {p : Nat × Nat} (hp : p ∈ matchFrom (open_.map Token.index) ts) :
    ∃ o ∈ open_ ++ ts, ∃ c ∈ ts, p = (o.index, c.index) ∧ c.lexeme.closes = true ∧
      closerOf o.text = some c.text := by
  induction ts generalizing open_ with
  | nil => cases hp
  | cons t ts ih =>
    obtain ⟨mid, hmid, hts⟩ := exists_of_bind_ok h
    rcases nextOpen_cases hmid with ⟨hopens, rfl⟩ | ⟨hcloses, top, hopen, hkind⟩ | ⟨hplain, rfl⟩
    · rw [matchFrom_of_opens hopens] at hp
      obtain ⟨o, ho, c, hc, hpair⟩ := @ih (t :: open_) hts hp
      refine ⟨o, ?_, c, List.mem_cons_of_mem _ hc, hpair⟩
      simp only [List.mem_append, List.mem_cons] at ho ⊢
      tauto
    · cases open_ with
      | nil => cases hopen
      | cons o open_ =>
        obtain ⟨rfl, rfl⟩ := List.cons.inj hopen
        rw [List.map_cons, matchFrom_of_closes hcloses] at hp
        rcases List.mem_cons.1 hp with rfl | hp
        · exact ⟨o, List.mem_cons_self, t, List.mem_cons_self, rfl, hcloses, hkind⟩
        · obtain ⟨o', ho', c, hc, hpair⟩ := ih hts hp
          refine ⟨o', ?_, c, List.mem_cons_of_mem _ hc, hpair⟩
          simp only [List.mem_append, List.mem_cons] at ho' ⊢
          tauto
    · obtain ⟨hopens, hcloses⟩ := Bool.or_eq_false_iff.1 hplain
      rw [matchFrom_of_plain hopens hcloses] at hp
      obtain ⟨o, ho, c, hc, hpair⟩ := ih hts hp
      refine ⟨o, ?_, c, List.mem_cons_of_mem _ hc, hpair⟩
      simp only [List.mem_append, List.mem_cons] at ho ⊢
      tauto

end Stacks

/-! ## Pairs -/

/-- The two numbers of a pair. -/
def ends (p : Nat × Nat) : List Nat := [p.1, p.2]

mutual

theorem TokenTree.Nested.ends_perm : {t : TokenTree} → t.Nested →
    (t.pairs.flatMap ends).Perm ((t.tokens.filter fun u => u.lexeme.isBracket).map Token.index)
  | .leaf t, h => by
    have hplain : t.lexeme.isBracket = false := by simp [Lexeme.isBracket, h.1, h.2]
    simp [TokenTree.pairs, TokenTree.tokens, hplain]
  | .group o ts c, h => by
    have ho : o.lexeme.isBracket = true := by simp [Lexeme.isBracket, h.1]
    have hc : c.lexeme.isBracket = true := by simp [Lexeme.isBracket, h.2.1]
    have hinner := NestedAll.ends_perm h.2.2
    have hfilter : (TokenTree.group o ts c).tokens.filter (fun u => u.lexeme.isBracket) =
        o :: ((TokenTree.tokensOf ts).filter (fun u => u.lexeme.isBracket) ++ [c]) := by
      simp [TokenTree.tokens, ho, hc]
    rw [hfilter, TokenTree.pairs, List.flatMap_append, List.map_cons, List.map_append]
    exact List.perm_middle.trans ((hinner.append_right _).cons _)

/-- Every bracket of a forest stands in exactly one pair. -/
theorem NestedAll.ends_perm : {ts : List TokenTree} → NestedAll ts →
    ((pairsOf ts).flatMap ends).Perm
      (((TokenTree.tokensOf ts).filter fun u => u.lexeme.isBracket).map Token.index)
  | [], _ => List.Perm.nil
  | t :: ts, h => by
    rw [pairsOf, TokenTree.tokensOf, List.flatMap_append, List.filter_append, List.map_append]
    exact (TokenTree.Nested.ends_perm h.1).append (NestedAll.ends_perm h.2)

end

/-- Pairs of numbers in order, each of which stands inside or outside every other. -/
def Laminar (ps : List (Nat × Nat)) : Prop :=
  ∀ p ∈ ps, p.1 < p.2 ∧ ∀ q ∈ ps, p.1 < q.1 → q.1 < p.2 → q.2 < p.2

mutual

theorem TokenTree.Nested.laminar : {t : TokenTree} → t.Nested → InOrder [t] → Laminar t.pairs
  | .leaf _, _, _ => List.forall_mem_nil _
  | .group o ts c, h, horder => by
    have hinner := NestedAll.laminar h.2.2 horder.inner
    rw [InOrder, tokensOf_group, List.pairwise_cons, List.pairwise_append] at horder
    obtain ⟨hfirst, -, -, hlast⟩ := horder
    have hoc : o.index < c.index := hfirst c (by simp)
    have hin {q : Nat × Nat} (hq : q ∈ pairsOf ts) : o.index < q.1 ∧ q.2 < c.index := by
      obtain ⟨u, hu, v, hv, rfl, -⟩ := NestedAll.exists_of_mem_pairsOf h.2.2 hq
      exact ⟨hfirst u (List.mem_append_left _ hu), hlast v hv c (by simp)⟩
    intro p hp
    rcases List.mem_append.1 hp with hp | hp
    · refine ⟨(hinner p hp).1, fun q hq hstart hstop => ?_⟩
      rcases List.mem_append.1 hq with hq | hq
      · exact (hinner p hp).2 q hq hstart hstop
      · cases List.mem_singleton.1 hq
        have hbounds := hin hp
        dsimp only at hstart
        omega
    · cases List.mem_singleton.1 hp
      refine ⟨hoc, fun q hq hstart hstop => ?_⟩
      rcases List.mem_append.1 hq with hq | hq
      · exact (hin hq).2
      · cases List.mem_singleton.1 hq
        exact absurd hstart (Nat.lt_irrefl _)

/-- The pairs of a forest do not cross. -/
theorem NestedAll.laminar : {ts : List TokenTree} → NestedAll ts → InOrder ts → Laminar (pairsOf ts)
  | [], _, _ => List.forall_mem_nil _
  | t :: ts, h, horder => by
    rw [← List.singleton_append] at horder
    have hfirst := TokenTree.Nested.laminar h.1 horder.left
    have hrest := NestedAll.laminar h.2 horder.right
    have hapart {p q : Nat × Nat} (hp : p ∈ t.pairs) (hq : q ∈ pairsOf ts) : p.1 < q.1 ∧
        p.2 < q.1 := by
      obtain ⟨o, ho, c, hc, rfl, -⟩ := TokenTree.Nested.exists_of_mem_pairs h.1 hp
      obtain ⟨o', ho', c', -, rfl, -⟩ := NestedAll.exists_of_mem_pairsOf h.2 hq
      have htokens : TokenTree.tokensOf [t] = t.tokens := by simp [TokenTree.tokensOf]
      rw [← htokens] at ho hc
      exact ⟨horder.lt ho ho', horder.lt hc ho'⟩
    intro p hp
    rcases List.mem_append.1 hp with hp | hp
    · refine ⟨(hfirst p hp).1, fun q hq hstart hstop => ?_⟩
      rcases List.mem_append.1 hq with hq | hq
      · exact (hfirst p hp).2 q hq hstart hstop
      · have hafter := hapart hp hq
        omega
    · refine ⟨(hrest p hp).1, fun q hq hstart hstop => ?_⟩
      rcases List.mem_append.1 hq with hq | hq
      · have hafter := hapart hq hp
        omega
      · exact (hrest p hp).2 q hq hstart hstop

end

/-! ## Partners -/

/-- The other number of the pair in which a number stands. -/
def partnerIn : List (Nat × Nat) → Nat → Option Nat
  | [], _ => none
  | p :: ps, i => if p.1 = i then some p.2 else if p.2 = i then some p.1 else partnerIn ps i

theorem mem_ends_of_mem {ps : List (Nat × Nat)} {i j : Nat} (h : (i, j) ∈ ps ∨ (j, i) ∈ ps) :
    i ∈ ps.flatMap ends := by
  rcases h with h | h
  · exact List.mem_flatMap.2 ⟨_, h, by simp [ends]⟩
  · exact List.mem_flatMap.2 ⟨_, h, by simp [ends]⟩

/-- Where each number stands in one pair, a number has the partner that its pair gives it. -/
theorem partnerIn_eq_some_iff {ps : List (Nat × Nat)} (hps : (ps.flatMap ends).Nodup) {i j : Nat} :
    partnerIn ps i = some j ↔ (i, j) ∈ ps ∨ (j, i) ∈ ps := by
  induction ps with
  | nil => simp [partnerIn]
  | cons p ps ih =>
    obtain ⟨a, b⟩ := p
    have hnodup : (a :: b :: ps.flatMap ends).Nodup := hps
    rw [List.nodup_cons, List.nodup_cons, List.mem_cons, not_or] at hnodup
    obtain ⟨⟨hab, ha⟩, hb, hrest⟩ := hnodup
    simp only [List.mem_cons, Prod.mk.injEq]
    unfold partnerIn
    by_cases hia : a = i
    · subst hia
      have hnone : ¬((a, j) ∈ ps ∨ (j, a) ∈ ps) := fun h => ha (mem_ends_of_mem h)
      rw [if_pos rfl, Option.some.injEq]
      grind
    · rw [if_neg hia]
      by_cases hib : b = i
      · subst hib
        have hnone : ¬((b, j) ∈ ps ∨ (j, b) ∈ ps) := fun h => hb (mem_ends_of_mem h)
        rw [if_pos rfl, Option.some.injEq]
        grind
      · rw [if_neg hib, ih hrest]
        grind

theorem isSome_partnerIn_iff {ps : List (Nat × Nat)} {i : Nat} :
    (partnerIn ps i).isSome = true ↔ i ∈ ps.flatMap ends := by
  induction ps with
  | nil => simp [partnerIn]
  | cons p ps ih =>
    rw [List.flatMap_cons, List.mem_append, ← ih, partnerIn]
    split_ifs with hfirst hsecond
    · simp [ends, hfirst]
    · simp [ends, hsecond]
    · have hne : i ∉ ends p := by
        simp only [ends, List.mem_cons, List.not_mem_nil, or_false, not_or]
        exact ⟨fun h => hfirst h.symm, fun h => hsecond h.symm⟩
      simp [hne]

/-- The token at the other end of the pair in which a token stands. -/
def Source.partner? (s : Source) (i : Nat) : Option Nat := partnerIn s.matching i

/-- Brackets that pair off: the pairs are the groups of the forest, all brackets and no other tokens
have a partner, that of an opening bracket is a later one of its kind, and pairs do not cross. -/
structure Source.Paired (s : Source) : Prop where
  groups : s.matching = pairsOf s.trees
  isSome_iff : ∀ i, (s.partner? i).isSome = true ↔
    ∃ t, s.tokens[i]? = some t ∧ t.lexeme.isBracket = true
  symm : ∀ i j, s.partner? i = some j → s.partner? j = some i
  closer : ∀ i t, s.tokens[i]? = some t → t.lexeme.opens = true →
    ∃ j u, s.partner? i = some j ∧ i < j ∧
    s.tokens[j]? = some u ∧ u.lexeme.closes = true ∧ closerOf t.text = some u.text
  nested : ∀ i j k l, s.partner? i = some j → s.partner? k = some l → i < k → k < j → i < l ∧ l < j

section Source

variable {s : Source} (hs : s.Formed)

include hs

theorem Source.Formed.getElem?_index {t : Token} (ht : t ∈ s.tokens) :
    s.tokens[t.index]? = some t := by
  obtain ⟨i, hi, rfl⟩ := List.getElem_of_mem ht
  rw [hs.index_getElem, List.getElem?_eq_getElem hi]

theorem Source.Formed.ends_perm :
    (s.matching.flatMap ends).Perm
      ((s.tokens.filter fun u => u.lexeme.isBracket).map Token.index) := by
  rw [hs.matching_eq, ← hs.tokensOf_trees]
  exact hs.nested.ends_perm

theorem Source.Formed.nodup_ends : (s.matching.flatMap ends).Nodup := by
  rw [hs.ends_perm.nodup_iff]
  have horder := hs.inOrder
  rw [InOrder, hs.tokensOf_trees] at horder
  have hfilter := horder.filter fun u => u.lexeme.isBracket
  exact (List.pairwise_map.2 hfilter).imp fun hlt => Nat.ne_of_lt hlt

theorem Source.Formed.mem_ends_iff {i : Nat} :
    i ∈ s.matching.flatMap ends ↔ ∃ t, s.tokens[i]? = some t ∧ t.lexeme.isBracket = true := by
  rw [hs.ends_perm.mem_iff, List.mem_map]
  constructor
  · rintro ⟨t, ht, rfl⟩
    obtain ⟨ht, hbracket⟩ := List.mem_filter.1 ht
    exact ⟨t, hs.getElem?_index ht, hbracket⟩
  · rintro ⟨t, ht, hbracket⟩
    have hmem := List.mem_of_getElem? ht
    obtain ⟨hi, hget⟩ := List.getElem?_eq_some_iff.1 ht
    exact ⟨t, List.mem_filter.2 ⟨hmem, hbracket⟩, by rw [← hget, hs.index_getElem]⟩

theorem Source.Formed.partner?_eq_some_iff {i j : Nat} :
    s.partner? i = some j ↔ (i, j) ∈ s.matching ∨ (j, i) ∈ s.matching :=
  partnerIn_eq_some_iff hs.nodup_ends

/-- The brackets of a source pair off, if the scanner's stack is empty at its end. -/
theorem Source.Formed.paired (hopen : openAfter [] (s.tokens.map Token.lexeme) = .ok []) :
    s.Paired := by
  have hsymm (i j : Nat) (h : s.partner? i = some j) : s.partner? j = some i := by
    rw [hs.partner?_eq_some_iff] at h ⊢
    exact h.symm
  have hlaminar : Laminar s.matching := by
    rw [hs.matching_eq]
    exact hs.nested.laminar hs.inOrder
  refine ⟨hs.matching_eq, fun i => ?_, hsymm, fun i t ht hopens => ?_,
    fun i j k l hij hkl hik hkj => ?_⟩
  · rw [Source.partner?, isSome_partnerIn_iff, hs.mem_ends_iff]
  · have hbracket : t.lexeme.isBracket = true := by simp [Lexeme.isBracket, hopens]
    have hi := hs.mem_ends_iff.2 ⟨t, ht, hbracket⟩
    obtain ⟨p, hp, hip⟩ := List.mem_flatMap.1 hi
    obtain ⟨o, ho, c, hc, rfl, hcloses, hkind⟩ :=
      @closerOf_of_mem_matchFrom s.tokens [] [] hopen p hp
    have ho := hs.getElem?_index ho
    have hc := hs.getElem?_index hc
    have hlt := (hlaminar _ hp).1
    simp only [ends, List.mem_cons, List.not_mem_nil, or_false] at hip
    rcases hip with rfl | rfl
    · rw [ho, Option.some.injEq] at ht
      subst ht
      exact ⟨c.index, c, hs.partner?_eq_some_iff.2 (.inl hp), hlt, hc, hcloses, hkind⟩
    · rw [hc, Option.some.injEq] at ht
      subst ht
      rw [Lexeme.not_closes_of_opens hopens] at hcloses
      cases hcloses
  · -- were the two pairs to share a token, they would be the same
    have hil : i ≠ l := by
      rintro rfl
      have hjk := hsymm _ _ hkl
      rw [hij, Option.some.injEq] at hjk
      omega
    rcases hs.partner?_eq_some_iff.1 hij with hij | hji
    · rcases hs.partner?_eq_some_iff.1 hkl with hkl | hlk
      · have hlt := (hlaminar _ hkl).1
        have hin := (hlaminar _ hij).2 _ hkl hik hkj
        dsimp only at hlt hin
        omega
      · have hlt := (hlaminar _ hlk).1
        have hin := (hlaminar _ hlk).2 _ hij
        dsimp only at hlt hin
        omega
    · have hlt := (hlaminar _ hji).1
      dsimp only at hlt
      omega

end Source

/-! ## Sources -/

/-- The tokens are the lexemes but for the comments. -/
theorem map_lexeme_attach (index : Nat) (pending ls : List Lexeme) :
    (TokenTree.attach index pending ls).1.map Token.lexeme = ls.filter fun l =>
      l.kind != .comment := by
  induction ls generalizing index pending with
  | nil => rfl
  | cons l ls ih =>
    unfold TokenTree.attach
    split_ifs with hcomment
    · rw [ih, List.filter_cons_of_neg (by simpa using hcomment)]
    · rw [List.map_cons, ih, List.filter_cons_of_pos (by simpa using hcomment)]

/-- Comments are no brackets: the scanner's stack is the same over the tokens. -/
theorem openAfter_attach {ls : List Lexeme} (h : WellNested (bracketTexts ls)) (index : Nat)
    (pending : List Lexeme) :
    openAfter [] ((TokenTree.attach index pending ls).1.map Token.lexeme) = .ok [] := by
  rw [map_lexeme_attach, openAfter_filter, openAfter_eq_nil_iff.2 h]
  intro l hl hcomment
  by_contra hbracket
  rw [kind_of_isBracket (by simpa using hbracket)] at hcomment
  cases hcomment

theorem head_append_not_mem_faultMessages {head : String}
    (h : ∀ m ∈ faultMessages, head.toList.isPrefixOf m.toList = false) (rest : String) :
    head ++ rest ∉ faultMessages := by
  intro hmem
  have hfalse := h _ hmem
  rw [String.toList_append, List.isPrefixOf_iff_prefix.2 (List.prefix_append _ _)] at hfalse
  cases hfalse

/-- Where the brackets are well nested, a source is refused for what a scanner says, if at all. -/
theorem message_of_wellNested {source message : String} {place : Place}
    (h : WellNested (bracketTexts (lexemesOf source).1))
    (hscan : Lexeme.scan source = .error (.malformed message place)) : message ∈ faultMessages := by
  rw [scan_of_wellNested h] at hscan
  cases hfault : (lexemesOf source).2 with
  | none =>
    rw [hfault] at hscan
    cases hscan
  | some f =>
    rw [hfault] at hscan
    cases hscan
    exact message_of_lexemesFrom hfault

/-- A source is read if it is all lexemes and its brackets are well nested, and these then pair off;
no bracket is found at fault in a source whose brackets are well nested. -/
theorem brackets_pair_off (source : String) :
    (∀ ls, Lexeme.scan source = .ok ls ↔
      lexemesOf source = (ls, none) ∧ WellNested (bracketTexts ls)) ∧
    (∀ ls, Lexeme.scan source = .ok ls → ∃ s, Source.read source = .ok s ∧
      s.tokens.map Token.lexeme = (ls.filter fun l => l.kind != .comment) ∧
      (∀ before t after, s.tokens = before ++ t :: after → t.lexeme.closes = true →
        (before.foldl TokenTree.Levels.push {}).open_ ≠ []) ∧
      (s.tokens.foldl TokenTree.Levels.push {}).open_ = [] ∧ s.Paired) ∧
    (WellNested (bracketTexts (lexemesOf source).1) → ∀ text place,
      Lexeme.scan source ≠ .error (.malformed ("unbalanced '" ++ text ++ "'") place) ∧
        Lexeme.scan source ≠ .error (.malformed ("unclosed '" ++ text ++ "'") place)) := by
  refine ⟨fun ls => scan_eq_ok_iff, fun ls hscan => ?_, fun hnested text place =>
    ⟨fun hscan => ?_, fun hscan => ?_⟩⟩
  · obtain ⟨s, hread, htokens⟩ : ∃ s, Source.read source = .ok s ∧
        s.tokens = (TokenTree.attach 0 [] ls).1 := by
      rw [Source.read, hscan]
      exact ⟨_, rfl, rfl⟩
    have hopen := openAfter_attach (scan_eq_ok_iff.1 hscan).2 0 []
    rw [← htokens] at hopen
    refine ⟨s, hread, ?_, fun before t after hsplit hcloses => ?_, ?_,
      (formed_of_read hread).paired hopen⟩
    · rw [htokens, map_lexeme_attach]
    · rw [hsplit] at hopen
      exact open_ne_nil_of_closes hopen hcloses
    · have hheld := @held_foldl_push {} _ _ hopen
      exact List.map_eq_nil_iff.1 hheld
  · have hmessage := message_of_wellNested hnested hscan
    rw [String.append_assoc] at hmessage
    exact head_append_not_mem_faultMessages (by decide) _ hmessage
  · have hmessage := message_of_wellNested hnested hscan
    rw [String.append_assoc] at hmessage
    exact head_append_not_mem_faultMessages (by decide) _ hmessage

/-- Brackets of all kinds, and some in a comment and in texts. -/
def bracketedSource : String := "f([a, \x7bb: (1)\x7d]) /* ( */ + ')' + '$\x7bg[0]\x7d'"

/-- A text that does not end, behind a pair of brackets. -/
def bracketsBeforeFault : String := "( ) '"

theorem brackets_pair_off_bracketedSource :
    (∃ ls s, Lexeme.scan bracketedSource = .ok ls ∧ lexemesOf bracketedSource = (ls, none) ∧
      WellNested (bracketTexts ls) ∧ Source.read bracketedSource = .ok s ∧ s.tokens.length = 18 ∧
      s.partner? 5 = some 11 ∧ s.Paired) ∧
    WellNested (bracketTexts (lexemesOf bracketsBeforeFault).1) ∧
      (Lexeme.scan bracketsBeforeFault).toOption.isNone = true ∧
      Lexeme.scan bracketsBeforeFault ≠
        .error (.malformed ("unclosed '" ++ "(" ++ "'") ⟨1, 1⟩) := by
  have hscan : (Lexeme.scan bracketedSource).toOption.any (fun ls => ls.length == 19) = true := by
    decide +kernel
  obtain ⟨ls, hscan, -⟩ := exists_ok_of_any hscan
  have hread : (Source.read bracketedSource).toOption.any
      (fun s => s.tokens.length == 18 && s.partner? 5 == some 11) = true := by decide +kernel
  obtain ⟨s, hread, htest⟩ := exists_ok_of_any hread
  obtain ⟨hlength, hpartner⟩ := Bool.and_eq_true_iff.1 htest
  obtain ⟨hiff, hpairs, -⟩ := brackets_pair_off bracketedSource
  obtain ⟨s', hread', -, -, -, hpaired⟩ := hpairs ls hscan
  rw [hread, Except.ok.injEq] at hread'
  rw [← hread'] at hpaired
  obtain ⟨hlexemes, hnested⟩ := (hiff ls).1 hscan
  have hbrackets : bracketTexts (lexemesOf bracketsBeforeFault).1 = ["(", ")"] := by decide +kernel
  have hpair : WellNested (bracketTexts (lexemesOf bracketsBeforeFault).1) := by
    rw [hbrackets]
    exact WellNested.group rfl .nil .nil
  have hrefused : (Lexeme.scan bracketsBeforeFault).toOption.isNone = true := by decide +kernel
  exact ⟨⟨ls, s, hscan, hlexemes, hnested, hread, beq_iff_eq.1 hlength, beq_iff_eq.1 hpartner,
    hpaired⟩, hpair, hrefused, ((brackets_pair_off bracketsBeforeFault).2.2 hpair "(" ⟨1, 1⟩).2⟩

end WidgetBridge.WidgetGrammar
