import WidgetBridge.Proofs.WidgetGrammar.Extension

/-!
# Source in another place

A source that is read by itself can be put into another one.  Its tokens then have other indices and
places, and another gap before the first of them; `bare` leaves out what depends on the place.

* Brackets of a source that can be read match (`NestedAll`), so that its tokens become the same
  forest on every level (`NestedAll.foldl_push`).
* `exists_transplanted` puts a source on one line, with nothing before its first and after its last
  token, into another: its part of the forest is the same but for its place, and so is its text.
-/

namespace WidgetBridge.WidgetGrammar

open WidgetBridge.Text

/-! ## Matching brackets -/

/-- Whether a lexeme is an opening bracket. -/
def Lexeme.opens (l : Lexeme) : Bool := l.kind == .punct && (closerOf l.text).isSome

/-- Whether a lexeme is a closing bracket. -/
def Lexeme.closes (l : Lexeme) : Bool := l.kind == .punct && (openerOf l.text).isSome

theorem Lexeme.not_closes_of_opens {l : Lexeme} (h : l.opens = true) : l.closes = false := by
  obtain ⟨hk, ht⟩ := Bool.and_eq_true_iff.1 h
  unfold closerOf at ht
  unfold Lexeme.closes
  split at ht
  · next heq => simp [heq, openerOf]
  · next heq => simp [heq, openerOf]
  · next heq => simp [heq, openerOf]
  · cases ht

theorem Lexeme.not_opens_of_closes {l : Lexeme} (h : l.closes = true) : l.opens = false := by
  by_contra hopens
  rw [Lexeme.not_closes_of_opens (by simpa using hopens)] at h
  cases h

mutual

/-- A tree whose groups are brackets around what is no bracket. -/
def TokenTree.Nested : TokenTree → Prop
  | .leaf t => t.lexeme.opens = false ∧ t.lexeme.closes = false
  | .group o ts c => o.lexeme.opens = true ∧ c.lexeme.closes = true ∧ NestedAll ts

/-- A forest whose groups are brackets around what is no bracket. -/
def NestedAll : List TokenTree → Prop
  | [] => True
  | t :: ts => t.Nested ∧ NestedAll ts

end

theorem nestedAll_iff {ts : List TokenTree} : NestedAll ts ↔ ∀ t ∈ ts, t.Nested := by
  induction ts with
  | nil => simp [NestedAll]
  | cons t ts ih => simp [NestedAll, ih]

theorem push_of_opens {t : Token} (h : t.lexeme.opens = true) (l : TokenTree.Levels) :
    l.push t = ⟨[], (t, l.here) :: l.open_⟩ := by
  have h : (t.lexeme.kind == .punct && (closerOf t.text).isSome) = true := h
  unfold TokenTree.Levels.push
  rw [if_pos h]

theorem push_of_closes {t : Token} (h : t.lexeme.closes = true)
    (here outer : List TokenTree) (o : Token) (rest : List (Token × List TokenTree)) :
    TokenTree.Levels.push ⟨here, (o, outer) :: rest⟩ t =
      ⟨.group o here.reverse t :: outer, rest⟩ := by
  have hopens : (t.lexeme.kind == .punct && (closerOf t.text).isSome) = false :=
    Lexeme.not_opens_of_closes h
  have h : (t.lexeme.kind == .punct && (openerOf t.text).isSome) = true := h
  unfold TokenTree.Levels.push
  rw [hopens, if_neg Bool.false_ne_true, if_pos h]

theorem push_of_plain {t : Token} (ho : t.lexeme.opens = false) (hc : t.lexeme.closes = false)
    (l : TokenTree.Levels) : l.push t = { l with here := .leaf t :: l.here } := by
  have ho : (t.lexeme.kind == .punct && (closerOf t.text).isSome) = false := ho
  have hc : (t.lexeme.kind == .punct && (openerOf t.text).isSome) = false := hc
  unfold TokenTree.Levels.push
  rw [ho, hc, if_neg Bool.false_ne_true, if_neg Bool.false_ne_true]

mutual

theorem TokenTree.Nested.foldl_push : {t : TokenTree} → t.Nested → ∀ l : TokenTree.Levels,
    t.tokens.foldl TokenTree.Levels.push l = { l with here := t :: l.here }
  | .leaf t, h, l => push_of_plain h.1 h.2 l
  | .group o ts c, h, l => by
    rw [TokenTree.tokens, List.cons_append, List.foldl_cons, List.foldl_append, push_of_opens h.1,
      NestedAll.foldl_push h.2.2, List.foldl_cons, List.foldl_nil, push_of_closes h.2.1]
    simp

/-- The tokens of a forest whose brackets match become the forest on the level at hand. -/
theorem NestedAll.foldl_push : {ts : List TokenTree} → NestedAll ts → ∀ l : TokenTree.Levels,
    (TokenTree.tokensOf ts).foldl TokenTree.Levels.push l = { l with here := ts.reverse ++ l.here }
  | [], _, l => rfl
  | t :: ts, h, l => by
    rw [TokenTree.tokensOf, List.foldl_append, TokenTree.Nested.foldl_push h.1,
      NestedAll.foldl_push h.2]
    simp

end

/-! ## Open brackets -/

theorem openerOf_of_closerOf {o c : String} (h : closerOf o = some c) : openerOf c = some o := by
  unfold closerOf at h
  split at h <;> cases h <;> rfl

theorem closerOf_of_openerOf {o c : String} (h : openerOf c = some o) : closerOf o = some c := by
  unfold openerOf at h
  split at h <;> cases h <;> rfl

/-- Whether a lexeme is a bracket. -/
def Lexeme.isBracket (l : Lexeme) : Bool := l.opens || l.closes

theorem Lexeme.isBracket_eq (l : Lexeme) : l.isBracket = l.word.isBracket :=
  (Bool.and_or_distrib_left _ _ _).symm

section Steps

variable {stack next : List (String × Place)} {l : Lexeme} {place : Place}

theorem nextOpen_of_opens (h : l.opens = true) :
    nextOpen stack l.kind l.text place = .ok ((l.text, place) :: stack) := by
  obtain ⟨hkind, hopen⟩ := Bool.and_eq_true_iff.1 h
  unfold nextOpen
  rw [if_neg (by simpa using hkind), if_pos hopen]

theorem nextOpen_of_plain (h : l.isBracket = false) :
    nextOpen stack l.kind l.text place = .ok stack := by
  rw [l.isBracket_eq] at h
  exact nextOpen_of_not_isBracket h stack place

/-- A closing bracket takes the bracket of its kind off the stack. -/
theorem nextOpen_of_closes (h : l.closes = true) : nextOpen stack l.kind l.text place = .ok next ↔
    ∃ o, stack = o :: next ∧ closerOf o.1 = some l.text := by
  obtain ⟨hkind, hclose⟩ := Bool.and_eq_true_iff.1 h
  have hopens : ¬(closerOf l.text).isSome = true := by
    intro hopen
    have hplain := Lexeme.not_opens_of_closes h
    rw [Lexeme.opens, hkind, hopen] at hplain
    cases hplain
  obtain ⟨opener, hopener⟩ := Option.isSome_iff_exists.1 hclose
  have hcloser := closerOf_of_openerOf hopener
  unfold nextOpen
  rw [if_neg (by simpa using hkind), if_neg hopens, hopener]
  dsimp only
  cases stack with
  | nil =>
    refine ⟨fun hnext => ?_, fun ⟨o, heq, _⟩ => ?_⟩
    · cases hnext
    · cases heq
  | cons top rest =>
    dsimp only
    split_ifs with htop
    · rw [beq_iff_eq] at htop
      refine ⟨fun hnext => ?_, fun ⟨o, heq, _⟩ => ?_⟩
      · cases hnext
        exact ⟨top, rfl, by rw [htop, hcloser]⟩
      · cases heq
        rfl
    · refine ⟨fun hnext => ?_, fun ⟨o, heq, ho⟩ => ?_⟩
      · cases hnext
      · cases heq
        rw [openerOf_of_closerOf ho, Option.some.injEq] at hopener
        exact absurd (beq_iff_eq.2 hopener) htop

/-- What a lexeme does to the stack. -/
theorem nextOpen_cases (h : nextOpen stack l.kind l.text place = .ok next) :
    (l.opens = true ∧ next = (l.text, place) :: stack) ∨
      (l.closes = true ∧ ∃ o, stack = o :: next ∧ closerOf o.1 = some l.text) ∨
      (l.isBracket = false ∧ next = stack) := by
  by_cases hopens : l.opens = true
  · rw [nextOpen_of_opens hopens] at h
    cases h
    exact .inl ⟨hopens, rfl⟩
  · by_cases hcloses : l.closes = true
    · exact .inr (.inl ⟨hcloses, (nextOpen_of_closes hcloses).1 h⟩)
    · have hplain : l.isBracket = false := by simp [Lexeme.isBracket, hopens, hcloses]
      rw [nextOpen_of_plain hplain] at h
      cases h
      exact .inr (.inr ⟨hplain, rfl⟩)

theorem length_of_nextOpen (h : nextOpen stack l.kind l.text place = .ok next) :
    if l.opens then next.length = stack.length + 1
    else if l.closes then stack.length = next.length + 1
    else next.length = stack.length := by
  rcases nextOpen_cases h with ⟨hopens, rfl⟩ | ⟨hcloses, o, rfl, -⟩ | ⟨hplain, rfl⟩
  · rw [if_pos hopens]
    rfl
  · rw [if_neg (by simp [Lexeme.not_opens_of_closes hcloses]), if_pos hcloses]
    rfl
  · obtain ⟨hopens, hcloses⟩ := Bool.or_eq_false_iff.1 hplain
    rw [if_neg (by simp [hopens]), if_neg (by simp [hcloses])]

end Steps

/-! ## Balanced lexemes -/

/-- Lexemes that close as many brackets as are open, and none before it is opened. -/
def Balanced : (depth : Nat) → List Lexeme → Prop
  | depth, [] => depth = 0
  | depth, l :: ls =>
    if l.opens then Balanced (depth + 1) ls
    else if l.closes then 0 < depth ∧ Balanced (depth - 1) ls
    else Balanced depth ls

theorem balanced_of_scanFrom {stack : List (String × Place)} {blank : List Char} {spot : Spot}
    {cs : List Char} {ls : List Lexeme} (h : scanFrom stack blank spot cs = .ok ls) :
    Balanced stack.length ls := by
  fun_induction scanFrom stack blank spot cs generalizing ls with
  | case1 => cases h; rfl
  | case2 => cases h
  | case3 stack blank spot c cs hblank ih => exact ih h
  | case4 => cases h
  | case5 => cases h
  | case6 stack blank spot c cs hblank cut hcut chars text =>
    rename_i ih
    obtain ⟨next, hopen, h⟩ := exists_of_bind_ok h
    obtain ⟨ms, hscan, h⟩ := exists_of_bind_ok h
    cases h
    have hrest := ih next hscan
    have hlen := length_of_nextOpen (l := ⟨cut.kind, text, String.ofList blank.reverse, spot.offset,
      spot.place, cut.parts⟩) hopen
    unfold Balanced
    split_ifs at hlen ⊢
    · rwa [← hlen]
    · exact ⟨by omega, by rwa [hlen, Nat.add_sub_cancel]⟩
    · rwa [← hlen]

/-! ## From balanced lexemes to matching brackets -/

/-- Levels on which all brackets match so far. -/
structure TokenTree.Levels.Nested (l : TokenTree.Levels) : Prop where
  here : ∀ t ∈ l.here, t.Nested
  open_ : ∀ o ∈ l.open_, o.1.lexeme.opens = true ∧ ∀ t ∈ o.2, t.Nested

theorem nested_attach {ls : List Lexeme} (index : Nat) (pending : List Lexeme)
    {l : TokenTree.Levels} (hl : l.Nested) (hb : Balanced l.open_.length ls) :
    ∃ here, (TokenTree.attach index pending ls).1.foldl TokenTree.Levels.push l = ⟨here, []⟩ ∧
      ∀ t ∈ here, t.Nested := by
  induction ls generalizing index pending l with
  | nil =>
    obtain ⟨here, levels⟩ := l
    obtain rfl : levels = [] := List.length_eq_zero_iff.1 hb
    exact ⟨here, rfl, hl.here⟩
  | cons m ls ih =>
    unfold TokenTree.attach
    split_ifs with hcomment
    · have hopens : m.opens = false := by simp [Lexeme.opens, beq_iff_eq.1 hcomment]
      have hcloses : m.closes = false := by simp [Lexeme.closes, beq_iff_eq.1 hcomment]
      rw [Balanced, hopens, hcloses] at hb
      exact ih _ _ hl hb
    · obtain ⟨here, levels⟩ := l
      dsimp only
      rw [List.foldl_cons]
      unfold Balanced at hb
      by_cases hopens : m.opens = true
      · rw [if_pos hopens] at hb
        rw [push_of_opens hopens]
        exact ih _ _
          ⟨List.forall_mem_nil _, List.forall_mem_cons.2 ⟨⟨hopens, hl.here⟩, hl.open_⟩⟩ hb
      · rw [if_neg hopens] at hb
        by_cases hcloses : m.closes = true
        · rw [if_pos hcloses] at hb
          obtain ⟨⟨o, outer⟩, rest, rfl⟩ := List.exists_cons_of_length_pos hb.1
          obtain ⟨⟨hopen, houter⟩, hrest⟩ := List.forall_mem_cons.1 hl.open_
          rw [push_of_closes hcloses]
          refine ih _ _ ⟨List.forall_mem_cons.2 ⟨⟨hopen, hcloses, ?_⟩, houter⟩, hrest⟩ hb.2
          exact nestedAll_iff.2 fun t ht => hl.here t (List.mem_reverse.1 ht)
        · rw [if_neg hcloses] at hb
          rw [push_of_plain (by simpa using hopens) (by simpa using hcloses)]
          exact ih _ _
            ⟨List.forall_mem_cons.2 ⟨⟨by simpa using hopens, by simpa using hcloses⟩, hl.here⟩,
            hl.open_⟩ hb

/-- The brackets of a source match. -/
theorem nestedAll_of_read {source : String} {s : Source} (h : Source.read source = .ok s) :
    NestedAll s.trees := by
  obtain ⟨ls, hscan, h⟩ := exists_of_bind_ok h
  cases h
  obtain ⟨here, hfold, hhere⟩ := nested_attach 0 [] (l := {})
    ⟨List.forall_mem_nil _, List.forall_mem_nil _⟩ (balanced_of_scanFrom hscan)
  dsimp only
  rw [TokenTree.ofTokens, hfold]
  exact nestedAll_iff.2 fun t ht => hhere t (List.mem_reverse.1 ht)

/-! ## What depends on the place -/

/-- A token without what depends on its place. -/
def Token.bare (t : Token) : Token :=
  ⟨⟨t.lexeme.kind, t.lexeme.text, "", 0, ⟨1, 1⟩, t.lexeme.parts⟩, 0, []⟩

mutual

/-- A tree without what depends on its place. -/
def TokenTree.bare : TokenTree → TokenTree
  | .leaf t => .leaf t.bare
  | .group o ts c => .group o.bare (bareAll ts) c.bare

/-- A forest without what depends on its place. -/
def bareAll : List TokenTree → List TokenTree
  | [] => []
  | t :: ts => t.bare :: bareAll ts

end

@[simp] theorem bareAll_nil : bareAll [] = [] := rfl

@[simp] theorem bareAll_cons (t : TokenTree) (ts : List TokenTree) :
    bareAll (t :: ts) = t.bare :: bareAll ts := rfl

theorem bareAll_eq_map (ts : List TokenTree) : bareAll ts = ts.map TokenTree.bare := by
  induction ts with
  | nil => rfl
  | cons t ts ih => rw [bareAll_cons, ih, List.map_cons]

mutual

theorem TokenTree.nested_bare : (t : TokenTree) → (t.bare.Nested ↔ t.Nested)
  | .leaf _ => Iff.rfl
  | .group _ ts _ => and_congr Iff.rfl (and_congr Iff.rfl (nestedAll_bareAll ts))

theorem nestedAll_bareAll : (ts : List TokenTree) → (NestedAll (bareAll ts) ↔ NestedAll ts)
  | [] => Iff.rfl
  | t :: ts => and_congr (TokenTree.nested_bare t) (nestedAll_bareAll ts)

end

mutual

theorem TokenTree.exists_of_bare : (t : TokenTree) → ∀ toks : List Token,
    toks.map Token.bare = t.tokens.map Token.bare →
      ∃ u : TokenTree, u.tokens = toks ∧ u.bare = t.bare
  | .leaf t, toks, h => by
    obtain ⟨u, rfl, hu⟩ := List.map_eq_singleton_iff.1 h
    exact ⟨.leaf u, rfl, congrArg TokenTree.leaf hu⟩
  | .group o ts c, toks, h => by
    simp only [TokenTree.tokens, List.map_cons, List.map_append, List.cons_append,
      List.map_nil] at h
    obtain ⟨o', rest, rfl, ho, h⟩ := List.map_eq_cons_iff.1 h
    obtain ⟨inner, last, rfl, hinner, hlast⟩ := List.map_eq_append_iff.1 h
    obtain ⟨c', rfl, hc⟩ := List.map_eq_singleton_iff.1 hlast
    obtain ⟨us, rfl, hus⟩ := exists_of_bareAll ts inner hinner
    exact ⟨.group o' us c', rfl, by rw [TokenTree.bare, TokenTree.bare, ho, hus, hc]⟩

/-- Tokens that are those of a forest but for their place are the tokens of such a forest. -/
theorem exists_of_bareAll : (ts : List TokenTree) → ∀ toks : List Token,
    toks.map Token.bare = (TokenTree.tokensOf ts).map Token.bare →
      ∃ us, TokenTree.tokensOf us = toks ∧ bareAll us = bareAll ts
  | [], toks, h => ⟨[], (List.map_eq_nil_iff.1 h).symm, rfl⟩
  | t :: ts, toks, h => by
    rw [TokenTree.tokensOf, List.map_append] at h
    obtain ⟨first, rest, rfl, hfirst, hrest⟩ := List.map_eq_append_iff.1 h
    obtain ⟨u, rfl, hu⟩ := TokenTree.exists_of_bare t first hfirst
    obtain ⟨us, rfl, hus⟩ := exists_of_bareAll ts rest hrest
    exact ⟨u :: us, rfl, by rw [bareAll_cons, bareAll_cons, hu, hus]⟩

end

/-! ## Gaps and words -/

/-- A token as the source tells it: the gap before it and its word. -/
def Token.told (t : Token) : String × Word := (t.gap, t.lexeme.word)

/-- The source of words with their gaps. -/
def sourceOf (ws : List (String × Word)) : List Char :=
  ws.flatMap fun w => w.1.toList ++ w.2.text.toList

theorem leadWords_append (gap : String) {us : List (String × Word)} (h : us ≠ [])
    (vs : List (String × Word)) :
    leadWords gap (us ++ vs) = leadWords gap us ++ vs := by
  obtain ⟨u, us, rfl⟩ := List.exists_cons_of_ne_nil h
  rfl

@[simp] theorem length_leadWords (gap : String) (ws : List (String × Word)) :
    (leadWords gap ws).length = ws.length := by
  cases ws <;> rfl

theorem map_snd_leadWords (gap : String) (ws : List (String × Word)) :
    (leadWords gap ws).map Prod.snd = ws.map Prod.snd := by
  cases ws <;> rfl

theorem sourceOf_leadWords (gap : String) {ws : List (String × Word)} (h : ws ≠ []) :
    sourceOf (leadWords gap ws) = gap.toList ++ sourceOf ws := by
  obtain ⟨w, ws, rfl⟩ := List.exists_cons_of_ne_nil h
  simp [leadWords, sourceOf]

theorem sourceOf_spoken (ls : List Lexeme) :
    sourceOf (ls.map Lexeme.spoken) = ls.flatMap Lexeme.spelling := by
  rw [sourceOf, List.flatMap_map]
  rfl

theorem sourceOf_told (ts : List Token) :
    sourceOf (ts.map Token.told) = ts.flatMap Token.spelling := by
  rw [sourceOf, List.flatMap_map]
  rfl

theorem toList_gap_append (l : Lexeme) (index : Nat) (pending : List Lexeme) :
    (Token.mk l index pending.reverse).gap.toList ++ l.text.toList =
      sourceOf ((pending.reverse ++ [l]).map Lexeme.spoken) := by
  rw [gap_eq, sourceOf_spoken]
  simp [Lexeme.spelling]

/-- A gap before the first lexeme goes into the gap before the first token. -/
theorem attach_leadWords (gap : String) {ls ls' : List Lexeme} (pending pending' : List Lexeme)
    (index index' : Nat) (hlen : pending'.length = pending.length)
    (h : (pending'.reverse ++ ls').map Lexeme.spoken =
      leadWords gap ((pending.reverse ++ ls).map Lexeme.spoken)) :
    (TokenTree.attach index' pending' ls').1.map Token.told =
        leadWords gap ((TokenTree.attach index pending ls).1.map Token.told) ∧
      (TokenTree.attach index' pending' ls').2.length =
        (TokenTree.attach index pending ls).2.length := by
  have hls : ls'.length = ls.length := by
    have := congrArg List.length h
    simp only [List.length_map, length_leadWords, List.length_append, List.length_reverse] at this
    omega
  induction ls generalizing gap ls' pending pending' index index' with
  | nil =>
    obtain rfl := List.length_eq_zero_iff.1 hls
    exact ⟨rfl, by simpa [TokenTree.attach] using hlen⟩
  | cons l ls ih =>
    cases ls' with
    | nil => cases hls
    | cons l' ls' =>
      have hls : ls'.length = ls.length := Nat.succ.inj hls
      have hsplit : (pending'.reverse ++ [l']).map Lexeme.spoken ++ ls'.map Lexeme.spoken =
          leadWords gap ((pending.reverse ++ [l]).map Lexeme.spoken) ++ ls.map Lexeme.spoken := by
        rw [← leadWords_append gap (by simp)]
        simpa using h
      obtain ⟨hfirst, hrest⟩ := List.append_inj' hsplit (by simp [hls])
      have hword : l'.word = l.word := by
        have := congrArg (fun ws => (ws.map Prod.snd).getLast?) hfirst
        simpa [map_snd_leadWords, Lexeme.spoken] using this
      unfold TokenTree.attach
      rw [show l'.kind = l.kind from congrArg Word.kind hword]
      split_ifs with hcomment
      · exact ih gap (l :: pending) (l' :: pending') index index' (by simp [hlen])
          (by simpa using h) hls
      · obtain ⟨htold, htail⟩ := ih "" [] [] (index + 1) (index' + 1) rfl
          (by rw [leadWords_empty]; exact hrest) hls
        rw [leadWords_empty] at htold
        have hsource := congrArg sourceOf hfirst
        rw [sourceOf_leadWords gap (by simp), ← toList_gap_append l' index',
          ← toList_gap_append l index,
          show l'.text = l.text from congrArg Word.text hword, ← List.append_assoc] at hsource
        have hgap : (Token.mk l' index' pending'.reverse).gap =
            gap ++ (Token.mk l index pending.reverse).gap := by
          rw [← String.toList_inj, String.toList_append]
          exact List.append_cancel_right hsource
        refine ⟨?_, htail⟩
        dsimp only
        rw [List.map_cons, htold, List.map_cons, leadWords, Token.told, Token.told, hgap, hword]

theorem attach_append (index : Nat) (pending ls : List Lexeme)
    (h : (TokenTree.attach index pending ls).2 = []) :
    ∃ next, ∀ ms, TokenTree.attach index pending (ls ++ ms) =
      ((TokenTree.attach index pending ls).1 ++ (TokenTree.attach next [] ms).1,
        (TokenTree.attach next [] ms).2) := by
  induction ls generalizing index pending with
  | nil =>
    obtain rfl : pending = [] := List.reverse_eq_nil_iff.1 h
    exact ⟨index, fun ms => rfl⟩
  | cons l ls ih =>
    simp only [TokenTree.attach, List.cons_append] at h ⊢
    split_ifs at h ⊢ with hcomment
    · exact ih index (l :: pending) h
    · obtain ⟨next, hnext⟩ := ih (index + 1) [] h
      exact ⟨next, fun ms => by rw [hnext]; rfl⟩

/-! ## A source inside another -/

/-- Lexemes that become a forest with a property, whatever stands before and after them. -/
def Forms (ls : List Lexeme) (P : List TokenTree → Prop) : Prop :=
  ∀ index, ∃ next ts, (∀ ms, TokenTree.attach index [] (ls ++ ms) =
      (TokenTree.tokensOf ts ++ (TokenTree.attach next [] ms).1, (TokenTree.attach next [] ms).2)) ∧
    NestedAll ts ∧ P ts

/-- A forest that is another one in another place. -/
structure Transplanted (ts us : List TokenTree) : Prop where
  bare : bareAll us = bareAll ts
  text : TokenTree.textOf us = TokenTree.textOf ts

theorem map_bare_of_map_told {ts us : List Token} {gap : String}
    (h : us.map Token.told = leadWords gap (ts.map Token.told)) :
    us.map Token.bare = ts.map Token.bare := by
  have hwords := congrArg (List.map Prod.snd) h
  rw [map_snd_leadWords, List.map_map, List.map_map] at hwords
  have key :=
    congrArg (List.map fun w : Word => (Token.mk ⟨w.kind, w.text, "", 0, ⟨1, 1⟩, w.parts⟩ 0 []))
    hwords
  rwa [List.map_map, List.map_map] at key

theorem textOfTokens_of_map_told {ts us : List Token} {gap : String}
    (h : us.map Token.told = leadWords gap (ts.map Token.told)) :
    TokenTree.textOfTokens us = TokenTree.textOfTokens ts := by
  cases ts with
  | nil =>
    obtain rfl := List.map_eq_nil_iff.1 h
    rfl
  | cons t ts =>
    cases us with
    | nil => cases h
    | cons u us =>
      simp only [List.map_cons, leadWords, List.cons.injEq] at h
      have hword : u.lexeme.word = t.lexeme.word := congrArg Prod.snd h.1
      have htext : u.text = t.text := congrArg Word.text hword
      rw [← String.toList_inj, toList_textOfTokens_cons, toList_textOfTokens_cons, htext,
        ← sourceOf_told, ← sourceOf_told, h.2]

theorem mem_of_mem_attach_tail {index : Nat} {pending ls : List Lexeme} {l : Lexeme}
    (h : l ∈ (TokenTree.attach index pending ls).2) : l ∈ pending ∨ l ∈ ls := by
  induction ls generalizing index pending with
  | nil => exact .inl (List.mem_reverse.1 h)
  | cons m ls ih =>
    unfold TokenTree.attach at h
    split_ifs at h
    · rcases ih h with hp | hl
      · exact (List.mem_cons.1 hp).elim (fun heq => .inr (heq ▸ List.mem_cons_self)) .inl
      · exact .inr (List.mem_cons_of_mem _ hl)
    · exact .inr (List.mem_cons_of_mem _ ((ih h).resolve_left List.not_mem_nil))

theorem attach_concat_comment {l : Lexeme} (hl : l.kind = .comment) (index : Nat)
    (pending ls : List Lexeme) :
    (TokenTree.attach index pending (ls ++ [l])).2 ≠ [] := by
  induction ls generalizing index pending with
  | nil => simp [TokenTree.attach, hl]
  | cons m ls ih =>
    simp only [List.cons_append, TokenTree.attach]
    split_ifs
    · exact ih index (m :: pending)
    · exact ih (index + 1) []

/-- A source that is the text of its forest has nothing before the first and after the last
token. -/
theorem exists_scan_of_text_eq {source : String} {s : Source} (h : Source.read source = .ok s)
    (ht : s.all.text = source) (hne : source ≠ "") :
    ∃ ls, scanFrom [] [] {} source.toList = .ok ls ∧ TokenTree.attach 0 [] ls = (s.tokens, []) ∧
      ls.flatMap Lexeme.spelling = source.toList ∧ ∀ l ∈ ls.getLast?, l.kind ≠ .comment := by
  have htrees := ((ends_read source).of_ok s h).tokensOf_trees
  obtain ⟨ls, hscan, h⟩ := exists_of_bind_ok h
  have hlexemes := (ends_scanFrom [] [] {} source.toList).of_ok ls hscan
  obtain ⟨blanks, hblanks⟩ := hlexemes.spelling
  cases h
  dsimp only at htrees
  have htext : TokenTree.textOfTokens (TokenTree.attach 0 [] ls).1 = source := by
    rw [← htrees]; exact ht
  have hspelling := spelling_attach 0 [] ls
  simp only [List.reverse_nil, List.flatMap_nil, List.nil_append] at hspelling hblanks
  cases htokens : (TokenTree.attach 0 [] ls).1 with
  | nil =>
    rw [htokens] at htext
    exact absurd htext.symm hne
  | cons t ts =>
    rw [htokens] at htext hspelling
    have hsource : source.toList = t.text.toList ++ ts.flatMap Token.spelling := by
      rw [← htext, toList_textOfTokens_cons]
    have hlen := congrArg List.length hblanks
    rw [hspelling, hsource] at hlen
    simp only [List.flatMap_cons, Token.spelling, List.length_append] at hlen
    have hblank : blanks = [] := List.length_eq_zero_iff.1 (by omega)
    have htail : (TokenTree.attach 0 [] ls).2 = [] := by
      by_contra hne
      obtain ⟨l, rest, htail⟩ := List.exists_cons_of_ne_nil hne
      have hl : l ∈ ls :=
        (mem_of_mem_attach_tail (htail ▸ List.mem_cons_self)).resolve_left List.not_mem_nil
      have hpos : 0 < l.text.toList.length := by
        rw [List.length_pos_iff]
        exact fun hnil => hlexemes.text_ne l hl (String.toList_inj.1 hnil)
      rw [htail, List.flatMap_cons, Lexeme.spelling] at hlen
      simp only [List.length_append] at hlen
      omega
    refine ⟨ls, hscan, Prod.ext_iff.2 ⟨htokens, htail⟩, ?_, fun l hl hcomment => ?_⟩
    · rw [hblank, List.append_nil] at hblanks
      exact hblanks.symm
    · obtain ⟨init, rfl⟩ := List.getLast?_eq_some_iff.1 hl
      exact attach_concat_comment hcomment 0 [] init htail

/-- A source on one line, with nothing before its first and after its last token, is read in front
of more source as it is by itself. -/
theorem exists_transplanted {source : String} {s : Source} (h : Source.read source = .ok s)
    (hn : '\n' ∉ source.toList) (ht : s.all.text = source) (hne : source ≠ "") {g : String}
    (hg : isGap g = true) {rest : List Char} (hr : SoftStart rest) (stack : List (String × Place))
    (spot : Spot) : ∃ ls spot', scanFrom stack [] spot (g.toList ++ (source.toList ++ rest)) =
      (scanFrom stack [] spot' rest).map (ls ++ ·) ∧ Forms ls (Transplanted s.trees) := by
  obtain ⟨ls, hscan, hattach, hspelling, hlast⟩ := exists_scan_of_text_eq h ht hne
  have hls : ls ≠ [] := by
    rintro rfl
    exact hne (String.toList_inj.1 hspelling.symm)
  obtain ⟨ls', spot', hspoken, hrun⟩ := scanFrom_append hr hscan hn hlast hspelling stack
    (rfl : List.map Prod.fst [] = _) g.toList.reverse (fun hnil => absurd hnil hls)
      (spot.advance g.toList)
  refine ⟨ls', spot', ?_, fun index => ?_⟩
  · rw [scanFrom_gap (fun c hc => isBlank_of_isGap hg hc), List.append_nil]
    exact hrun
  · obtain ⟨htold, htail⟩ := attach_leadWords _ [] [] 0 index rfl hspoken
    rw [hattach] at htold htail
    have htrees : TokenTree.tokensOf s.trees = s.tokens :=
      ((ends_read source).of_ok s h).tokensOf_trees
    obtain ⟨next, hnext⟩ := attach_append index [] ls' (List.length_eq_zero_iff.1 htail)
    obtain ⟨us, hus, hbare⟩ := exists_of_bareAll s.trees (TokenTree.attach index [] ls').1
      (by rw [htrees]; exact map_bare_of_map_told htold)
    refine ⟨next, us, fun ms => by rw [hnext, hus], ?_, hbare, ?_⟩
    · rw [← nestedAll_bareAll, hbare, nestedAll_bareAll]
      exact nestedAll_of_read h
    · rw [TokenTree.textOf, TokenTree.textOf, hus, htrees]
      exact textOfTokens_of_map_told htold

end WidgetBridge.WidgetGrammar
