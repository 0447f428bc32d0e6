import WidgetBridge.Proofs.WidgetGrammar.Member
import WidgetBridge.Proofs.WidgetGrammar.Forms

/-!
# Declarations in a row

A text that is a declaration is cut off in front of everything that follows it, and is told by its
head. `Declares a P` says so, and that the member has the property `P`.

* `classify_of_field`, `classify_of_function` and `classify_of_class` tell fields, methods and
  classes;
* `membersFrom_of_forall₂` takes a row of declarations apart;
* `members_of_row` does so for a whole source;
* `members_of_class` does so for the body of a class, from the source of the class on.
-/

namespace WidgetBridge.WidgetGrammar

open WidgetBridge.Text

/-! ## Order of tokens -/

section Order

variable {ts us : List TokenTree}

theorem InOrder.left (h : InOrder (ts ++ us)) : InOrder ts := by
  rw [InOrder, tokensOf_append] at h
  exact (List.pairwise_append.1 h).1

theorem InOrder.right (h : InOrder (ts ++ us)) : InOrder us := by
  rw [InOrder, tokensOf_append] at h
  exact (List.pairwise_append.1 h).2.1

theorem InOrder.lt (h : InOrder (ts ++ us)) {t u : Token} (ht : t ∈ TokenTree.tokensOf ts)
    (hu : u ∈ TokenTree.tokensOf us) : t.index < u.index := by
  rw [InOrder, tokensOf_append] at h
  exact (List.pairwise_append.1 h).2.2 t ht u hu

theorem InOrder.inner {o c : Token} (h : InOrder (.group o ts c :: us)) : InOrder ts := by
  have htokens : TokenTree.tokensOf (.group o ts c :: us) =
      [o] ++ (TokenTree.tokensOf ts ++ ([c] ++ TokenTree.tokensOf us)) := by
    simp [TokenTree.tokensOf, TokenTree.tokens]
  rw [InOrder, htokens] at h
  exact (List.pairwise_append.1 (List.pairwise_append.1 h).2.1).1

theorem first_mem_tokensOf {t : TokenTree} (h : t ∈ ts) : t.first ∈ TokenTree.tokensOf ts := by
  induction ts with
  | nil => cases h
  | cons u us ih =>
    rw [TokenTree.tokensOf, List.mem_append]
    rcases List.mem_cons.1 h with rfl | h
    · refine Or.inl ?_
      cases t <;> simp [TokenTree.first, TokenTree.tokens]
    · exact Or.inr (ih h)

end Order

/-! ## Cutting at punctuators -/

theorem cutTop?_append {s : String} {ts : List TokenTree} (h : ∀ t ∈ ts, t.isPunct s = false)
    (us : List TokenTree) :
    Range.cutTop? s (ts ++ us) = (Range.cutTop? s us).map fun r => (ts ++ r.1, r.2) := by
  induction ts with
  | nil => simp
  | cons t ts ih =>
    rw [List.forall_mem_cons] at h
    rw [List.cons_append, Range.cutTop?, if_neg (by simp [h.1]), ih h.2, Option.map_map]
    rfl

theorem cutTop?_append_cons {s : String} {ts : List TokenTree} (h : ∀ t ∈ ts, t.isPunct s = false)
    (u : TokenTree) (hu : u.first.isPunct s = true) (us : List TokenTree) :
    Range.cutTop? s (ts ++ u :: us) = some (ts, u, us) := by
  rw [cutTop?_append h, Range.cutTop?, TokenTree.isPunct, if_pos hu]
  simp

theorem cutTop?_eq_none {s : String} {ts : List TokenTree} (h : ∀ t ∈ ts, t.isPunct s = false) :
    Range.cutTop? s ts = none := by
  simpa [Range.cutTop?] using cutTop?_append h []

theorem mem_of_cutTop? {s : String} {ts before after : List TokenTree} {t : TokenTree}
    (h : Range.cutTop? s ts = some (before, t, after)) : t ∈ ts := by
  induction ts generalizing before after with
  | nil => cases h
  | cons u us ih =>
    rw [Range.cutTop?] at h
    split_ifs at h with hu
    · simp only [Option.some.injEq, Prod.mk.injEq] at h
      exact h.2.1 ▸ List.mem_cons_self
    · obtain ⟨⟨a, v, b⟩, hcut, heq⟩ := Option.map_eq_some_iff.1 h
      simp only [Prod.mk.injEq] at heq
      obtain ⟨-, rfl, -⟩ := heq
      exact List.mem_cons_of_mem _ (ih hcut)

/-! ## Getters -/

/-- Tokens among which, up to a limit, `get` does not stand before a name. -/
def NoGetter (limit : Nat) : List Token → Prop
  | g :: n :: ts =>
    ¬ (g.index < limit ∧ g.isName "get" = true ∧ n.isIdent = true) ∧ NoGetter limit (n :: ts)
  | _ => True

theorem NoGetter.tail {limit : Nat} {t : Token} {ts : List Token} (h : NoGetter limit (t :: ts)) :
    NoGetter limit ts := by
  cases ts with
  | nil => trivial
  | cons u us => exact h.2

theorem tokensOf_next? {ts rest : List TokenTree} {t : Token}
    (h : TokenTree.next? ts = some (t, rest)) :
    TokenTree.tokensOf ts = t :: TokenTree.tokensOf rest := by
  cases ts with
  | nil => cases h
  | cons u us =>
    cases u with
    | leaf v =>
      cases h
      rfl
    | group o inner c =>
      cases h
      simp [TokenTree.tokensOf, TokenTree.tokens, tokensOf_append]

theorem noGetter_of_mem_tails {limit fuel : Nat} {ts us : List TokenTree}
    (h : NoGetter limit (TokenTree.tokensOf ts)) (hu : us ∈ TokenTree.tails fuel ts) :
    NoGetter limit (TokenTree.tokensOf us) := by
  induction fuel generalizing ts with
  | zero => cases hu
  | succ fuel ih =>
    rw [TokenTree.tails] at hu
    split at hu
    · cases hu
    · rename_i t rest hnext
      rcases List.mem_cons.1 hu with rfl | hu
      · exact h
      · rw [tokensOf_next? hnext] at h
        exact ih h.tail hu

theorem getter?_eq_none {limit : Nat} {ts : List TokenTree}
    (h : NoGetter limit (TokenTree.tokensOf ts)) : getter? limit ts = none := by
  rw [getter?, List.findSome?_eq_none_iff]
  intro us hus
  have hus := noGetter_of_mem_tails h hus
  split
  · rename_i g rest hg
    rw [tokensOf_next? hg] at hus
    split_ifs with hget
    · split
      · rename_i n after hn
        rw [tokensOf_next? hn] at hus
        rw [Bool.and_eq_true, decide_eq_true_eq] at hget
        exact if_neg fun hident => hus.1 ⟨hget.1, hget.2, hident⟩
      · rfl
    · rfl
  · rfl

/-- Whether `get` stands nowhere before a name among words. -/
def lacksGetter : List Word → Bool
  | g :: n :: ws =>
    !(g.kind == .ident && g.text == "get" && n.kind == .ident) && lacksGetter (n :: ws)
  | _ => true

theorem noGetter_of_words {toks : List Token} {words : List (String × Word)}
    (h : List.Forall₂ (fun (u : Token) (w : String × Word) => u.IsWord w.2) toks words)
    (hw : lacksGetter (words.map (·.2)) = true) (limit : Nat) : NoGetter limit toks := by
  induction h with
  | nil => trivial
  | @cons g w toks words hg hrest ih =>
    cases hrest with
    | nil => trivial
    | @cons n v toks words hn hrest =>
      simp only [List.map_cons, lacksGetter, Bool.and_eq_true, Bool.not_eq_true',
        Bool.and_eq_false_iff] at hw ih
      refine ⟨?_, ih hw.2⟩
      rintro ⟨-, hget, hident⟩
      rw [hg.isName_eq, Bool.and_eq_true] at hget
      rw [hn.isIdent_eq] at hident
      simp [hget.1, hget.2, hident] at hw

theorem map_wordsOf_withGap (g : String) (ps : List Piece) :
    (wordsOf (withGap g ps)).map (·.2) = (wordsOf ps).map (·.2) := by
  rcases ps with _ | ⟨⟨g₀, w⟩ | ⟨g₀, b, inner, g'⟩, ps⟩ <;> rfl

theorem Matches.noGetter {ts : List TokenTree} {ps : List Piece} (h : Matches ts ps)
    (hw : lacksGetter ((wordsOf ps).map (·.2)) = true) (limit : Nat) :
    NoGetter limit (TokenTree.tokensOf ts) := by
  obtain ⟨g, hshow⟩ := h
  exact noGetter_of_words (hshow.forall₂.imp fun _ _ hword => hword.isWord)
    (by rw [map_wordsOf_withGap, hw]) limit

theorem lacksGetter_cons {w : Word} (hw : (w.kind == .ident) = false) (ws : List Word) :
    lacksGetter (w :: ws) = lacksGetter ws := by
  cases ws <;> simp [lacksGetter, hw]

/-- A word that is no name keeps the words on its two sides apart. -/
theorem lacksGetter_append (ws : List Word) {w : Word} (hw : (w.kind == .ident) = false)
    (vs : List Word) :
    lacksGetter (ws ++ w :: vs) = (lacksGetter ws && lacksGetter vs) := by
  induction ws with
  | nil => exact lacksGetter_cons hw vs
  | cons u us ih =>
    cases us with
    | nil => simp [lacksGetter, hw, lacksGetter_cons hw]
    | cons v us =>
      simp only [List.cons_append, lacksGetter] at ih ⊢
      rw [ih, ← Bool.and_assoc]

/-- Tokens from the limit on do not count. -/
theorem noGetter_append {limit : Nat} {ts us : List Token} {t : Token}
    (h : NoGetter limit (ts ++ [t])) (hus : ∀ u ∈ t :: us, limit ≤ u.index) :
    NoGetter limit (ts ++ t :: us) := by
  induction ts with
  | nil =>
    have key : ∀ vs : List Token, (∀ u ∈ vs, limit ≤ u.index) → NoGetter limit vs := by
      intro vs hvs
      induction vs with
      | nil => trivial
      | cons v vs ih =>
        rw [List.forall_mem_cons] at hvs
        cases vs with
        | nil => trivial
        | cons w ws => exact ⟨fun hv => absurd hv.1 (Nat.not_lt.2 hvs.1), ih hvs.2⟩
    exact key _ hus
  | cons g ts ih =>
    cases ts with
    | nil => exact ⟨h.1, ih h.tail⟩
    | cons n ts => exact ⟨h.1, ih h.tail⟩

/-! ## Fields and methods -/

/-- The words by which directives start. -/
def directiveWords : List String := ["import", "export", "library", "part"]

section Classify

variable {s : Surroundings} {range : Range} {annotations : List String} {ts rest : List TokenTree}
  {mods : List Token}

/-- The surroundings after the modifiers. -/
def Surroundings.after (s : Surroundings) (mods : List Token) : Surroundings :=
  { s with before := mods.getLast?.orElse fun _ => s.before }

/-- Where the head of a declaration ends: at the first equality sign or arrow outside of brackets,
or else behind its last token. -/
def headLimit (ts : List TokenTree) : Nat :=
  let indexOf := fun text => (Range.cutTop? text ts).map fun r => r.2.1.first.index
  let stop := (((ts.getLast?.map TokenTree.last).map (·.index)).getD 0) + 1
  min ((indexOf "=").getD stop) ((indexOf "=>").getD stop)

/-- The function or field that a declaration is. -/
def functionOrField (s : Surroundings) (base : Member) (ts : List TokenTree) : Member :=
  match Range.cutTop? "(" ts with
  | some (before, .group o inner c, after) =>
    if o.index < headLimit ts then functionMember s base before ⟨inner, some c⟩ after
    else fieldMember s base ts
  | _ => fieldMember s base ts

theorem classify_of_head (hmods : modifiersOf ts = (mods, rest)) (hne : ts ≠ [])
    (hhead : headText rest ∉ directiveWords ++ classWords)
    (hgetter : getter? (headLimit rest) rest = none) :
    classify s range annotations ts = .ok (functionOrField (s.after mods)
      { kind := .other, name := "", range, annotations, modifiers := mods.map Token.text }
        rest) := by
  have hempty : ts.isEmpty = false := by simpa using hne
  rw [List.mem_append, not_or] at hhead
  have hdirective : directiveWords.contains (headText rest) = false := by simpa using hhead.1
  have hclass : classWords.contains (headText rest) = false := by simpa using hhead.2
  dsimp only [directiveWords, classWords, headText] at hdirective hclass
  dsimp only [headLimit] at hgetter
  unfold classify functionOrField
  simp only [hempty, hmods, hdirective, hclass, hgetter, Bool.false_eq_true, if_false]
  rcases Range.cutTop? "(" rest with _ | ⟨before, t | ⟨o, inner, c⟩, after⟩
  · rfl
  · rfl
  · by_cases hlt : o.index < headLimit rest
    · exact (if_pos hlt).trans (congrArg Except.ok (if_pos hlt).symm)
    · exact (if_neg hlt).trans (congrArg Except.ok (if_neg hlt).symm)

theorem getLast?_tokensOf {t : TokenTree} (h : ts.getLast? = some t) :
    (TokenTree.tokensOf ts).getLast? = some t.last := by
  obtain ⟨us, rfl⟩ := List.getLast?_eq_some_iff.1 h
  rw [tokensOf_append]
  cases t with
  | leaf t => simp [TokenTree.tokensOf, TokenTree.tokens, TokenTree.last]
  | group o inner c =>
    simp only [TokenTree.tokensOf, TokenTree.tokens, TokenTree.last, List.append_nil]
    rw [← List.append_assoc, List.getLast?_concat]

/-- The head of a field ends at its equality sign. -/
theorem headLimit_of_field {declared after : List TokenTree} {eq : Token}
    (heq : eq.isPunct "=" = true)
    (hplain : ∀ mark ∈ ["=", "=>", "("], ∀ t ∈ declared, t.isPunct mark = false)
    (hfrom : ∀ u ∈ eq :: TokenTree.tokensOf after, eq.index ≤ u.index) :
    headLimit (declared ++ .leaf eq :: after) = eq.index := by
  have hcut : Range.cutTop? "=" (declared ++ .leaf eq :: after) =
      some (declared, .leaf eq, after) :=
    cutTop?_append_cons (hplain "=" (by decide)) (.leaf eq) heq after
  have hstop : ∀ t ∈ (declared ++ .leaf eq :: after).getLast?, eq.index ≤ t.last.index := by
    intro t ht
    rw [List.getLast?_append_of_ne_nil _ (List.cons_ne_nil _ _)] at ht
    have hlast : (TokenTree.tokensOf (.leaf eq :: after)).getLast? = some t.last :=
      getLast?_tokensOf ht
    exact hfrom _ (List.mem_of_getLast? hlast)
  have harrow : ∀ r ∈ Range.cutTop? "=>" (declared ++ .leaf eq :: after),
      eq.index ≤ r.2.1.first.index := by
    intro r hr
    rw [cutTop?_append (hplain "=>" (by decide)), Option.mem_def, Option.map_eq_some_iff] at hr
    obtain ⟨⟨a, t, b⟩, hcut, rfl⟩ := hr
    exact hfrom _ (first_mem_tokensOf (mem_of_cutTop? hcut))
  obtain ⟨u, hu⟩ : ∃ u, (declared ++ .leaf eq :: after).getLast? = some u :=
    Option.isSome_iff_exists.1 (by simp)
  have hlast := hstop u hu
  have heqIndex : (TokenTree.leaf eq).first.index = eq.index := rfl
  simp only [headLimit, hcut, hu, Option.map_some, Option.getD_some, heqIndex]
  cases hr : Range.cutTop? "=>" (declared ++ .leaf eq :: after) with
  | none =>
    simp only [Option.map_none, Option.getD_none]
    omega
  | some r =>
    have := harrow r hr
    simp only [Option.map_some, Option.getD_some]
    omega

/-- The head of a declaration without equality sign and arrow goes to its end. -/
theorem lt_headLimit (hplain : ∀ mark ∈ ["=", "=>"], ∀ t ∈ ts, t.isPunct mark = false)
    (horder : InOrder ts) {u : Token} (hu : u ∈ TokenTree.tokensOf ts) :
    u.index < headLimit ts := by
  obtain ⟨t, ht⟩ : ∃ t, ts.getLast? = some t := by
    cases ts with
    | nil => cases hu
    | cons t ts => exact Option.isSome_iff_exists.1 (by simp)
  have hle : u.index ≤ t.last.index := by
    obtain ⟨us, hus⟩ := List.getLast?_eq_some_iff.1 (getLast?_tokensOf ht)
    rw [InOrder, hus] at horder
    rw [hus, List.mem_append, List.mem_singleton] at hu
    rcases hu with hu | rfl
    · exact Nat.le_of_lt ((List.pairwise_append.1 horder).2.2 u hu _ (List.mem_singleton_self _))
    · exact Nat.le_refl _
  simp only [headLimit, cutTop?_eq_none (hplain "=" (by decide)),
    cutTop?_eq_none (hplain "=>" (by decide)), ht, Option.map_none, Option.getD_none,
    Option.map_some, Option.getD_some]
  omega

/-- A declaration with an equality sign outside of brackets, and neither an arrow nor brackets
before it, is a field. -/
theorem classify_of_field {declared after : List TokenTree} {eq : Token}
    (hmods : modifiersOf ts = (mods, declared ++ .leaf eq :: after)) (hne : ts ≠ [])
    (hhead : headText (declared ++ .leaf eq :: after) ∉ directiveWords ++ classWords)
    (heq : eq.isPunct "=" = true)
    (hplain : ∀ mark ∈ ["=", "=>", "("], ∀ t ∈ declared, t.isPunct mark = false)
    (horder : InOrder (declared ++ .leaf eq :: after))
    (hgetter : NoGetter eq.index (TokenTree.tokensOf declared ++ [eq])) :
    classify s range annotations ts = .ok (fieldMember (s.after mods)
      { kind := .other, name := "", range, annotations, modifiers := mods.map Token.text }
      (declared ++ .leaf eq :: after)) := by
  have hfrom : ∀ u ∈ eq :: TokenTree.tokensOf after, eq.index ≤ u.index := by
    refine List.forall_mem_cons.2 ⟨Nat.le_refl _, fun u hu => ?_⟩
    have hright : InOrder ([.leaf eq] ++ after) := horder.right
    exact Nat.le_of_lt (hright.lt (List.mem_singleton_self _) hu)
  have hlimit : headLimit (declared ++ .leaf eq :: after) = eq.index :=
    headLimit_of_field heq hplain hfrom
  have hnone : getter? (headLimit (declared ++ .leaf eq :: after)) (declared ++ .leaf eq :: after) =
      none := by
    refine getter?_eq_none ?_
    rw [hlimit, tokensOf_append]
    exact noGetter_append hgetter hfrom
  rw [classify_of_head hmods hne hhead hnone, functionOrField]
  split
  · rename_i before o inner c rest hcut
    rw [cutTop?_append (hplain "(" (by decide))] at hcut
    obtain ⟨⟨a, t, b⟩, hcut, heq'⟩ := Option.map_eq_some_iff.1 hcut
    simp only [Prod.mk.injEq] at heq'
    obtain ⟨-, rfl, -⟩ := heq'
    have hmem := first_mem_tokensOf (mem_of_cutTop? hcut)
    rw [if_neg (by rw [hlimit]; exact Nat.not_lt.2 (hfrom o hmem))]
  · rfl

/-- A declaration with round brackets outside of other brackets, and no equality sign or arrow, is a
function. -/
theorem classify_of_function {before after inner : List TokenTree} {o c : Token}
    (hmods : modifiersOf ts = (mods, before ++ .group o inner c :: after)) (hne : ts ≠ [])
    (hhead : headText (before ++ .group o inner c :: after) ∉ directiveWords ++ classWords)
    (ho : o.isPunct "(" = true)
    (hbefore : ∀ t ∈ before, t.isPunct "(" = false)
    (hplain :
    ∀ mark ∈ ["=", "=>"], ∀ t ∈ before ++ .group o inner c :: after, t.isPunct mark = false)
    (horder : InOrder (before ++ .group o inner c :: after))
    (hgetter : ∀ limit, NoGetter limit (TokenTree.tokensOf (before ++ .group o inner c :: after))) :
    classify s range annotations ts = .ok (functionMember (s.after mods)
      { kind := .other, name := "", range, annotations, modifiers := mods.map Token.text }
      before ⟨inner, some c⟩ after) := by
  have hcut : Range.cutTop? "(" (before ++ .group o inner c :: after) =
      some (before, .group o inner c, after) :=
    cutTop?_append_cons hbefore (.group o inner c) ho after
  have hlimit : o.index < headLimit (before ++ .group o inner c :: after) :=
    lt_headLimit hplain horder (first_mem_tokensOf (mem_of_cutTop? hcut))
  rw [classify_of_head hmods hne hhead (getter?_eq_none (hgetter _)), functionOrField, hcut]
  simp only [hlimit, if_true]

/-- A class is told by its first word; its name is the second, and its body the block at the end. -/
theorem classify_of_class {k n : Token} {front inner : List TokenTree} {o c : Token}
    (hk : k.text ∈ classWords)
    (hplain : ∀ t ∈ TokenTree.leaf k :: .leaf n :: front, t.isPunct "\x7b" = false)
    (ho : o.isPunct "\x7b" = true) (s : Surroundings) (range : Range) :
    ∃ m, classify s range [] (.leaf k :: .leaf n :: front ++ [.group o inner c]) = .ok m ∧
      m.range = range ∧
      m.kind = .classLike ∧ m.name = n.text ∧ m.body = some ⟨inner, some c⟩ := by
  have hcut := cutTop?_append_cons hplain (.group o inner c) ho []
  have hmods :=
    modifiersOf_leaf (t := k) (fun hm => (by decide : ∀ w ∈ classWords, w ∉ modifierWords) _ hk hm)
    (.leaf n :: front ++ [.group o inner c])
  have hdirective : ["import", "export", "library", "part"].contains k.text = false := by
    have hboth : ∀ w ∈ classWords, ["import", "export", "library", "part"].contains w = false := by
      decide
    exact hboth _ hk
  have hclass : ["class", "mixin", "enum"].contains k.text = true := by simpa [classWords] using hk
  unfold classify
  simp only [List.cons_append] at hcut hmods ⊢
  simp only [hmods, List.isEmpty_cons, List.head?_cons, Option.map_some, TokenTree.first,
    Option.getD_some, hdirective, hclass, if_true, classMember, hcut, TokenTree.next?,
    Option.bind_some, List.isEmpty_nil]
  exact ⟨_, rfl, rfl, rfl, rfl, rfl⟩

end Classify

/-! ## Rows of declarations -/

/-- An outline of one declaration, which is a member with a property. -/
structure IsDeclaration (ps : List Piece) (P : Member → Prop) : Prop where
  ne_nil : ps ≠ []
  /-- It has no annotation, and ends where it should. -/
  cut : ∀ ts us, Matches ts ps →
    annotation? (ts ++ us) = none ∧ declaration false (ts ++ us) = (ts, us)
  classified : ∀ ts, Matches ts ps → InOrder ts → ∀ s follow,
    ∃ m, classify s ⟨ts, follow⟩ [] ts = .ok m ∧ m.range.trees = ts ∧ P m

/-- Members that have given properties, one by one. -/
abbrev MembersMeet (Ps : List (Member → Prop)) (ms : List Member) : Prop :=
  List.Forall₂ (fun P m => P m) Ps ms

theorem annotationsOf_eq {ts : List TokenTree} (h : annotation? ts = none) (fuel : Nat) :
    annotationsOf fuel ts = ([], ts) := by
  cases fuel with
  | zero => rfl
  | succ fuel => simp [annotationsOf, h]

/-- One declaration is classified, and the rest is cut further. -/
theorem exists_membersFrom_append {us : List TokenTree} (hus : us ≠ []) {vs : List TokenTree}
    (hbare : annotation? (us ++ vs) = none) (hcut : declaration false (us ++ vs) = (us, vs))
    (unit : List TokenTree) (follow previous : Option Token) (fuel : Nat) :
    ∃ follow', ∀ m, classify ⟨unit, previous, follow'⟩ ⟨us, follow'⟩ [] us = .ok m →
      membersFrom unit follow (fuel + 1) previous (us ++ vs) =
        (membersFrom unit follow fuel (us.getLast?.map TokenTree.last) vs).map (m :: ·) := by
  obtain ⟨u, rest, hcons⟩ := List.exists_cons_of_ne_nil (List.append_ne_nil_of_left_ne_nil hus vs)
  cases vs with
  | nil =>
    refine ⟨follow, fun m hm => ?_⟩
    rw [hcons, membersFrom, ← hcons, annotationsOf_eq hbare]
    · simp only [hcut, List.nil_append, List.map_nil, List.flatten_nil, List.getLast?_nil,
        Option.map_none, Option.orElse_none, hm]
      cases membersFrom unit follow fuel (us.getLast?.map TokenTree.last) [] <;> rfl
    · intro hnil
      cases hnil
  | cons v vs =>
    refine ⟨some v.first, fun m hm => ?_⟩
    rw [hcons, membersFrom, ← hcons, annotationsOf_eq hbare]
    · simp only [hcut, List.nil_append, List.map_nil, List.flatten_nil, List.getLast?_nil,
        Option.map_none, Option.orElse_none, hm]
      cases membersFrom unit follow fuel (us.getLast?.map TokenTree.last) (v :: vs) <;> rfl
    · intro hnil
      cases hnil

/-- A row of declarations is cut into its members, which take up all of it. -/
theorem membersFrom_of_forall₂ {pss : List (List Piece)} {Ps : List (Member → Prop)}
    (h : List.Forall₂ IsDeclaration pss Ps) {ts : List TokenTree} (hts : Matches ts pss.flatten)
    (horder : InOrder ts) (unit : List TokenTree) (follow previous : Option Token) {fuel : Nat}
    (hf : ts.length ≤ fuel) :
    ∃ ms, membersFrom unit follow fuel previous ts = .ok ms ∧ MembersMeet Ps ms ∧
      ts = ms.flatMap fun m => m.range.trees := by
  induction h generalizing ts previous fuel with
  | nil =>
    rw [List.flatten_nil, matches_nil] at hts
    subst hts
    refine ⟨[], ?_, .nil, rfl⟩
    cases fuel <;> rfl
  | @cons ps P pss Ps hp hrest ih =>
    rw [List.flatten_cons, matches_append hp.ne_nil] at hts
    obtain ⟨us, vs, rfl, hu, hv⟩ := hts
    obtain ⟨hbare, hcut⟩ := hp.cut us vs hu
    have hus : us ≠ [] := hu.ne_nil hp.ne_nil
    have hlen : 0 < us.length := List.length_pos_iff.2 hus
    rw [List.length_append] at hf
    obtain ⟨fuel, rfl⟩ : ∃ n, fuel = n + 1 := ⟨fuel - 1, by omega⟩
    obtain ⟨follow', hstep⟩ := exists_membersFrom_append hus hbare hcut unit follow previous fuel
    obtain ⟨m, hm, hrange, hP⟩ := hp.classified us hu horder.left ⟨unit, previous, follow'⟩ follow'
    obtain ⟨ms, hms, hmeet, hall⟩ := ih hv.matches horder.right
      (us.getLast?.map TokenTree.last) (by omega : vs.length ≤ fuel)
    refine ⟨m :: ms, ?_, .cons hP hmeet, ?_⟩
    · rw [hstep m hm, hms]
      rfl
    · rw [List.flatMap_cons, hrange, ← hall]

/-! ## Sound words in a row -/

theorem soundAll_word {g : String} (hg : isGap g = true) {w : Word} (hw : w.Single)
    {ps : List Piece} (h : SoundAll ps) {c : Char} (hc : (spellAll ps).head? = some c)
    (hm : w.meets c = true) :
    SoundAll (.word g w :: ps) :=
  ⟨⟨hg, hw.stands, hw.not_bracket⟩, by simpa [hc, Piece.meets] using hm, h⟩

theorem soundAll_soft {g : String} (hg : isGap g = true) {w : Word} (hw : w.Single)
    {ps : List Piece} (h : SoundAll ps) {c : Char} (hc : (spellAll ps).head? = some c)
    (hsoft : isSoft c = true) :
    SoundAll (.word g w :: ps) :=
  soundAll_word hg hw h hc (w.meets_of_isSoft hsoft)

theorem soundAll_group {g g' : String} (hg : isGap g = true) (hg' : isGap g' = true) (b : Bracket)
    {inner ps : List Piece} (hi : SoundAll inner) (h : SoundAll ps) :
    SoundAll (.group g b inner g' :: ps) :=
  ⟨⟨hg, hg', hi⟩, fun _ _ => rfl, h⟩

theorem single_mark {s : String} (h : (Word.mark s).isPlain = true)
    (hb : (Word.mark s).isBracket = false) (hc : (Word.mark s).isPunct "," = false) :
    (Word.mark s).Single :=
  ⟨stands_of_isPlain h, hb, hc⟩

/-! ## Texts of declarations -/

/-- A text that is one declaration, which is a member with a property. -/
def Declares (a : String) (P : Member → Prop) : Prop := ∃ ps, Spelt a ps ∧ IsDeclaration ps P

theorem IsDeclaration.of_matches {ps qs : List Piece} {P : Member → Prop} (h : IsDeclaration ps P)
    (hne : qs ≠ []) (hm : ∀ ts, Matches ts qs → Matches ts ps) : IsDeclaration qs P where
  ne_nil := hne
  cut ts us hts := h.cut ts us (hm ts hts)
  classified ts hts := h.classified ts (hm ts hts)

theorem Declares.imp {a : String} {P P' : Member → Prop} (h : Declares a P) (hP : ∀ m, P m → P' m) :
    Declares a P' := by
  obtain ⟨ps, hs, hp⟩ := h
  refine ⟨ps, hs, hp.ne_nil, hp.cut, fun ts hts horder s follow => ?_⟩
  obtain ⟨m, hm, hrange, hmP⟩ := hp.classified ts hts horder s follow
  exact ⟨m, hm, hrange, hP m hmP⟩

theorem Declares.indent {a : String} {P : Member → Prop} (h : Declares a P) {lead : String}
    (hl : isIndent lead = true) : Declares (indentLines lead a) P := by
  obtain ⟨ps, hs, hp⟩ := h
  have hspelt := hs.indent hl
  exact ⟨_, hspelt, hp.of_matches hspelt.ne_nil fun ts hts => hts.of_indent hl hs.sound⟩

theorem Declares.lead {a : String} {P : Member → Prop} (h : Declares a P) {g : String}
    (hg : isGap g = true) : Declares (g ++ a) P := by
  obtain ⟨ps, hs, hp⟩ := h
  have hspelt := hs.lead hg
  exact ⟨_, hspelt, hp.of_matches hspelt.ne_nil fun ts hts => matches_leadWith.1 hts⟩

/-- A text that is a row of declarations. -/
def DeclaresAll (a : String) (Ps : List (Member → Prop)) : Prop :=
  ∃ pss, a.toList = spellAll (List.flatten pss) ∧ SoundAll (List.flatten pss) ∧
    List.Forall₂ IsDeclaration pss Ps

theorem Declares.row {a : String} {P : Member → Prop} (h : Declares a P) : DeclaresAll a [P] := by
  obtain ⟨ps, hs, hp⟩ := h
  exact ⟨[ps], by simpa using hs.toList_eq, by simpa using hs.sound, .cons hp .nil⟩

/-- One more declaration in front of a row that starts with a soft character. -/
theorem declaresAll_cons {a b : String} {P : Member → Prop} {Ps : List (Member → Prop)}
    (ha : Declares a P) (hb : DeclaresAll b Ps) {c : Char} (hc : b.toList.head? = some c)
    (hsoft : isSoft c = true) :
    DeclaresAll (a ++ b) (P :: Ps) := by
  obtain ⟨ps, hs, hp⟩ := ha
  obtain ⟨pss, htext, hsound, hall⟩ := hb
  refine ⟨ps :: pss, ?_, ?_, .cons hp hall⟩
  · rw [List.flatten_cons, spellAll_append, ← hs.toList_eq, ← htext, String.toList_append]
  · rw [List.flatten_cons]
    refine soundAll_append hs.sound hsound fun d hd => endMeets_of_isSoft ps ?_
    rw [← htext, hc, Option.mem_def, Option.some.injEq] at hd
    rwa [← hd]

/-- A gap that is not empty starts a text with a soft character. -/
theorem exists_soft_of_gap {g : String} (hg : isGap g = true) (hne : g ≠ "") (a : String) :
    ∃ c, (g ++ a).toList.head? = some c ∧ isSoft c = true := by
  obtain ⟨c, cs, hcs⟩ := List.exists_cons_of_ne_nil (by simpa using hne : g.toList ≠ [])
  exact ⟨c, by simp [hcs], isSoft_of_isGap hg (by simp [hcs])⟩

/-- Declarations with a gap between them. -/
theorem declaresAll_join {as : List String} {Ps : List (Member → Prop)}
    (h : List.Forall₂ Declares as Ps) (hne : as ≠ []) {sep : String} (hsep : isGap sep = true)
    (hgap : sep ≠ "") {g : String} (hg : isGap g = true) : DeclaresAll (g ++ join sep as) Ps := by
  induction h generalizing g with
  | nil => exact absurd rfl hne
  | @cons a P as Ps ha has ih =>
    have hfirst := ha.lead hg
    cases as with
    | nil =>
      cases has
      exact hfirst.row
    | cons b bs =>
      obtain ⟨c, hc, hsoft⟩ := exists_soft_of_gap hsep hgap (join sep (b :: bs))
      have hall := declaresAll_cons hfirst (ih (List.cons_ne_nil _ _) hsep) hc hsoft
      simpa only [join_cons_cons, String.append_assoc] using hall

/-- A source that is a row of declarations is cut into its members, which take up all of it. -/
theorem members_of_row {a : String} {Ps : List (Member → Prop)} (h : DeclaresAll a Ps)
    {gap : String} (hgap : isGap gap = true) :
    ∃ s ms, Source.read (a ++ gap) = .ok s ∧ s.members = .ok ms ∧ MembersMeet Ps ms ∧
      s.trees = ms.flatMap fun m => m.range.trees := by
  obtain ⟨pss, htext, hsound, hall⟩ := h
  obtain ⟨s, hread, hshow, horder, -⟩ := read_spellAll hsound gap hgap
  have hsource : String.ofList (spellAll pss.flatten ++ gap.toList) = a ++ gap := by
    rw [← String.toList_inj, String.toList_ofList, String.toList_append, htext]
  rw [hsource] at hread
  obtain ⟨ms, hms, hmeet, htake⟩ :=
    membersFrom_of_forall₂ hall hshow.matches horder s.trees none none (Nat.le_refl s.trees.length)
  exact ⟨s, ms, hread, hms, hmeet, htake⟩

/-! ## Words in a row -/

/-- The outline of words in a row. -/
def rowOf (ws : List (String × Word)) : List Piece := ws.map fun w => .word w.1 w.2

/-- The forest of tokens in a row. -/
def leaves (toks : List Token) : List TokenTree := toks.map .leaf

/-- Tokens that are given words, one by one. -/
abbrev AreWords (toks : List Token) (ws : List (String × Word)) : Prop :=
  List.Forall₂ (fun (t : Token) (w : String × Word) => t.IsWord w.2) toks ws

theorem tokensOf_leaves (toks : List Token) : TokenTree.tokensOf (leaves toks) = toks := by
  induction toks with
  | nil => rfl
  | cons t toks ih => simpa [leaves, TokenTree.tokensOf, TokenTree.tokens] using ih

theorem sizeOf'_leaves (toks : List Token) : TokenTree.sizeOf' (leaves toks) = toks.length := by
  induction toks with
  | nil => rfl
  | cons t toks ih =>
    rw [List.length_cons, ← ih, Nat.add_comm]
    rfl

@[simp] theorem wordsOf_rowOf (ws : List (String × Word)) : wordsOf (rowOf ws) = ws := by
  induction ws with
  | nil => rfl
  | cons w ws ih => simpa [rowOf, Piece.words] using ih

theorem showsAll_rowOf_append {ts : List TokenTree} {ws : List (String × Word)} {ps : List Piece}
    (h : ShowsAll ts (rowOf ws ++ ps)) :
    ∃ toks us, ts = leaves toks ++ us ∧ AreWords toks ws ∧ ShowsAll us ps := by
  induction ws generalizing ts with
  | nil => exact ⟨[], ts, rfl, .nil, h⟩
  | cons w ws ih =>
    obtain ⟨t, us, rfl, ht, hu⟩ := showsAll_cons.1 h
    obtain ⟨u, rfl, hword⟩ := shows_word.1 ht
    obtain ⟨toks, vs, rfl, htoks, hv⟩ := ih hu
    exact ⟨u :: toks, vs, rfl, .cons hword.isWord htoks, hv⟩

theorem matches_rowOf_append {ts : List TokenTree} {w : String × Word} {ws : List (String × Word)}
    {ps : List Piece} (h : Matches ts (rowOf (w :: ws) ++ ps)) :
    ∃ toks us, ts = leaves toks ++ us ∧ AreWords toks (w :: ws) ∧ ShowsAll us ps := by
  obtain ⟨t, us, rfl, ht, hu⟩ := matches_word_cons.1 h
  obtain ⟨toks, vs, rfl, htoks, hv⟩ := showsAll_rowOf_append hu
  exact ⟨t :: toks, vs, rfl, .cons ht htoks, hv⟩

theorem AreWords.isPunct_eq_false {toks : List Token} {ws : List (String × Word)}
    (h : AreWords toks ws) {s : String} (hs : ∀ w ∈ ws, w.2.isPunct s = false) :
    ∀ t ∈ leaves toks, t.isPunct s = false := by
  induction h with
  | nil => simp [leaves]
  | @cons t w toks ws ht _ ih =>
    rw [List.forall_mem_cons] at hs
    refine List.forall_mem_cons.2 ⟨?_, ih hs.2⟩
    rw [← hs.1, ← ht.isPunct_eq]
    rfl

theorem AreWords.exists_word {toks : List Token} {ws : List (String × Word)} (h : AreWords toks ws)
    {t : Token} (ht : t ∈ toks) : ∃ w ∈ ws, t.IsWord w.2 := by
  induction h with
  | nil => cases ht
  | @cons u w toks ws hu _ ih =>
    rcases List.mem_cons.1 ht with rfl | ht
    · exact ⟨w, List.mem_cons_self, hu⟩
    · obtain ⟨v, hv, hword⟩ := ih ht
      exact ⟨v, List.mem_cons_of_mem _ hv, hword⟩

theorem AreWords.of_append {toks : List Token} {ws vs : List (String × Word)}
    (h : AreWords toks (ws ++ vs)) :
    ∃ as bs, toks = as ++ bs ∧ AreWords as ws ∧ AreWords bs vs :=
  ⟨_, _, (List.take_append_drop ws.length toks).symm, List.forall₂_take_append _ _ _ h,
    List.forall₂_drop_append _ _ _ h⟩

theorem splitTop_leaves {separator : String} {toks : List Token}
    (h : ∀ t ∈ leaves toks, t.isPunct separator = false) (hne : toks ≠ []) (follow : Option Token) :
    (Range.mk (leaves toks) follow).splitTop separator = [⟨leaves toks, follow⟩] := by
  have key : ∀ part, part ≠ [] ∨ toks ≠ [] → Range.splitFrom separator follow part (leaves toks) =
      [⟨part.reverse ++ leaves toks, follow⟩] := by
    clear hne
    induction toks with
    | nil => simp [leaves, Range.splitFrom]
    | cons t toks ih =>
      intro part _
      have ht : t.isPunct separator = false := h (.leaf t) List.mem_cons_self
      have hleaves : leaves (t :: toks) = .leaf t :: leaves toks := rfl
      rw [hleaves, Range.splitFrom, if_neg (by simp [ht]),
        ih (fun u hu => h u (List.mem_cons_of_mem _ hu)) _ (Or.inl (List.cons_ne_nil _ _))]
      simp
  exact key [] (Or.inr hne)

/-- Words that are no marks of a declaration are passed over. -/
theorem declaration_leaves (assigned : Bool) {toks : List Token} {ws : List (String × Word)}
    (h : AreWords toks ws) (hs : ∀ mark ∈ [";", "=", "=>"], ∀ w ∈ ws, w.2.isPunct mark = false)
    (us : List TokenTree) : declaration assigned (leaves toks ++ us) =
      (leaves toks ++ (declaration assigned us).1, (declaration assigned us).2) := by
  induction h with
  | nil => rfl
  | @cons t w toks ws ht _ ih =>
    have hmark : ∀ mark ∈ [";", "=", "=>"], t.isPunct mark = false := fun mark hm => by
      rw [ht.isPunct_eq]
      exact hs mark hm w List.mem_cons_self
    have ih := ih fun mark hm w hw => hs mark hm w (List.mem_cons_of_mem _ hw)
    have hleaves : leaves (t :: toks) ++ us = .leaf t :: (leaves toks ++ us) := rfl
    rw [hleaves, declaration, if_neg (by simp [hmark ";" (by decide)]), hmark "=" (by decide),
      hmark "=>" (by decide), Bool.or_false, Bool.or_false, ih]
    rfl

/-! ## Classes -/

section StateClass

variable {name widget body : String} {Ps : List (Member → Prop)}

/-- The source of a state class around a row of declarations. -/
def stateClassText (name widget body : String) : String :=
  "class " ++ name ++ " extends State<" ++ widget ++ "> \x7b" ++ body ++ "\n\x7d"

/-- The words before the body of a state class. -/
def stateClassHead (name widget : String) : List (String × Word) :=
  [("", .name "class"), (" ", .name name), (" ", .name "extends"), (" ", .name "State"),
    ("", .mark "<"), ("", .name widget), ("", .mark ">")]

theorem soundAll_stateClass (hname : isName name = true) (hwidget : isName widget = true)
    {inner : List Piece} (h : SoundAll inner) :
    SoundAll (rowOf (stateClassHead name widget) ++ [.group " " .curly inner "\n"]) := by
  obtain ⟨c, cs, hcs, hc, -⟩ := isName_iff.1 hwidget
  have hless : (Word.mark "<").Single := single_mark (by decide) rfl rfl
  have hgreater : (Word.mark ">").Single := single_mark (by decide) rfl rfl
  have hword : ∀ {s : String}, isName s = true → (Word.name s).Single := single_name
  simp only [rowOf, stateClassHead, List.map_cons, List.map_nil, List.cons_append, List.nil_append]
  refine soundAll_soft rfl (hword rfl) ?_ rfl (c := ' ') rfl
  refine soundAll_soft rfl (hword hname) ?_ rfl (c := ' ') rfl
  refine soundAll_soft rfl (hword rfl) ?_ rfl (c := ' ') rfl
  refine soundAll_word rfl (hword rfl) ?_ rfl (c := '<') rfl
  refine soundAll_word rfl hless ?_ (c := c) (by simp [Piece.spell, Word.name, hcs]) ?_
  · refine soundAll_word rfl (hword hwidget) ?_ rfl (c := '>') rfl
    refine soundAll_soft rfl hgreater ?_ rfl (c := ' ') rfl
    exact soundAll_group rfl rfl .curly h trivial
  · simp [Word.meets, Word.mark, not_mem_joiningMarks_of_isNameStart hc]

theorem stateClassHead_lacks (name widget : String) : ∀ mark ∈ [";", "=", "=>", "\x7b"],
    ∀ w ∈ stateClassHead name widget, w.2.isPunct mark = false := by
  simp [stateClassHead, Word.isPunct, Word.name, Word.mark]

theorem classify_stateClass {toks : List Token} (htoks : AreWords toks (stateClassHead name widget))
    {o z : Token} (ho : o.isPunct "\x7b" = true) (inner : List TokenTree) (s : Surroundings)
    (range : Range) :
    ∃ c, classify s range [] (leaves toks ++ [.group o inner z]) = .ok c ∧ c.kind = .classLike ∧
      c.name = name ∧ c.body = some ⟨inner, some z⟩ := by
  have hplain := htoks.isPunct_eq_false (stateClassHead_lacks name widget "\x7b" (by decide))
  obtain ⟨k, _, hk, hrest, rfl⟩ := List.forall₂_cons_right_iff.1 htoks
  obtain ⟨n, toks, hn, -, rfl⟩ := List.forall₂_cons_right_iff.1 hrest
  have hclass : k.text ∈ classWords := by
    rw [hk.text_eq]
    decide
  obtain ⟨c, hc, -, hkind, hname, hbody⟩ := classify_of_class hclass hplain ho s range
  exact ⟨c, hc, hkind, hname.trans hn.text_eq, hbody⟩

/-- A state class is read as one member, whose body is cut into the declarations. -/
theorem members_of_class (hname : isName name = true) (hwidget : isName widget = true)
    (h : DeclaresAll body Ps) :
    ∃ s c r ms, Source.read (stateClassText name widget body) = .ok s ∧ s.members = .ok [c] ∧
      c.kind = .classLike ∧ c.name = name ∧ c.body = some r ∧ s.membersIn r = .ok ms ∧
      MembersMeet Ps ms ∧ r.trees = ms.flatMap fun m => m.range.trees := by
  obtain ⟨pss, htext, hsound, hall⟩ := h
  obtain ⟨s, hread, hshow, horder, -⟩ :=
    read_spellAll (soundAll_stateClass hname hwidget hsound) "" rfl
  have hsource : String.ofList (spellAll (rowOf (stateClassHead name widget) ++
      [.group " " .curly pss.flatten "\n"]) ++ "".toList) = stateClassText name widget body := by
    unfold stateClassText
    rw [← String.toList_inj]
    simp [rowOf, stateClassHead, Piece.spell, Word.name, Word.mark, Bracket.opener,
      Bracket.closer, htext]
  rw [hsource] at hread
  obtain ⟨toks, us, htrees, htoks, hu⟩ := showsAll_rowOf_append hshow
  obtain ⟨_, _, rfl, hgroup, hnil⟩ := showsAll_cons.1 hu
  obtain ⟨o, vs, z, rfl, ho, -, hvs⟩ := shows_group.1 hgroup
  rw [showsAll_nil] at hnil
  subst hnil
  have hcurly : o.isPunct "\x7b" = true := ho.isWord.isPunct_eq "\x7b"
  have hlacks := stateClassHead_lacks name widget
  have hcut : declaration false (leaves toks ++ [.group o vs z] ++ []) =
      (leaves toks ++ [.group o vs z], []) := by
    rw [List.append_nil, declaration_leaves false htoks fun mark hm =>
      hlacks mark (by simp only [List.mem_cons] at hm ⊢; tauto)]
    simp [declaration, hcurly]
  have hbare : annotation? (leaves toks ++ [.group o vs z] ++ []) = none := by
    obtain ⟨k, _, hk, hrest, rfl⟩ := List.forall₂_cons_right_iff.1 htoks
    obtain ⟨n, _, -, -, rfl⟩ := List.forall₂_cons_right_iff.1 hrest
    have hsign : k.isPunct "@" = false := hk.isPunct_eq "@"
    simp [leaves, annotation?, hsign]
  have hlen : s.trees.length = (leaves toks).length + 1 := by simp [htrees]
  obtain ⟨follow, hstep⟩ := exists_membersFrom_append (by simp) hbare hcut s.trees none none
    (leaves toks).length
  obtain ⟨c, hc, hkind, hcname, hbody⟩ :=
    classify_stateClass htoks hcurly vs ⟨s.trees, none, follow⟩
    ⟨leaves toks ++ [.group o vs z], follow⟩
  have hmembers : s.members = .ok [c] := by
    have hnil : ∀ previous, membersFrom s.trees none (leaves toks).length previous [] = .ok [] := by
      intro previous
      cases (leaves toks).length <;> rfl
    have hrun := hstep c hc
    rw [List.append_nil, hnil, ← htrees] at hrun
    rw [Source.members, hlen, hrun]
    rfl
  have hinner : InOrder vs := by
    rw [htrees] at horder
    exact horder.right.inner
  obtain ⟨ms, hms, hmeet, htake⟩ :=
    membersFrom_of_forall₂ hall hvs.matches hinner s.trees (some z) _
    (Nat.le_refl vs.length)
  exact ⟨s, c, ⟨vs, some z⟩, ms, hread, hmembers, hkind, hcname, hbody, hms, hmeet, htake⟩

end StateClass

end WidgetBridge.WidgetGrammar
