import WidgetBridge.Proofs.WidgetGrammar.Outline

/-!
# Putting outlines together

Source is written in parts, which are joined, bracketed, indented and set on lines of their own.
`Spelt a ps` says that the text `a` is the source of a sound outline `ps`.  Each way of putting
texts together has its counterpart on outlines:

* `Spelt.append` and `spelt_group` put outlines next to each other and into brackets;
* `Spelt.indent` moves an outline to the right, which changes its gaps only (`Matches.of_indent`).

`Matches` compares a forest with an outline without regard to the gap before it, since that belongs
to the place where the outline stands.
-/

namespace WidgetBridge.WidgetGrammar

open WidgetBridge.Text

/-! ## Outlines with any gap before them -/

/-- An outline after another gap. -/
def withGap (g : String) : List Piece → List Piece
  | [] => []
  | .word _ w :: ps => .word g w :: ps
  | .group _ b inner g' :: ps => .group g b inner g' :: ps

/-- A forest that has the shape of an outline, whatever stands before it. -/
def Matches (ts : List TokenTree) (ps : List Piece) : Prop := ∃ g, ShowsAll ts (withGap g ps)

/-- A token that is a given word after some gap. -/
def Token.IsWord (t : Token) (w : Word) : Prop := ∃ g, t.Is g w

theorem ShowsAll.matches {ts : List TokenTree} {ps : List Piece} (h : ShowsAll ts ps) :
    Matches ts ps := by
  cases ps with
  | nil => exact ⟨"", h⟩
  | cons p ps =>
    cases p with
    | word g w => exact ⟨g, h⟩
    | group g b inner g' => exact ⟨g, h⟩

theorem matches_nil {ts : List TokenTree} : Matches ts [] ↔ ts = [] := by
  simp [Matches, withGap, showsAll_nil]

theorem matches_word_cons {ts : List TokenTree} {g : String} {w : Word} {ps : List Piece} :
    Matches ts (.word g w :: ps) ↔ ∃ t us, ts = .leaf t :: us ∧ t.IsWord w ∧ ShowsAll us ps := by
  simp only [Matches, withGap, showsAll_cons, shows_word]
  constructor
  · rintro ⟨g, _, us, rfl, ⟨t, rfl, ht⟩, hu⟩
    exact ⟨t, us, rfl, ⟨g, ht⟩, hu⟩
  · rintro ⟨t, us, rfl, ⟨g, ht⟩, hu⟩
    exact ⟨g, _, us, rfl, ⟨t, rfl, ht⟩, hu⟩

theorem matches_group_cons {ts : List TokenTree} {g g' : String} {b : Bracket}
    {inner ps : List Piece} :
    Matches ts (.group g b inner g' :: ps) ↔ ∃ o vs c us, ts = .group o vs c :: us ∧
      o.IsWord (.mark b.opener) ∧ c.IsWord (.mark b.closer) ∧ GapLike c.lexeme.blank g' ∧
      ShowsAll vs inner ∧ ShowsAll us ps := by
  simp only [Matches, withGap, showsAll_cons, shows_group]
  constructor
  · rintro ⟨g, _, us, rfl, ⟨o, vs, c, rfl, ho, hc, hv⟩, hu⟩
    exact ⟨o, vs, c, us, rfl, ⟨g, ho⟩, ⟨g', hc⟩, hc.gap, hv, hu⟩
  · rintro ⟨o, vs, c, us, rfl, ⟨g, ho⟩, ⟨_, hc⟩, hgap, hv, hu⟩
    exact ⟨g, _, us, rfl, ⟨o, vs, c, rfl, ho, ⟨hc.word, hc.comments, hgap⟩, hv⟩, hu⟩

theorem matches_append {ts : List TokenTree} {ps qs : List Piece} (hp : ps ≠ []) :
    Matches ts (ps ++ qs) ↔ ∃ us vs, ts = us ++ vs ∧ Matches us ps ∧ ShowsAll vs qs := by
  have hgap : ∀ g, withGap g (ps ++ qs) = withGap g ps ++ qs := by
    intro g
    cases ps with
    | nil => exact absurd rfl hp
    | cons p ps => cases p <;> rfl
  simp only [Matches, hgap, showsAll_append]
  constructor
  · rintro ⟨g, us, vs, rfl, hu, hv⟩
    exact ⟨us, vs, rfl, ⟨g, hu⟩, hv⟩
  · rintro ⟨us, vs, rfl, ⟨g, hu⟩, hv⟩
    exact ⟨g, us, vs, rfl, hu, hv⟩

theorem Matches.ne_nil {ts : List TokenTree} {ps : List Piece} (h : Matches ts ps) (hp : ps ≠ []) :
    ts ≠ [] := by
  rintro rfl
  cases ps with
  | nil => exact hp rfl
  | cons p ps =>
    obtain ⟨g, h⟩ := h
    cases p <;> exact h

/-! ## Sound outlines next to each other -/

theorem spellAll_ne_nil {ps : List Piece} (h : SoundAll ps) (hne : ps ≠ []) : spellAll ps ≠ [] := by
  cases ps with
  | nil => exact absurd rfl hne
  | cons p ps => simp [h.1.spell_ne]

theorem soundAll_append {ps qs : List Piece} (hp : SoundAll ps) (hq : SoundAll qs)
    (hj : ∀ d ∈ (spellAll qs).head?, endMeets ps d = true) : SoundAll (ps ++ qs) := by
  induction ps with
  | nil => exact hq
  | cons p ps ih =>
    cases ps with
    | nil => exact ⟨hp.1, hj, hq⟩
    | cons q rs =>
      have hrest := ih hp.2.2 (by simpa using hj)
      refine ⟨hp.1, fun d hd => ?_, hrest⟩
      have hne := spellAll_ne_nil hp.2.2 (List.cons_ne_nil _ _)
      obtain ⟨c, cs, hc⟩ := List.exists_cons_of_ne_nil hne
      rw [List.append_eq, spellAll_append, hc, List.cons_append, List.head?_cons] at hd
      exact hp.2.1 d (by rw [hc, List.head?_cons]; exact hd)

/-- A text is the source of a sound outline. -/
structure Spelt (a : String) (ps : List Piece) : Prop where
  toList_eq : a.toList = spellAll ps
  sound : SoundAll ps
  ne_nil : ps ≠ []

theorem Spelt.append {a b : String} {ps qs : List Piece} (ha : Spelt a ps) (hb : Spelt b qs)
    (hj : ∀ d ∈ b.toList.head?, endMeets ps d = true) : Spelt (a ++ b) (ps ++ qs) where
  toList_eq := by rw [String.toList_append, ha.toList_eq, hb.toList_eq, spellAll_append]
  sound := soundAll_append ha.sound hb.sound (by rwa [← hb.toList_eq])
  ne_nil := by simp [ha.ne_nil]

/-- What starts with a soft character may follow everything. -/
theorem Spelt.append_soft {a b : String} {ps qs : List Piece} (ha : Spelt a ps) (hb : Spelt b qs)
    {c : Char} (hc : b.toList.head? = some c) (hsoft : isSoft c = true) :
    Spelt (a ++ b) (ps ++ qs) := by
  refine ha.append hb fun d hd => endMeets_of_isSoft ps ?_
  rw [hc, Option.mem_def, Option.some.injEq] at hd
  rwa [← hd]

theorem spelt_word {w : Word} (hw : w.Stands) (hb : w.isBracket = false) {g : String}
    (hg : isGap g = true) : Spelt (g ++ w.text) [.word g w] where
  toList_eq := by simp [Piece.spell]
  sound := ⟨⟨hg, hw, hb⟩, by simp, trivial⟩
  ne_nil := List.cons_ne_nil _ _

theorem spelt_group {inner g g' : String} {ps : List Piece} (b : Bracket)
    (hi : inner.toList = spellAll ps) (hs : SoundAll ps) (hg : isGap g = true)
    (hg' : isGap g' = true) :
    Spelt (g ++ b.opener ++ inner ++ g' ++ b.closer) [.group g b ps g'] where
  toList_eq := by simp [Piece.spell, hi]
  sound := ⟨⟨hg, hg', hs⟩, by simp, trivial⟩
  ne_nil := List.cons_ne_nil _ _

/-! ## Indentation -/

/-- Whether a text is made of spaces. -/
def isIndent (lead : String) : Bool := lead.toList.all (· == ' ')

/-- A gap after indentation: a lead goes in front of what starts a line. `fresh` says that a line
starts here. -/
def indentGapChars (lead : List Char) : (fresh : Bool) → List Char → List Char
  | fresh, [] => if fresh then lead else []
  | fresh, c :: cs =>
    if c = '\n' then '\n' :: indentGapChars lead true cs
    else (if fresh then lead else []) ++ c :: indentGapChars lead false cs

/-- A gap after indentation. -/
def indentGap (lead : String) (fresh : Bool) (g : String) : String :=
  String.ofList (indentGapChars lead.toList fresh g.toList)

mutual

/-- A piece after indentation. -/
def Piece.indent (lead : String) (fresh : Bool) : Piece → Piece
  | .word g w => .word (indentGap lead fresh g) w
  | .group g b inner g' =>
    .group (indentGap lead fresh g) b (indentAll lead false inner) (indentGap lead false g')

/-- An outline after indentation. -/
def indentAll (lead : String) (fresh : Bool) : List Piece → List Piece
  | [] => []
  | p :: ps => p.indent lead fresh :: indentAll lead false ps

end

theorem indentChars_gap (lead : List Char) (fresh : Bool) (g : List Char) {c : Char} (hc : c ≠ '\n')
    (rest : List Char) :
    indentChars lead fresh (g ++ c :: rest) =
      indentGapChars lead fresh g ++ c :: indentChars lead false rest := by
  induction g generalizing fresh with
  | nil => simp [indentChars, indentGapChars, hc]
  | cons d ds ih =>
    simp only [List.cons_append, indentChars, indentGapChars]
    split_ifs <;> simp [ih]

/-- A word keeps its characters, and only the gap before it is changed. -/
theorem indentChars_gap_append (lead : List Char) (fresh : Bool) (g : List Char) {cs : List Char}
    (hne : cs ≠ []) (h : '\n' ∉ cs) (rest : List Char) :
    indentChars lead fresh (g ++ (cs ++ rest)) =
      indentGapChars lead fresh g ++ (cs ++ indentChars lead false rest) := by
  obtain ⟨c, cs, rfl⟩ := List.exists_cons_of_ne_nil hne
  simp only [List.mem_cons, not_or] at h
  rw [List.cons_append, indentChars_gap _ _ _ (Ne.symm h.1), indentChars_of_unbroken _ h.2]
  rfl

mutual

theorem Piece.Sound.indentChars_spell (lead : String) (fresh : Bool) :
    {p : Piece} → p.Sound → ∀ rest : List Char,
      indentChars lead.toList fresh (p.spell ++ rest) =
        (p.indent lead fresh).spell ++ indentChars lead.toList false rest
  | .word g w, h, rest => by
    simp only [Piece.spell, Piece.indent, List.append_assoc, indentGap, String.toList_ofList]
    exact indentChars_gap_append _ _ _ h.2.1.text_ne h.2.1.unbroken _
  | .group g b inner g', h, rest => by
    simp only [Piece.spell, Piece.indent, List.append_assoc, indentGap, String.toList_ofList]
    have ho := stands_opener b
    have hc := stands_closer b
    simp only [Word.mark] at ho hc
    rw [indentChars_gap_append _ _ _ ho.text_ne ho.unbroken,
      SoundAll.indentChars_spellAll lead h.2.2,
      indentChars_gap_append _ _ _ hc.text_ne hc.unbroken]

theorem SoundAll.indentChars_spellAll (lead : String) :
    {ps : List Piece} → SoundAll ps → ∀ rest : List Char,
      indentChars lead.toList false (spellAll ps ++ rest) =
        spellAll (indentAll lead false ps) ++ indentChars lead.toList false rest
  | [], _, rest => rfl
  | p :: ps, h, rest => by
    simp only [spellAll_cons, indentAll, List.append_assoc]
    rw [Piece.Sound.indentChars_spell lead false h.1, SoundAll.indentChars_spellAll lead h.2.2]

end

theorem mem_of_mem_indentGapChars {lead g : List Char} {fresh : Bool} {c : Char}
    (h : c ∈ indentGapChars lead fresh g) : c ∈ lead ∨ c ∈ g := by
  induction g generalizing fresh with
  | nil => cases fresh <;> simp_all [indentGapChars]
  | cons d ds ih =>
    simp only [indentGapChars] at h
    split_ifs at h with hd
    all_goals
      simp only [List.mem_append, List.mem_cons, List.not_mem_nil, false_or] at h ⊢
    · rcases h with rfl | h
      · exact Or.inr (Or.inl hd.symm)
      · exact (ih h).imp_right Or.inr
    · rcases h with h | rfl | h
      · exact Or.inl h
      · exact Or.inr (Or.inl rfl)
      · exact (ih h).imp_right Or.inr
    · rcases h with rfl | h
      · exact Or.inr (Or.inl rfl)
      · exact (ih h).imp_right Or.inr

theorem isGap_indentGap {lead : String} (hl : isIndent lead = true) (fresh : Bool) {g : String}
    (hg : isGap g = true) : isGap (indentGap lead fresh g) = true := by
  have hlead : ∀ c ∈ lead.toList, c = ' ' := by simpa [isIndent] using hl
  simp only [isGap, indentGap, String.toList_ofList, List.all_eq_true, Bool.or_eq_true,
    beq_iff_eq] at hg ⊢
  intro c hc
  rcases mem_of_mem_indentGapChars hc with h | h
  · exact Or.inl (hlead c h)
  · exact hg c h

theorem indentGap_of_unbroken (lead : String) {g : String} (h : '\n' ∉ g.toList) :
    indentGap lead false g = g := by
  have key : ∀ cs : List Char, '\n' ∉ cs → indentGapChars lead.toList false cs = cs := by
    intro cs hcs
    induction cs with
    | nil => rfl
    | cons d ds ih =>
      simp only [List.mem_cons, not_or] at hcs
      simp [indentGapChars, Ne.symm hcs.1, ih hcs.2]
  rw [indentGap, key _ h, String.ofList_toList]

/-- Indentation does not tell gaps apart that were alike. -/
theorem GapLike.of_indentGap {lead : String} (hl : isIndent lead = true) {gap g : String}
    (hg : isGap g = true) (h : GapLike gap (indentGap lead false g)) : GapLike gap g := by
  by_cases hn : '\n' ∈ g.toList
  · refine Or.inr ⟨hn, ?_⟩
    rcases h with rfl | h
    · exact isGap_indentGap hl false hg
    · exact h.2
  · rwa [indentGap_of_unbroken lead hn] at h

theorem Token.Is.of_indentGap {lead : String} (hl : isIndent lead = true) {t : Token} {g : String}
    {w : Word} (hg : isGap g = true) (h : t.Is (indentGap lead false g) w) : t.Is g w :=
  ⟨h.word, h.comments, h.gap.of_indentGap hl hg⟩

mutual

theorem Piece.Sound.shows_of_indent {lead : String} (hl : isIndent lead = true) :
    {p : Piece} → p.Sound → ∀ {t : TokenTree}, t.Shows (p.indent lead false) → t.Shows p
  | .word _ _, h, t, ht => by
    rw [Piece.indent, shows_word] at ht
    obtain ⟨u, rfl, hu⟩ := ht
    exact hu.of_indentGap hl h.1
  | .group _ _ _ _, h, t, ht => by
    rw [Piece.indent, shows_group] at ht
    obtain ⟨o, ts, c, rfl, ho, hc, hts⟩ := ht
    exact ⟨ho.of_indentGap hl h.1, hc.of_indentGap hl h.2.1,
      SoundAll.showsAll_of_indent hl h.2.2 hts⟩

theorem SoundAll.showsAll_of_indent {lead : String} (hl : isIndent lead = true) :
    {ps : List Piece} → SoundAll ps → ∀ {ts : List TokenTree},
      ShowsAll ts (indentAll lead false ps) → ShowsAll ts ps
  | [], _, _, hts => hts
  | _ :: _, h, _, hts => by
    rw [indentAll, showsAll_cons] at hts
    obtain ⟨t, us, rfl, ht, hu⟩ := hts
    exact ⟨Piece.Sound.shows_of_indent hl h.1 ht, SoundAll.showsAll_of_indent hl h.2.2 hu⟩

end

/-- A forest that has the shape of an indented outline has the shape of the outline. -/
theorem Matches.of_indent {lead : String} (hl : isIndent lead = true) {ps : List Piece}
    (h : SoundAll ps) {fresh : Bool} {ts : List TokenTree}
    (hts : Matches ts (indentAll lead fresh ps)) : Matches ts ps := by
  cases ps with
  | nil => exact hts
  | cons p ps =>
    cases p with
    | word g w =>
      rw [indentAll, Piece.indent, matches_word_cons] at hts
      obtain ⟨t, us, rfl, ht, hu⟩ := hts
      exact matches_word_cons.2 ⟨t, us, rfl, ht, h.2.2.showsAll_of_indent hl hu⟩
    | group g b inner g' =>
      rw [indentAll, Piece.indent, matches_group_cons] at hts
      obtain ⟨o, vs, c, us, rfl, ho, hc, hgap, hv, hu⟩ := hts
      exact matches_group_cons.2 ⟨o, vs, c, us, rfl, ho, hc, hgap.of_indentGap hl h.1.2.1,
        h.1.2.2.showsAll_of_indent hl hv, h.2.2.showsAll_of_indent hl hu⟩

theorem Piece.meets_indent (lead : String) (fresh : Bool) (p : Piece) (d : Char) :
    (p.indent lead fresh).meets d = p.meets d := by
  cases p <;> rfl

/-- Indentation leaves what starts an outline, or puts a soft character there. -/
theorem SoundAll.head_indentAll {lead : String} {ps : List Piece} (h : SoundAll ps) :
    ∀ d ∈ (spellAll (indentAll lead false ps)).head?,
      isSoft d = true ∨ d ∈ (spellAll ps).head? := by
  have key : ∀ (g : String) {cs : List Char} (rest rest' : List Char), cs ≠ [] →
      ∀ d ∈ (((indentGap lead false g).toList ++ (cs ++ rest)).head?),
        isSoft d = true ∨ d ∈ ((g.toList ++ (cs ++ rest')).head?) := by
    intro g cs rest rest' hne d hd
    obtain ⟨c, cs, rfl⟩ := List.exists_cons_of_ne_nil hne
    rw [indentGap, String.toList_ofList] at hd
    cases hg : g.toList with
    | nil =>
      rw [hg] at hd
      exact Or.inr (by simpa [indentGapChars] using hd)
    | cons e es =>
      rw [hg, indentGapChars] at hd
      split_ifs at hd with he
      · rw [List.cons_append, List.head?_cons, Option.mem_def, Option.some.injEq] at hd
        exact Or.inl (hd ▸ rfl)
      · cases ‹False›
      · exact Or.inr (by simpa using hd)
  cases ps with
  | nil => simp [indentAll]
  | cons p ps =>
    cases p with
    | word g w =>
      simp only [indentAll, Piece.indent, spellAll_cons, Piece.spell, List.append_assoc]
      exact key g _ _ h.1.2.1.text_ne
    | group g b inner g' =>
      simp only [indentAll, Piece.indent, spellAll_cons, Piece.spell, List.append_assoc]
      exact key g _ _ (stands_opener b).text_ne

mutual

theorem Piece.Sound.indent {lead : String} (hl : isIndent lead = true) (fresh : Bool) :
    {p : Piece} → p.Sound → (p.indent lead fresh).Sound
  | .word _ _, h => ⟨isGap_indentGap hl fresh h.1, h.2⟩
  | .group _ _ _ _, h => ⟨isGap_indentGap hl fresh h.1, isGap_indentGap hl false h.2.1,
      SoundAll.indent hl false h.2.2⟩

theorem SoundAll.indent {lead : String} (hl : isIndent lead = true) (fresh : Bool) :
    {ps : List Piece} → SoundAll ps → SoundAll (indentAll lead fresh ps)
  | [], _ => trivial
  | p :: ps, h => by
    refine ⟨Piece.Sound.indent hl fresh h.1, fun d hd => ?_, SoundAll.indent hl false h.2.2⟩
    rw [Piece.meets_indent]
    rcases h.2.2.head_indentAll d hd with hs | hs
    · exact p.meets_of_isSoft hs
    · exact h.2.1 d hs

end

/-- The outline of an indented text. -/
theorem Spelt.indent {a : String} {ps : List Piece} (h : Spelt a ps) {lead : String}
    (hl : isIndent lead = true) : Spelt (indentLines lead a) (indentAll lead true ps) where
  toList_eq := by
    obtain ⟨p, ps, rfl⟩ := List.exists_cons_of_ne_nil h.ne_nil
    have hp := h.sound.1.indentChars_spell lead true (spellAll ps)
    have hps := h.sound.2.2.indentChars_spellAll lead []
    simp only [List.append_nil] at hps
    rw [toList_indentLines, h.toList_eq, spellAll_cons, hp, hps]
    simp [indentAll, indentChars]
  sound := h.sound.indent hl true
  ne_nil := by
    obtain ⟨p, ps, rfl⟩ := List.exists_cons_of_ne_nil h.ne_nil
    simp [indentAll]

end WidgetBridge.WidgetGrammar
