import WidgetBridge.Proofs.WidgetGrammar.Expressions

/-!
# The source of what is read

Ranges keep the source that they stand for.  The source of a forest is that of its outline, without
the gap before it (`Matches.textOf_eq`), if the outline lies on one line.  Gaps with a line feed are
not kept apart; what stands on several lines is put together from parts on one line
(`textOf_append`).
-/

namespace WidgetBridge.WidgetGrammar

open WidgetBridge.Text

/-! ## Tokens and words -/

theorem tokensOf_append (ts us : List TokenTree) :
    TokenTree.tokensOf (ts ++ us) = TokenTree.tokensOf ts ++ TokenTree.tokensOf us := by
  induction ts with
  | nil => rfl
  | cons t ts ih => simp [TokenTree.tokensOf, ih]

theorem tokensOf_ne_nil {ts : List TokenTree} (h : ts ≠ []) : TokenTree.tokensOf ts ≠ [] := by
  obtain ⟨t, us, rfl⟩ := List.exists_cons_of_ne_nil h
  cases t <;> simp [TokenTree.tokensOf, TokenTree.tokens]

mutual

theorem TokenTree.Shows.forall₂ : {t : TokenTree} → {p : Piece} → t.Shows p →
    List.Forall₂ (fun (u : Token) (w : String × Word) => u.Is w.1 w.2) t.tokens p.words
  | .leaf _, .word _ _, h => List.Forall₂.cons h List.Forall₂.nil
  | .group _ _ _, .group _ _ _ _, h => by
    obtain ⟨ho, hc, hts⟩ := h
    exact List.Forall₂.cons ho
      (List.rel_append (ShowsAll.forall₂ hts) (List.Forall₂.cons hc List.Forall₂.nil))

theorem ShowsAll.forall₂ : {ts : List TokenTree} → {ps : List Piece} → ShowsAll ts ps →
    List.Forall₂ (fun (u : Token) (w : String × Word) => u.Is w.1 w.2) (TokenTree.tokensOf ts)
      (wordsOf ps)
  | [], [], _ => List.Forall₂.nil
  | _ :: _, _ :: _, h => List.rel_append (TokenTree.Shows.forall₂ h.1) (ShowsAll.forall₂ h.2)

end

/-- Every token of a forest is a word of its outline. -/
theorem ShowsAll.isWord_of_mem {ts : List TokenTree} {ps : List Piece}
    (h : ShowsAll ts ps) {t : Token} (ht : t ∈ TokenTree.tokensOf ts) :
    ∃ w ∈ wordsOf ps, t.IsWord w.2 := by
  have hwords := h.forall₂
  generalize TokenTree.tokensOf ts = toks at hwords ht
  generalize wordsOf ps = words at hwords ⊢
  induction hwords with
  | nil => cases ht
  | @cons u w _ ws hu _ ih =>
    rcases List.mem_cons.1 ht with rfl | ht
    · exact ⟨w, List.mem_cons_self, hu.isWord⟩
    · obtain ⟨v, hv, his⟩ := ih ht
      exact ⟨v, List.mem_cons_of_mem _ hv, his⟩

/-! ## Spelling of tokens -/

/-- A token with the gap before it. -/
def Token.spelling (t : Token) : List Char := t.gap.toList ++ t.text.toList

theorem toList_textOfTokens_cons (t : Token) (ts : List Token) :
    (TokenTree.textOfTokens (t :: ts)).toList = t.text.toList ++ ts.flatMap Token.spelling := by
  have key : ∀ (us : List Token) (acc : String),
      (us.foldl (fun acc u => acc ++ u.gap ++ u.text) acc).toList =
        acc.toList ++ us.flatMap Token.spelling := by
    intro us
    induction us with
    | nil => simp
    | cons u us ih =>
      intro acc
      rw [List.foldl_cons, ih]
      simp [Token.spelling]
  exact key ts t.text

mutual

theorem Piece.spell_eq : (p : Piece) →
    p.spell = p.words.flatMap fun w => w.1.toList ++ w.2.text.toList
  | .word g w => by simp [Piece.spell, Piece.words]
  | .group g b inner g' => by
    simp [Piece.spell, Piece.words, spellAll_eq inner, Word.mark]

theorem spellAll_eq : (ps : List Piece) →
    spellAll ps = (wordsOf ps).flatMap fun w => w.1.toList ++ w.2.text.toList
  | [] => rfl
  | p :: ps => by simp [Piece.spell_eq p, spellAll_eq ps]

end

theorem Token.gap_of_no_comment {t : Token} (h : t.comments = []) : t.gap = t.lexeme.blank := by
  rw [Token.gap, h]
  rfl

/-- A gap without line feed is kept. -/
theorem Token.Is.spelling_eq {t : Token} {g : String} {w : Word} (h : t.Is g w)
    (hg : '\n' ∉ g.toList) : t.spelling = g.toList ++ w.text.toList := by
  have hgap : t.lexeme.blank = g := h.gap.resolve_right fun hn => hg hn.1
  rw [Token.spelling, Token.gap_of_no_comment h.comments, hgap, h.isWord.text_eq]

theorem flatMap_spelling {toks : List Token} {words : List (String × Word)}
    (h : List.Forall₂ (fun (u : Token) (w : String × Word) => u.Is w.1 w.2) toks words)
    (hn : '\n' ∉ words.flatMap fun w => w.1.toList ++ w.2.text.toList) :
    toks.flatMap Token.spelling = words.flatMap fun w => w.1.toList ++ w.2.text.toList := by
  induction h with
  | nil => rfl
  | cons hu _ ih =>
    simp only [List.flatMap_cons, List.mem_append, not_or] at hn
    rw [List.flatMap_cons, List.flatMap_cons, hu.spelling_eq hn.1.1, ih hn.2]

/-! ## Forests -/

/-- An outline starts with a word, and a gap before it belongs to this word. -/
theorem exists_wordsOf_withGap {ps : List Piece} (h : ps ≠ []) :
    ∃ w ws, ∀ g, wordsOf (withGap g ps) = (g, w) :: ws := by
  obtain ⟨p, ps, rfl⟩ := List.exists_cons_of_ne_nil h
  cases p with
  | word g₀ w => exact ⟨w, wordsOf ps, fun g => rfl⟩
  | group g₀ b inner g' =>
    exact ⟨.mark b.opener, wordsOf inner ++ [(g', .mark b.closer)] ++ wordsOf ps, fun g => rfl⟩

theorem exists_withGap_eq (ps : List Piece) : ∃ g, withGap g ps = ps := by
  cases ps with
  | nil => exact ⟨"", rfl⟩
  | cons p ps =>
    cases p with
    | word g w => exact ⟨g, rfl⟩
    | group g b inner g' => exact ⟨g, rfl⟩

/-- Every character of a token stands in the source of the outline. -/
theorem Matches.mem_spellAll {ts : List TokenTree} {ps : List Piece} (h : Matches ts ps) {t : Token}
    (ht : t ∈ TokenTree.tokensOf ts) {c : Char} (hc : c ∈ t.text.toList) : c ∈ spellAll ps := by
  obtain ⟨g, hshow⟩ := h
  obtain ⟨v, hv, hword⟩ := hshow.isWord_of_mem ht
  have hps : ps ≠ [] := by
    rintro rfl
    cases hv
  obtain ⟨w, ws, hwords⟩ := exists_wordsOf_withGap hps
  obtain ⟨g₀, hg₀⟩ := exists_withGap_eq ps
  have hmem : ∃ u ∈ wordsOf ps, u.2 = v.2 := by
    rw [hwords g] at hv
    rw [← hg₀, hwords g₀]
    rcases List.mem_cons.1 hv with rfl | hv
    · exact ⟨(g₀, w), List.mem_cons_self, rfl⟩
    · exact ⟨v, List.mem_cons_of_mem _ hv, rfl⟩
  obtain ⟨u, hu, huv⟩ := hmem
  rw [spellAll_eq]
  refine List.mem_flatMap.2 ⟨u, hu, List.mem_append_right _ ?_⟩
  rwa [huv, ← hword.text_eq]

/-- The source of a forest is that of its outline, if that lies on one line. -/
theorem Matches.textOf_eq {ts : List TokenTree} {ps : List Piece} (h : Matches ts ps)
    (hn : '\n' ∉ spellAll ps) (hgap : withGap "" ps = ps) :
    (TokenTree.textOf ts).toList = spellAll ps := by
  by_cases hps : ps = []
  · subst hps
    rw [matches_nil] at h
    subst h
    rfl
  · obtain ⟨g, hshow⟩ := h
    obtain ⟨w, ws, hwords⟩ := exists_wordsOf_withGap hps
    have hall := hshow.forall₂
    rw [hwords g] at hall
    obtain ⟨t, toks, ht, htoks, htokens⟩ := List.forall₂_cons_right_iff.1 hall
    have hspell : spellAll ps = w.text.toList ++ ws.flatMap fun w =>
        w.1.toList ++ w.2.text.toList := by
      rw [spellAll_eq, ← hgap, hwords ""]
      rfl
    rw [hspell, List.mem_append, not_or] at hn
    rw [TokenTree.textOf, htokens, toList_textOfTokens_cons, flatMap_spelling htoks hn.2,
      ht.isWord.text_eq, hspell]

theorem SoundAll.withGap_eq {ps : List Piece} (hs : SoundAll ps)
    (h : ∀ d ∈ (spellAll ps).head?, d ≠ ' ' ∧ d ≠ '\n') : withGap "" ps = ps := by
  have key : ∀ {g : String} {cs : List Char}, isGap g = true →
      (∀ d ∈ (g.toList ++ cs).head?, d ≠ ' ' ∧ d ≠ '\n') → "" = g := by
    intro g cs hg hd
    cases hcs : g.toList with
    | nil => simpa using hcs.symm
    | cons c rest =>
      have hc := hd c (by simp [hcs])
      have := List.all_eq_true.1 hg c (by simp [hcs])
      simp [hc] at this
  cases ps with
  | nil => rfl
  | cons p ps =>
    cases p with
    | word g w =>
      rw [spellAll_cons, Piece.spell, List.append_assoc] at h
      rw [withGap, key hs.1.1 h]
    | group g b inner g' =>
      rw [spellAll_cons, Piece.spell, List.append_assoc] at h
      rw [withGap, key hs.1.1 h]

/-- Whether a text lies on one line and starts with no gap. -/
def isInline (a : String) : Bool :=
  !a.toList.contains '\n' && a.toList.head?.all fun d => d != ' ' && d != '\n'

theorem isInline_iff {a : String} : isInline a = true ↔
    '\n' ∉ a.toList ∧ ∀ d ∈ a.toList.head?, d ≠ ' ' ∧ d ≠ '\n' := by
  unfold isInline
  cases a.toList <;> simp

theorem isInline_of_isName {s : String} (h : isName s = true) : isInline s = true := by
  refine isInline_iff.2 ⟨newline_not_mem_of_isName h, fun d hd => ?_⟩
  have hchar := isNameChar_of_isName h (List.mem_of_mem_head? hd)
  constructor <;> (rintro rfl; exact absurd hchar (by decide))

theorem Spelt.textOf_eq {a : String} {ps : List Piece} (h : Spelt a ps) (ha : isInline a = true)
    {ts : List TokenTree} (hts : Matches ts ps) : TokenTree.textOf ts = a := by
  rw [isInline_iff, h.toList_eq] at ha
  obtain ⟨hn, hhead⟩ := ha
  rw [← String.toList_inj, hts.textOf_eq hn (h.sound.withGap_eq hhead), h.toList_eq]

theorem Phrase.text {a : String} {Q : Range → Prop} (h : Phrase a Q) (ha : isInline a = true) :
    Phrase a fun r => Q r ∧ r.text = a := by
  obtain ⟨ps, hs, hl, hm⟩ := h
  exact ⟨ps, hs, hl, fun ts hts follow => ⟨hm ts hts follow, hs.textOf_eq ha hts⟩⟩

/-- An expression on one line keeps its source. -/
theorem Reads.text {a : String} {P : Expr → Prop} (h : Reads a P) (ha : isInline a = true) :
    Reads a fun e => P e ∧ e.text = a :=
  (Phrase.text h ha).imp fun _ hr fuel hf =>
    let ⟨e, he, hrange, hp⟩ := hr.1 fuel hf
    ⟨e, he, hrange, hp, by rw [Expr.text, hrange, hr.2]⟩

/-- The gap before a forest. -/
def gapBefore (ts : List TokenTree) : String :=
  ((TokenTree.tokensOf ts).head?.map Token.gap).getD ""

theorem textOf_append {ts us : List TokenTree} (ht : ts ≠ []) (hu : us ≠ []) :
    TokenTree.textOf (ts ++ us) = TokenTree.textOf ts ++ gapBefore us ++ TokenTree.textOf us := by
  obtain ⟨t, ts', hts⟩ := List.exists_cons_of_ne_nil (tokensOf_ne_nil ht)
  obtain ⟨u, us', hus⟩ := List.exists_cons_of_ne_nil (tokensOf_ne_nil hu)
  rw [← String.toList_inj]
  simp only [TokenTree.textOf, tokensOf_append, gapBefore, hts, hus, List.cons_append,
    toList_textOfTokens_cons, String.toList_append, List.head?_cons, Option.map_some,
    Option.getD_some]
  simp [Token.spelling]

theorem Token.Is.isGap_gap {t : Token} {g : String} {w : Word} (h : t.Is g w)
    (hg : isGap g = true) :
    isGap t.gap = true := by
  rw [Token.gap_of_no_comment h.comments]
  rcases h.gap with hgap | hgap
  · rwa [hgap]
  · exact hgap.2

theorem ShowsAll.isGap_gapBefore {ts : List TokenTree} {ps : List Piece} (h : ShowsAll ts ps)
    (hs : SoundAll ps) : isGap (gapBefore ts) = true := by
  cases ps with
  | nil =>
    rw [showsAll_nil] at h
    subst h
    rfl
  | cons p ps =>
    obtain ⟨t, us, rfl, ht, -⟩ := showsAll_cons.1 h
    cases p with
    | word g w =>
      obtain ⟨u, rfl, hu⟩ := shows_word.1 ht
      exact hu.isGap_gap hs.1.1
    | group g b inner g' =>
      obtain ⟨o, vs, c, rfl, ho, -, -⟩ := shows_group.1 ht
      exact ho.isGap_gap hs.1.1

end WidgetBridge.WidgetGrammar
