import Mathlib.Data.List.Forall2
import WidgetBridge.Proofs.WidgetGrammar.Spelling

/-!
# Phrases and listings

A `Phrase a Q` is a text that is read as a range with the property `Q`, wherever it stands between
commas.  A `Listing a Qs` is a text that is read as a range whose parts between commas have the
properties `Qs`, one by one.  Phrases make listings in the layouts of arguments and items:

* `listing_inline` for phrases on one line, with commas between them;
* `listing_gaps` for phrases with a gap before each and a comma after it;
* `listing_lines` for phrases on lines of their own, with a comma after each.
-/

namespace WidgetBridge.WidgetGrammar

open WidgetBridge.Text

/-! ## Tokens that are known words -/

/-- Whether a word is a given punctuator. -/
def Word.isPunct (w : Word) (s : String) : Bool := w.kind == .punct && w.text == s

section IsWord

variable {t : Token} {w : Word}

theorem Token.IsWord.text_eq (h : t.IsWord w) : t.text = w.text :=
  h.elim fun _ h => congrArg Word.text h.word

theorem Token.IsWord.kind_eq (h : t.IsWord w) : t.lexeme.kind = w.kind :=
  h.elim fun _ h => congrArg Word.kind h.word

theorem Token.IsWord.parts_eq (h : t.IsWord w) : t.lexeme.parts = w.parts :=
  h.elim fun _ h => congrArg Word.parts h.word

theorem Token.IsWord.comments_eq (h : t.IsWord w) : t.comments = [] :=
  h.elim fun _ h => h.comments

theorem Token.IsWord.isPunct_eq (h : t.IsWord w) (s : String) : t.isPunct s = w.isPunct s := by
  rw [Token.isPunct, h.kind_eq, h.text_eq, Word.isPunct]

theorem Token.IsWord.isIdent_eq (h : t.IsWord w) : t.isIdent = (w.kind == .ident) := by
  rw [Token.isIdent, h.kind_eq]

theorem Token.IsWord.isName_eq (h : t.IsWord w) (s : String) :
    t.isName s = (w.kind == .ident && w.text == s) := by
  rw [Token.isName, h.isIdent_eq, h.text_eq]

theorem Token.Is.isWord {g : String} (h : t.Is g w) : t.IsWord w := ⟨g, h⟩

end IsWord

/-! ## Sizes -/

theorem sizeOf'_append (ts us : List TokenTree) :
    TokenTree.sizeOf' (ts ++ us) = TokenTree.sizeOf' ts + TokenTree.sizeOf' us := by
  induction ts with
  | nil => simp [TokenTree.sizeOf']
  | cons t ts ih => simp [TokenTree.sizeOf', ih, Nat.add_assoc]

theorem sizeOf'_reverse (ts : List TokenTree) :
    TokenTree.sizeOf' ts.reverse = TokenTree.sizeOf' ts := by
  induction ts with
  | nil => rfl
  | cons t ts ih => simp [TokenTree.sizeOf', sizeOf'_append, ih, Nat.add_comm]

/-- The size of parts with a separator after each. -/
def sizeOfParts : List Range → Nat
  | [] => 0
  | r :: rs => TokenTree.sizeOf' r.trees + 1 + sizeOfParts rs

@[simp] theorem sizeOfParts_nil : sizeOfParts [] = 0 := rfl

@[simp] theorem sizeOfParts_cons (r : Range) (rs : List Range) :
    sizeOfParts (r :: rs) = TokenTree.sizeOf' r.trees + 1 + sizeOfParts rs := rfl

/-- Splitting makes no tokens. -/
theorem sizeOfParts_splitFrom (separator : String) (follow : Option Token)
    (part ts : List TokenTree) :
    sizeOfParts (Range.splitFrom separator follow part ts) ≤
      TokenTree.sizeOf' part + TokenTree.sizeOf' ts + 1 := by
  fun_induction Range.splitFrom separator follow part ts with
  | case1 part h => simp
  | case2 part h => simp [sizeOf'_reverse, TokenTree.sizeOf']
  | case3 part t ts ht rest hp ih =>
    have ih : sizeOfParts rest ≤ TokenTree.sizeOf' [] + TokenTree.sizeOf' ts + 1 := ih
    simp only [TokenTree.sizeOf', TokenTree.size] at ih ⊢
    omega
  | case4 part t ts ht rest hp ih =>
    have ih : sizeOfParts rest ≤ TokenTree.sizeOf' [] + TokenTree.sizeOf' ts + 1 := ih
    simp only [TokenTree.sizeOf', TokenTree.size, sizeOfParts_cons, sizeOf'_reverse] at ih ⊢
    omega
  | case5 part t ts ht ih =>
    simp only [TokenTree.sizeOf', TokenTree.size] at ih ⊢
    omega
  | case6 part o inner c ts ih =>
    simp only [TokenTree.sizeOf', TokenTree.size] at ih ⊢
    omega

/-! ## Separators -/

/-- Whether a punctuator does not stand in an outline outside of brackets. -/
def lacks (s : String) (ps : List Piece) : Bool := ps.all fun p =>
  match p with
  | .word _ w => !w.isPunct s
  | .group _ _ _ _ => true

@[simp] theorem lacks_nil (s : String) : lacks s [] = true := rfl

@[simp] theorem lacks_word_cons (s g : String) (w : Word) (ps : List Piece) :
    lacks s (.word g w :: ps) = (!w.isPunct s && lacks s ps) := rfl

@[simp] theorem lacks_group_cons (s g g' : String) (b : Bracket) (inner ps : List Piece) :
    lacks s (.group g b inner g' :: ps) = lacks s ps := rfl

theorem lacks_append (s : String) (ps qs : List Piece) :
    lacks s (ps ++ qs) = (lacks s ps && lacks s qs) := by
  simp [lacks]

theorem lacks_indentAll (s lead : String) (fresh : Bool) (ps : List Piece) :
    lacks s (indentAll lead fresh ps) = lacks s ps := by
  induction ps generalizing fresh with
  | nil => rfl
  | cons p ps ih =>
    cases p <;> simp [indentAll, Piece.indent, ih]

/-- A part in which a separator does not stand is passed over. -/
theorem splitFrom_append {separator : String} {ps : List Piece} (hp : lacks separator ps = true)
    {ts : List TokenTree} (hts : Matches ts ps) (follow : Option Token) (part us : List TokenTree) :
    Range.splitFrom separator follow part (ts ++ us) =
      Range.splitFrom separator follow (ts.reverse ++ part) us := by
  induction ps generalizing ts part with
  | nil =>
    rw [matches_nil] at hts
    simp [hts]
  | cons p ps ih =>
    cases p with
    | word g w =>
      obtain ⟨t, vs, rfl, ht, hv⟩ := matches_word_cons.1 hts
      rw [lacks_word_cons, Bool.and_eq_true] at hp
      have hw : t.isPunct separator = false := by simpa [ht.isPunct_eq] using hp.1
      rw [List.cons_append, Range.splitFrom, if_neg (by simp [hw]), ih hp.2 hv.matches]
      simp
    | group g b inner g' =>
      obtain ⟨o, ws, c, vs, rfl, -, -, -, -, hv⟩ := matches_group_cons.1 hts
      rw [List.cons_append, Range.splitFrom, ih hp hv.matches]
      simp

/-! ## Phrases -/

/-- A text that is read as a range with a property, whatever stands around it. -/
def Phrase (a : String) (Q : Range → Prop) : Prop :=
  ∃ ps, Spelt a ps ∧ lacks "," ps = true ∧ ∀ ts, Matches ts ps → ∀ follow, Q ⟨ts, follow⟩

theorem Phrase.imp {a : String} {Q Q' : Range → Prop} (h : Phrase a Q) (hQ : ∀ r, Q r → Q' r) :
    Phrase a Q' := by
  obtain ⟨ps, hs, hl, hm⟩ := h
  exact ⟨ps, hs, hl, fun ts hts follow => hQ _ (hm ts hts follow)⟩

/-! ## Leading gaps -/

/-- An outline with one more gap in front. -/
def leadWith (g : String) : List Piece → List Piece
  | [] => []
  | .word g₀ w :: ps => .word (g ++ g₀) w :: ps
  | .group g₀ b inner g' :: ps => .group (g ++ g₀) b inner g' :: ps

theorem matches_leadWith {g : String} {ps : List Piece} {ts : List TokenTree} :
    Matches ts (leadWith g ps) ↔ Matches ts ps := by
  cases ps with
  | nil => rfl
  | cons p ps => cases p <;> rfl

theorem spellAll_leadWith (g : String) {ps : List Piece} (h : ps ≠ []) :
    spellAll (leadWith g ps) = g.toList ++ spellAll ps := by
  cases ps with
  | nil => exact absurd rfl h
  | cons p ps => cases p <;> simp [leadWith, Piece.spell]

theorem isGap_append {g g' : String} (hg : isGap g = true) (hg' : isGap g' = true) :
    isGap (g ++ g') = true := by
  simp only [isGap, String.toList_append, List.all_append, Bool.and_eq_true] at *
  exact ⟨hg, hg'⟩

theorem soundAll_leadWith {g : String} (hg : isGap g = true) {ps : List Piece} (h : SoundAll ps) :
    SoundAll (leadWith g ps) := by
  cases ps with
  | nil => exact h
  | cons p ps =>
    cases p with
    | word g₀ w => exact ⟨⟨isGap_append hg h.1.1, h.1.2⟩, h.2⟩
    | group g₀ b inner g' => exact ⟨⟨isGap_append hg h.1.1, h.1.2⟩, h.2⟩

theorem Spelt.lead {a : String} {ps : List Piece} (h : Spelt a ps) {g : String}
    (hg : isGap g = true) : Spelt (g ++ a) (leadWith g ps) where
  toList_eq := by rw [String.toList_append, h.toList_eq, spellAll_leadWith g h.ne_nil]
  sound := soundAll_leadWith hg h.sound
  ne_nil := by
    obtain ⟨p, ps, rfl⟩ := List.exists_cons_of_ne_nil h.ne_nil
    cases p <;> simp [leadWith]

theorem lacks_leadWith (s g : String) (ps : List Piece) : lacks s (leadWith g ps) = lacks s ps := by
  cases ps with
  | nil => rfl
  | cons p ps => cases p <;> rfl

theorem Phrase.lead {a : String} {Q : Range → Prop} (h : Phrase a Q) {g : String}
    (hg : isGap g = true) : Phrase (g ++ a) Q := by
  obtain ⟨ps, hs, hc, hm⟩ := h
  exact ⟨_, hs.lead hg, by rw [lacks_leadWith, hc], fun ts hts => hm ts (matches_leadWith.1 hts)⟩

/-! ## Listings -/

/-- Ranges that have given properties, one by one. -/
abbrev Fit (Qs : List (Range → Prop)) (rs : List Range) : Prop :=
  List.Forall₂ (fun Q r => Q r) Qs rs

/-- An outline whose parts between commas have given properties. -/
def Splits (ps : List Piece) (Qs : List (Range → Prop)) : Prop :=
  ∀ ts, Matches ts ps → ∀ follow, Fit Qs (Range.splitFrom "," follow [] ts)

/-- The comma. -/
def comma : Word := .mark ","

theorem splits_nil : Splits [] [] := by
  intro ts hts follow
  rw [matches_nil] at hts
  subst hts
  exact List.Forall₂.nil

theorem splits_single {ps : List Piece} (hne : ps ≠ []) (hc : lacks "," ps = true)
    {Q : Range → Prop} (hQ : ∀ ts, Matches ts ps → ∀ follow, Q ⟨ts, follow⟩) : Splits ps [Q] := by
  intro ts hts follow
  have hsplit := splitFrom_append hc hts follow [] []
  rw [List.append_nil, List.append_nil, Range.splitFrom,
    if_neg (by simpa using hts.ne_nil hne), List.reverse_reverse] at hsplit
  rw [hsplit]
  exact List.Forall₂.cons (hQ ts hts follow) List.Forall₂.nil

theorem splits_cons {ps : List Piece} (hne : ps ≠ []) (hc : lacks "," ps = true)
    {Q : Range → Prop} (hQ : ∀ ts, Matches ts ps → ∀ follow, Q ⟨ts, follow⟩)
    {qs : List Piece} {Qs : List (Range → Prop)} (hq : Splits qs Qs) (g : String) :
    Splits (ps ++ .word g comma :: qs) (Q :: Qs) := by
  intro ts hts follow
  obtain ⟨us, vs, rfl, hu, hv⟩ := (matches_append hne).1 hts
  obtain ⟨t, ws, rfl, ht, hw⟩ := matches_word_cons.1 hv.matches
  have hcomma : t.isPunct "," = true := ht.isPunct_eq ","
  rw [splitFrom_append hc hu, Range.splitFrom, if_pos hcomma, if_neg (by simpa using hu.ne_nil hne)]
  simp only [List.append_nil, List.reverse_reverse]
  exact List.Forall₂.cons (hQ us hu (some t)) (hq ws hw.matches follow)

/-- A text whose parts between commas have given properties. -/
def Listing (a : String) (Qs : List (Range → Prop)) : Prop :=
  ∃ ps, a.toList = spellAll ps ∧ SoundAll ps ∧ Splits ps Qs

theorem listing_nil : Listing "" [] := ⟨[], rfl, trivial, splits_nil⟩

theorem Phrase.listing {a : String} {Q : Range → Prop} (h : Phrase a Q) : Listing a [Q] := by
  obtain ⟨ps, hs, hc, hm⟩ := h
  exact ⟨ps, hs.toList_eq, hs.sound, splits_single hs.ne_nil hc hm⟩

theorem stands_comma : comma.Stands := stands_of_isPlain (by decide)

theorem spelt_comma : Spelt "," [.word "" comma] :=
  spelt_word stands_comma (by decide) (g := "") (by decide)

/-- A comma may stand directly after everything, and everything directly after a comma. -/
theorem soundAll_comma {ps qs : List Piece} (hp : SoundAll ps) (hq : SoundAll qs) :
    SoundAll (ps ++ .word "" comma :: qs) := by
  refine soundAll_append hp ⟨spelt_comma.sound.1, fun d _ => ?_, hq⟩ fun d hd => ?_
  · exact Word.meets_of_isSoftMark (w := comma) rfl (by decide) d
  · simp only [spellAll_cons, Piece.spell, comma, Word.mark] at hd
    exact endMeets_of_isSoft ps (by cases hd; decide)

theorem listing_cons {a t : String} {Q : Range → Prop} {Qs : List (Range → Prop)} (ha : Phrase a Q)
    (ht : Listing t Qs) : Listing (a ++ "," ++ t) (Q :: Qs) := by
  obtain ⟨ps, hs, hc, hm⟩ := ha
  obtain ⟨qs, hq, hsound, hsplit⟩ := ht
  refine ⟨ps ++ .word "" comma :: qs, ?_, soundAll_comma hs.sound hsound,
    splits_cons hs.ne_nil hc hm hsplit ""⟩
  rw [String.toList_append, String.toList_append, hs.toList_eq, hq, spellAll_append, spellAll_cons,
    List.append_assoc]
  rfl

theorem Listing.lead {t : String} {Qs : List (Range → Prop)} (h : Listing t Qs) (hne : t ≠ "")
    {g : String} (hg : isGap g = true) : Listing (g ++ t) Qs := by
  obtain ⟨ps, hs, hsound, hsplit⟩ := h
  have hps : ps ≠ [] := by
    rintro rfl
    exact hne (by simpa using hs)
  exact ⟨leadWith g ps, by rw [String.toList_append, hs, spellAll_leadWith g hps],
    soundAll_leadWith hg hsound, fun ts hts => hsplit ts (matches_leadWith.1 hts)⟩

theorem Phrase.ne_empty {a : String} {Q : Range → Prop} (h : Phrase a Q) : a ≠ "" := by
  obtain ⟨ps, hs, -, -⟩ := h
  rintro rfl
  exact spellAll_ne_nil hs.sound hs.ne_nil hs.toList_eq.symm

/-- Phrases with commas between them. -/
theorem listing_inline {as : List String} {Qs : List (Range → Prop)}
    (h : List.Forall₂ Phrase as Qs) : Listing (join ", " as) Qs := by
  induction h with
  | nil => exact listing_nil
  | @cons a Q as Qs ha has ih =>
    cases has with
    | nil => exact ha.listing
    | @cons b Q' as Qs hb has =>
      have hne : join ", " (b :: as) ≠ "" := by
        cases as with
        | nil => exact hb.ne_empty
        | cons c cs =>
          rw [join_cons_cons]
          simp [hb.ne_empty]
      have := listing_cons ha (ih.lead hne (g := " ") (by decide))
      have hsep : a ++ ", " ++ join ", " (b :: as) = a ++ "," ++ (" " ++ join ", " (b :: as)) := by
        rw [show (", " : String) = "," ++ " " from rfl]
        simp only [String.append_assoc]
      rwa [join_cons_cons, hsep]

/-- Phrases with a gap before each and a comma after it. -/
theorem listing_gaps {gap : String} (hg : isGap gap = true) {as : List String}
    {Qs : List (Range → Prop)} (h : List.Forall₂ Phrase as Qs) :
    Listing (String.join (as.map fun a => gap ++ a ++ ",")) Qs := by
  induction h with
  | nil => exact listing_nil
  | cons ha _ ih =>
    rw [List.map_cons, String.join_cons]
    exact listing_cons (ha.lead hg) ih

theorem indentAll_append (lead : String) (fresh : Bool) {ps : List Piece} (h : ps ≠ [])
    (qs : List Piece) :
    indentAll lead fresh (ps ++ qs) = indentAll lead fresh ps ++ indentAll lead false qs := by
  induction ps generalizing fresh with
  | nil => exact absurd rfl h
  | cons p ps ih =>
    cases ps with
    | nil => rfl
    | cons q rs =>
      rw [List.cons_append, indentAll, ih false (List.cons_ne_nil _ _)]
      rfl

/-- Phrases on lines of their own, with a comma after each. -/
theorem listing_lines {lead : String} (hl : isIndent lead = true) {as : List String}
    {Qs : List (Range → Prop)} (h : List.Forall₂ Phrase as Qs) (hne : as ≠ []) :
    Listing ("\n" ++ join "\n" (as.map fun a => indentLines lead (a ++ ","))) Qs := by
  have step : ∀ {a t : String} {Q : Range → Prop} {Qs : List (Range → Prop)}, Phrase a Q →
      Listing t Qs → Listing ("\n" ++ indentLines lead (a ++ ",") ++ t) (Q :: Qs) := by
    rintro a t Q Qs ⟨ps, hs, hc, hm⟩ ⟨qs, hq, hsound, hsplit⟩
    have hcomma := (hs.append spelt_comma
      fun d hd => endMeets_of_isSoft ps (by cases hd; decide)).indent hl
    have hlead := hcomma.lead (g := "\n") (by decide)
    rw [indentAll_append lead true hs.ne_nil] at hlead
    have hne : indentAll lead true ps ≠ [] := (hs.indent hl).ne_nil
    have hcons : leadWith "\n" (indentAll lead true ps ++ indentAll lead false [.word "" comma]) =
        leadWith "\n" (indentAll lead true ps) ++ [.word "" comma] := by
      obtain ⟨p, rs, hp⟩ := List.exists_cons_of_ne_nil hne
      rw [hp]
      cases p <;> rfl
    rw [hcons] at hlead
    refine ⟨leadWith "\n" (indentAll lead true ps) ++ .word "" comma :: qs, ?_, ?_, ?_⟩
    · rw [String.toList_append, hlead.toList_eq, hq, spellAll_append, spellAll_append]
      simp
    · exact soundAll_comma (soundAll_leadWith (by decide) (hs.indent hl).sound) hsound
    · refine splits_cons ((hs.indent hl).lead (by decide)).ne_nil ?_ ?_ hsplit ""
      · rw [lacks_leadWith, lacks_indentAll, hc]
      · exact fun ts hts => hm ts ((matches_leadWith.1 hts).of_indent hl hs.sound)
  induction h with
  | nil => exact absurd rfl hne
  | @cons a Q as Qs ha has ih =>
    cases as with
    | nil =>
      cases has
      simpa [join] using step ha listing_nil
    | cons b bs =>
      have := step ha (ih (List.cons_ne_nil _ _))
      simpa only [List.map_cons, join_cons_cons, String.append_assoc] using this

end WidgetBridge.WidgetGrammar
