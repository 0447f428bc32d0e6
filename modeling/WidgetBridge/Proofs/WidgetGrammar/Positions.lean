import WidgetBridge.Proofs.WidgetGrammar.Extension

/-!
# Where tokens stand

Every token of a source knows the place where it starts.  The scanner counts the characters that it
has taken; `LexemesLaid` says that each lexeme starts where the blanks before it end, and
`TokensLaid` says the same of tokens and their gaps.

The tokens of a source are numbered from zero (`index_getElem_of_read`), and the source of a run of
them is the slice of the text from the start of the first to the end of the last
(`textOfTokens_eq_slice`).
-/

namespace WidgetBridge.WidgetGrammar

open WidgetBridge.Text

/-! ## Spots -/

@[simp] theorem Spot.advance_nil (s : Spot) : s.advance [] = s := rfl

@[simp] theorem Spot.advance_append (s : Spot) (cs ds : List Char) :
    s.advance (cs ++ ds) = (s.advance cs).advance ds := List.foldl_append

theorem Spot.offset_advance (s : Spot) (cs : List Char) :
    (s.advance cs).offset = s.offset + cs.length := by
  induction cs generalizing s with
  | nil => rfl
  | cons c cs ih =>
    have hstep : s.advance (c :: cs) = (s.step c).advance cs := rfl
    have hoffset : (s.step c).offset = s.offset + 1 := rfl
    rw [hstep, ih, hoffset, List.length_cons]
    omega

/-! ## Lexemes -/

/-- The spot where a lexeme starts. -/
def Lexeme.spot (l : Lexeme) : Spot := ⟨l.offset, l.place⟩

/-- Lexemes each of which starts where the blanks before it end. -/
def LexemesLaid : Spot → List Lexeme → Prop
  | _, [] => True
  | spot, l :: ls => l.spot = spot.advance l.blank.toList ∧ LexemesLaid (spot.advance l.spelling) ls

/-- The lexemes of a text are laid from the spot where the blanks before the first one start. -/
theorem laid_of_scanFrom {stack : List (String × Place)} {blank : List Char} {spot start : Spot}
    {cs : List Char} {ls : List Lexeme} (h : scanFrom stack blank spot cs = .ok ls)
    (hspot : spot = start.advance blank.reverse) : LexemesLaid start ls := by
  fun_induction scanFrom stack blank spot cs generalizing start ls with
  | case1 => cases h; trivial
  | case2 => cases h
  | case3 stack blank spot c cs hblank ih =>
    refine ih h ?_
    rw [List.reverse_cons, Spot.advance_append, ← hspot]
    rfl
  | case4 => cases h
  | case5 => cases h
  | case6 stack blank spot c cs hblank cut hcut chars =>
    rename_i text ih
    obtain ⟨next, -, h⟩ := exists_of_bind_ok h
    obtain ⟨ms, hscan, h⟩ := exists_of_bind_ok h
    cases h
    have hblanks : (String.ofList blank.reverse).toList = blank.reverse := String.toList_ofList
    have hchars : text.toList = chars := String.toList_ofList
    refine ⟨?_, ih next hscan ?_⟩
    · rw [Lexeme.spot, hblanks, ← hspot]
    · rw [Lexeme.spelling, hblanks, hchars, Spot.advance_append, ← hspot]
      rfl

/-! ## Tokens -/

/-- The offset of the first character of a token. -/
def Token.start (t : Token) : Nat := t.lexeme.offset

/-- The offset after the last character of a token. -/
def Token.stop (t : Token) : Nat := t.start + t.text.length

/-- Tokens each of which starts where the gap before it ends. -/
def TokensLaid : Spot → List Token → Prop
  | _, [] => True
  | spot, t :: ts =>
    t.lexeme.spot = spot.advance t.gap.toList ∧ TokensLaid (spot.advance t.spelling) ts

theorem laid_attach {start : Spot} {pending ls : List Lexeme} (index : Nat)
    (h : LexemesLaid (start.advance (pending.reverse.flatMap Lexeme.spelling)) ls) :
    TokensLaid start (TokenTree.attach index pending ls).1 := by
  induction ls generalizing index pending start with
  | nil => trivial
  | cons l ls ih =>
    obtain ⟨hl, hls⟩ := h
    unfold TokenTree.attach
    split_ifs with hcomment
    · refine ih index ?_
      rw [List.reverse_cons, List.flatMap_append, Spot.advance_append]
      simpa using hls
    · have hgap := gap_eq l index pending.reverse
      refine ⟨?_, ih (index + 1) ?_⟩
      · rw [hgap, Spot.advance_append]
        exact hl
      · rw [Token.spelling, hgap]
        simpa [Lexeme.spelling, Token.text] using hls

theorem laid_of_read {source : String} {s : Source} (h : Source.read source = .ok s) :
    TokensLaid {} s.tokens := by
  obtain ⟨ls, hscan, h⟩ := exists_of_bind_ok h
  cases h
  exact laid_attach 0 (laid_of_scanFrom hscan rfl)

/-- A token starts after the tokens before it and its own gap. -/
theorem TokensLaid.start_eq {spot : Spot} {before after : List Token} {t : Token}
    (h : TokensLaid spot (before ++ t :: after)) :
    t.start = spot.offset + (before.flatMap Token.spelling).length + t.gap.length := by
  induction before generalizing spot with
  | nil =>
    have hoffset : t.start = (spot.advance t.gap.toList).offset := congrArg Spot.offset h.1
    rw [hoffset, Spot.offset_advance, String.length_toList]
    simp
  | cons u before ih =>
    rw [ih h.2, Spot.offset_advance, List.flatMap_cons, List.length_append]
    omega

theorem TokensLaid.stop_eq {spot : Spot} {before after : List Token} {t : Token}
    (h : TokensLaid spot (before ++ t :: after)) :
    t.stop = spot.offset + ((before ++ [t]).flatMap Token.spelling).length := by
  rw [Token.stop, h.start_eq]
  simp [Token.spelling, String.length_toList]
  omega

theorem index_getElem_attach (index : Nat) (pending ls : List Lexeme) (i : Nat)
    (hi : i < (TokenTree.attach index pending ls).1.length) :
    (TokenTree.attach index pending ls).1[i].index = index + i := by
  induction ls generalizing index pending i with
  | nil => cases hi
  | cons l ls ih =>
    unfold TokenTree.attach at hi ⊢
    split_ifs at hi ⊢ with hcomment
    · exact ih index (l :: pending) i hi
    · cases i with
      | zero => rfl
      | succ i =>
        simp only [List.getElem_cons_succ]
        rw [ih]
        omega

/-- The tokens of a source are numbered from zero. -/
theorem index_getElem_of_read {source : String} {s : Source}
    (h : Source.read source = .ok s) (i : Nat) (hi : i < s.tokens.length) :
    s.tokens[i].index = i := by
  obtain ⟨ls, -, h⟩ := exists_of_bind_ok h
  cases h
  rw [index_getElem_attach, Nat.zero_add]

/-- The source of a run of tokens is the slice of the text that they take up. -/
theorem textOfTokens_eq_slice {source : String} {s : Source} (h : Source.read source = .ok s)
    {before after run : List Token} {first last : Token} (hs : s.tokens = before ++ run ++ after)
    (hfirst : run.head? = some first) (hlast : run.getLast? = some last) :
    TokenTree.textOfTokens run = slice source first.start last.stop := by
  have hlaid := laid_of_read h
  obtain ⟨tail, hspelling⟩ := ((ends_read source).of_ok s h).spelling
  obtain ⟨rest, rfl⟩ := List.head?_eq_some_iff.1 hfirst
  obtain ⟨front, hfront⟩ := List.getLast?_eq_some_iff.1 hlast
  have hstart : first.start = (before.flatMap Token.spelling ++ first.gap.toList).length := by
    rw [hs, List.append_assoc, List.cons_append] at hlaid
    rw [hlaid.start_eq]
    simp [String.length_toList]
  have hstop : last.stop = ((before ++ first :: rest).flatMap Token.spelling).length := by
    rw [hs, hfront, ← List.append_assoc, List.append_assoc, List.singleton_append] at hlaid
    rw [hlaid.stop_eq, hfront]
    simp
  have hsource : source.toList = before.flatMap Token.spelling ++ first.gap.toList ++
      ((first.text.toList ++ rest.flatMap Token.spelling) ++
        (after.flatMap Token.spelling ++ tail)) := by
    rw [hspelling, hs]
    simp [Token.spelling]
  have hlength : last.stop - first.start =
      (first.text.toList ++ rest.flatMap Token.spelling).length := by
    rw [hstop, hstart]
    simp [Token.spelling]
    omega
  rw [← String.toList_inj, toList_textOfTokens_cons, slice, String.toList_ofList, hlength,
    hstart, hsource, List.drop_left, List.take_left]

end WidgetBridge.WidgetGrammar
