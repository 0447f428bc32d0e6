import Mathlib.Data.List.TakeWhile
import WidgetBridge.Proofs.Number.Readable
import WidgetBridge.Proofs.WidgetGrammar.LiteralStep
import WidgetBridge.Proofs.WidgetGrammar.SourceText

/-!
# What the lexemes of a source are

A source is either cut into tokens or refused.  The tokens with their gaps make up the source, their
indices grow, and the number of every numeral can be read (`Source.Cut`).  A refusal states the
place of the fault, but for two faults, `LexFault`: an escape whose digits name no character, and a
digit that starts no number.
-/

namespace WidgetBridge.WidgetGrammar

open WidgetBridge.Text WidgetBridge.Number

/-! ## Ends of attempts -/

/-- An attempt whose results have one property and whose failures have another. -/
structure Ends {α : Type} (x : Attempt α) (P : α → Prop) (F : Failure → Prop) : Prop where
  of_ok : ∀ a, x = .ok a → P a
  of_error : ∀ f, x = .error f → F f

section Ends

variable {α β : Type} {x : Attempt α} {P : α → Prop} {Q : β → Prop} {F : Failure → Prop}

theorem Ends.ok {a : α} (h : P a) : Ends (.ok a) P F :=
  ⟨by rintro _ ⟨⟩; exact h, nofun⟩

theorem Ends.done {a : α} : Ends (.ok a) (fun _ => True) F := .ok trivial

theorem Ends.error {f : Failure} (h : F f) : Ends (.error f : Attempt α) P F :=
  ⟨nofun, by rintro _ ⟨⟩; exact h⟩

theorem Ends.bind (hx : Ends x P F) {g : α → Attempt β} (hg : ∀ a, P a → Ends (g a) Q F) :
    Ends (x >>= g) Q F := by
  cases x with
  | ok a => exact hg a (hx.of_ok a rfl)
  | error f => exact .error (hx.of_error f rfl)

theorem Ends.map (hx : Ends x P F) {g : α → β} (hg : ∀ a, P a → Q (g a)) : Ends (x.map g) Q F := by
  cases x with
  | ok a => exact .ok (hg a (hx.of_ok a rfl))
  | error f => exact .error (hx.of_error f rfl)

theorem Ends.imp (hx : Ends x P F) {P' : α → Prop} {F' : Failure → Prop} (hP : ∀ a, P a → P' a)
    (hF : ∀ f, F f → F' f) : Ends x P' F' :=
  ⟨fun a ha => hP a (hx.of_ok a ha), fun f hf => hF f (hx.of_error f hf)⟩

theorem Ends.true (hx : Ends x P F) : Ends x (fun _ => True) F :=
  hx.imp (fun _ _ => trivial) fun _ => id

end Ends

/-- A failure that says what is wrong and where. -/
def Placed (f : Failure) : Prop := ∃ message place, f = .malformed message place

/-! ## Numerals -/

theorem exists_exponentLength (cs : List Char) : ∃ exponent rest, cs = exponent ++ rest ∧
    exponentLength cs = exponent.length ∧ IsExponent exponent := by
  have hnone : ∃ exponent rest, cs = exponent ++ rest ∧ 0 = exponent.length ∧ IsExponent exponent :=
    ⟨[], cs, rfl, rfl, .inl rfl⟩
  cases cs with
  | nil => exact hnone
  | cons mark cs =>
    have hsigned (sign ds : List Char) (hcs : cs = sign ++ ds)
        (hsign : sign = [] ∨ sign = ['+'] ∨ sign = ['-'])
          (hmark : (mark == 'e' || mark == 'E') = true) :
        ∃ exponent rest, mark :: cs = exponent ++ rest ∧
          (if (ds.takeWhile isDecimal).length == 0 then 0
            else 1 + sign.length + (ds.takeWhile isDecimal).length) = exponent.length ∧
          IsExponent exponent := by
      by_cases hlen : (ds.takeWhile isDecimal).length = 0
      · simpa [hlen] using hnone
      · refine ⟨mark :: (sign ++ ds.takeWhile isDecimal), ds.dropWhile isDecimal, ?_, ?_, .inr ?_⟩
        · simp [hcs]
        · simp [hlen]
          omega
        · refine ⟨mark, sign, _, by simpa using hmark, hsign, ⟨?_, ?_⟩, rfl⟩
          · exact fun hnil => hlen (by simp [hnil])
          · exact fun c hc => List.mem_takeWhile_imp hc
    unfold exponentLength
    dsimp only
    by_cases hmark : (mark == 'e' || mark == 'E') = true
    · rw [if_pos hmark]
      split
      · next ds => exact hsigned ['+'] ds rfl (by simp) hmark
      · next ds => exact hsigned ['-'] ds rfl (by simp) hmark
      · exact hsigned [] cs rfl (by simp) hmark
    · rw [if_neg hmark]
      exact hnone

theorem exists_decimalLength {cs : List Char} {n : Nat} (h : decimalLength cs = some n) :
    ∃ whole places exponent rest, cs = whole ++ places ++ exponent ++ rest ∧
      n = (whole ++ places ++ exponent).length ∧ IsDigits whole ∧ IsPlaces places ∧
      IsExponent exponent := by
  have hcut : cs.drop (cs.takeWhile isDecimal).length = cs.dropWhile isDecimal := by
    nth_rewrite 2 [← List.takeWhile_append_dropWhile (p := isDecimal) (l := cs)]
    exact List.drop_left
  have hfinish (places rest : List Char) (hlen : (cs.takeWhile isDecimal).length ≠ 0)
      (hrest : cs.dropWhile isDecimal = places ++ rest) (hp : IsPlaces places)
      (h : (cs.takeWhile isDecimal).length + places.length +
        exponentLength (cs.drop ((cs.takeWhile isDecimal).length + places.length)) = n) :
      ∃ whole places exponent rest, cs = whole ++ places ++ exponent ++ rest ∧
        n = (whole ++ places ++ exponent).length ∧ IsDigits whole ∧ IsPlaces places ∧
        IsExponent exponent := by
    obtain ⟨exponent, rest', hrest', hlength, he⟩ := exists_exponentLength rest
    have hdrop : cs.drop ((cs.takeWhile isDecimal).length + places.length) = rest := by
      rw [← List.drop_drop, hcut, hrest, List.drop_left]
    rw [hdrop, hlength] at h
    refine ⟨cs.takeWhile isDecimal, places, exponent, rest', ?_, ?_, ⟨?_, ?_⟩, hp, he⟩
    · rw [List.append_assoc, ← hrest', List.append_assoc, ← hrest, List.takeWhile_append_dropWhile]
    · simp only [List.length_append]
      omega
    · exact fun hnil => hlen (by simp [hnil])
    · exact fun c hc => List.mem_takeWhile_imp hc
  unfold decimalLength at h
  dsimp only at h
  by_cases hlen : (cs.takeWhile isDecimal).length = 0
  · simp [hlen] at h
  · rw [if_neg (by simpa using hlen), hcut, Option.some.injEq] at h
    split at h
    · next ds heq =>
      by_cases hplaces : (ds.takeWhile isDecimal).length = 0
      · rw [if_pos (by simpa using hplaces)] at h
        exact hfinish [] _ hlen (List.nil_append _).symm (.inl rfl) h
      · rw [if_neg (by simpa using hplaces)] at h
        refine hfinish ('.' :: ds.takeWhile isDecimal) (ds.dropWhile isDecimal) hlen ?_
          (.inr ⟨_, ⟨?_, ?_⟩, rfl⟩) h
        · rw [heq, List.cons_append, List.takeWhile_append_dropWhile]
        · exact fun hnil => hplaces (by simp [hnil])
        · exact fun c hc => List.mem_takeWhile_imp hc
    · exact hfinish [] _ hlen (List.nil_append _).symm (.inl rfl) h

theorem hasHexMark_eq_false {whole places exponent : List Char} (hw : IsDigits whole)
    (hp : IsPlaces places) (he : IsExponent exponent) :
    hasHexMark (whole ++ places ++ exponent) = false := by
  have hdigits {ds : List Char} (hd : IsDigits ds) : ∀ c ∈ ds, ¬(c = 'x' ∨ c = 'X') := by
    rintro c hc (rfl | rfl)
    · exact ne_of_isDecimal (hd.isDecimal _ hc) (by decide) rfl
    · exact ne_of_isDecimal (hd.isDecimal _ hc) (by decide) rfl
  have hall : ∀ c ∈ whole ++ places ++ exponent, ¬(c = 'x' ∨ c = 'X') := by
    simp only [List.forall_mem_append]
    refine ⟨⟨hdigits hw, ?_⟩, ?_⟩
    · rcases hp with rfl | ⟨digits, hd, rfl⟩
      · simp
      · exact List.forall_mem_cons.2 ⟨by decide, hdigits hd⟩
    · rcases he with rfl | ⟨mark, sign, digits, hmark, hsign, hd, rfl⟩
      · simp
      · refine List.forall_mem_cons.2 ⟨?_, List.forall_mem_append.2 ⟨?_, hdigits hd⟩⟩
        · rcases hmark with rfl | rfl <;> decide
        · rcases hsign with rfl | rfl | rfl
          · exact List.forall_mem_nil _
          · exact List.forall_mem_singleton.2 (by decide)
          · exact List.forall_mem_singleton.2 (by decide)
  by_contra hmark
  unfold hasHexMark at hmark
  split at hmark
  · next x rest heq =>
    apply hall x (by simp [heq])
    rw [Bool.not_eq_false, Bool.or_eq_true, beq_iff_eq, beq_iff_eq] at hmark
    exact hmark
  · exact hmark rfl

theorem exists_numeralValue_of_decimal {whole places exponent : List Char} (hw : IsDigits whole)
    (hp : IsPlaces places) (he : IsExponent exponent) :
    ∃ v, numeralValue (String.ofList (whole ++ places ++ exponent)) = .ok v := by
  unfold numeralValue
  rw [String.toList_ofList, hasHexMark_eq_false hw hp he]
  by_cases hall : (whole ++ places ++ exponent).all isDecimal = true
  · have hdigits : IsDigits (whole ++ places ++ exponent) :=
      ⟨by simp [hw.ne_nil], List.all_eq_true.1 hall⟩
    obtain ⟨i, hi⟩ := Option.isSome_iff_exists.1 (isSome_readInt? (.inl rfl) hdigits)
    rw [List.nil_append] at hi
    simp only [Bool.false_eq_true, if_false, hall, if_true, hi]
    exact ⟨_, rfl⟩
  · obtain ⟨x, hx⟩ := Option.isSome_iff_exists.1 (isSome_readFloat? (.inl rfl) hw hp he)
    rw [List.nil_append] at hx
    simp only [Bool.false_eq_true, if_false, hall, hx]
    exact ⟨_, rfl⟩

/-- What is cut off as a numeral writes a number. -/
theorem exists_numeralValue {cs : List Char} {n : Nat} (h : numberLength cs = some n) :
    n ≠ 0 ∧ ∃ v, numeralValue (String.ofList (cs.take n)) = .ok v := by
  have hdecimal (h : decimalLength cs = some n) :
      n ≠ 0 ∧ ∃ v, numeralValue (String.ofList (cs.take n)) = .ok v := by
    obtain ⟨whole, places, exponent, rest, rfl, rfl, hw, hp, he⟩ := exists_decimalLength h
    rw [List.take_left]
    exact ⟨by simp [hw.ne_nil], exists_numeralValue_of_decimal hw hp he⟩
  unfold numberLength at h
  split at h
  · next x ds =>
    dsimp only at h
    split_ifs at h with hhex
    · cases h
      rw [Bool.and_eq_true] at hhex
      have hmark : x = 'x' ∨ x = 'X' := by simpa using hhex.1
      have hne : ds.takeWhile isHexDigit ≠ [] := fun hnil => by simp [hnil] at hhex
      have htake : ('0' :: x :: ds).take ((ds.takeWhile isHexDigit).length + 2) =
          '0' :: x :: ds.takeWhile isHexDigit := by
        rw [List.take_succ_cons, List.take_succ_cons]
        nth_rewrite 2 [← List.takeWhile_append_dropWhile (p := isHexDigit) (l := ds)]
        rw [List.take_left]
      obtain ⟨i, hi⟩ := Option.isSome_iff_exists.1
        (isSome_readHex? hmark hne fun c hc => List.mem_takeWhile_imp hc)
      have hhas : hasHexMark ('0' :: x :: ds.takeWhile isHexDigit) = true := hhex.1
      unfold numeralValue
      rw [htake, String.toList_ofList, if_pos hhas, hi]
      exact ⟨by omega, _, rfl⟩
    · exact hdecimal h
  · exact hdecimal h

theorem numberLength_of_isDecimal {c : Char} {cs : List Char} (h : isDecimal c = true) :
    numberLength (c :: cs) ≠ none := by
  have hdecimal : decimalLength (c :: cs) ≠ none := by
    unfold decimalLength
    simp [h]
  unfold numberLength
  split
  · dsimp only
    split_ifs
    · nofun
    · exact hdecimal
  · exact hdecimal

/-! ## Faults in lexemes -/

theorem LexFault.not_placed {cs : List Char} {f : Failure} (h : LexFault cs f) : ¬Placed f := by
  rcases h.eq with rfl | rfl | rfl <;> simp [Placed]

theorem stopsIn_literalAt (raw : Bool) (lead : Nat) (mark : Char) (cs : List Char) :
    StopsIn 0 lead (mark :: cs) Prod.fst (literalAt raw lead mark cs) := by
  unfold literalAt
  have hpos := length_delimiter_pos (quotesAt mark cs)
  dsimp only
  generalize (quotesAt mark cs).delimiter.length = n at hpos
  obtain ⟨k, rfl⟩ := Nat.exists_eq_succ_of_ne_zero (Nat.pos_iff_ne_zero.1 hpos)
  have hbody :=
    (halts (2 * cs.length + 2)).body_drop raw (quotesAt mark cs) (Nat.zero_le lead) (k + 1) [] []
    (mark :: cs)
  rw [List.drop_succ_cons] at hbody
  rw [Nat.succ_eq_add_one, Nat.add_sub_cancel]
  cases hlit : literalBody (2 * cs.length + 2) raw (quotesAt mark cs) 0 (lead + (k + 1)) [] []
    (cs.drop k) with
  | error e =>
    rw [hlit] at hbody
    exact hbody
  | ok r =>
    rw [hlit] at hbody
    exact hbody

theorem isIn_of_cutLiteral {raw : Bool} {lead : Nat} {mark : Char} {cs : List Char} {e : Fault}
    (h : cutLiteral raw lead mark cs = .error e) :
    e.IsIn 0 (lead + (mark :: cs).length) (mark :: cs) := by
  have hstops := stopsIn_literalAt raw lead mark cs
  unfold cutLiteral at h
  cases hlit : literalAt raw lead mark cs with
  | error f =>
    rw [hlit] at h hstops
    cases h
    exact hstops
  | ok r =>
    rw [hlit] at h
    cases h

theorem kind_of_cutLiteral {raw : Bool} {lead : Nat} {mark : Char} {cs : List Char} {cut : Cut}
    (h : cutLiteral raw lead mark cs = .ok cut) : cut.kind = .string := by
  unfold cutLiteral at h
  cases hlit : literalAt raw lead mark cs with
  | error e =>
    rw [hlit] at h
    cases h
  | ok r =>
    rw [hlit] at h
    cases h
    rfl

/-- What follows the mark of a raw literal. -/
theorem eq_of_rawMark? {c q : Char} {cs rest : List Char} (h : rawMark? c cs = some (q, rest)) :
    IsQuote q ∧ cs = q :: rest := by
  unfold rawMark? at h
  split at h
  · split_ifs at h with hq
    cases h
    rw [Bool.and_eq_true] at hq
    exact ⟨isQuote_iff.1 hq.2, rfl⟩
  · cases h

/-- A lexeme that cannot be cut off is at fault in the text. -/
theorem isIn_of_cutLexeme {c : Char} {cs : List Char} {e : Fault} (h : cutLexeme c cs = .error e) :
    e.IsIn 0 (c :: cs).length (c :: cs) := by
  unfold cutLexeme at h
  split at h
  · next result hcomment =>
    unfold commentAt? at hcomment
    split at hcomment
    · cases hcomment
      cases h
    · cases hcomment
      split at h <;> cases h
      exact ⟨Nat.le_refl _, Nat.zero_le _, by decide⟩
    · cases hcomment
  · split at h
    · next q rest hraw =>
      obtain ⟨-, rfl⟩ := eq_of_rawMark? hraw
      refine (isIn_of_cutLiteral h).mono (Nat.le_refl _) ?_ (List.suffix_cons _ _).isInfix
      simp only [List.length_cons]
      omega
    · split_ifs at h with hquote hname hdigit
      · refine (isIn_of_cutLiteral h).mono (Nat.le_refl _) ?_ List.infix_rfl
        omega
      · split at h
        · cases h
        · next hnone =>
          cases h
          refine LexFault.digit List.mem_cons_self hdigit ?_
          by_contra hdec
          exact numberLength_of_isDecimal (Bool.not_eq_false _ ▸ hdec) hnone

/-- A numeral that is cut off writes a number. -/
theorem exists_numeralValue_of_cutLexeme {c : Char} {cs : List Char} {cut : Cut}
    (h : cutLexeme c cs = .ok cut) (hkind : cut.kind = .number) :
    ∃ v, numeralValue (String.ofList (c :: cs.take cut.more)) = .ok v := by
  unfold cutLexeme at h
  split at h
  · next result hcomment =>
    unfold commentAt? at hcomment
    split at hcomment
    · cases hcomment
      cases h
      cases hkind
    · cases hcomment
      split at h <;> cases h
      cases hkind
    · cases hcomment
  · split at h
    · rw [kind_of_cutLiteral h] at hkind
      cases hkind
    · split_ifs at h with hquote hname hdigit
      · rw [kind_of_cutLiteral h] at hkind
        cases hkind
      · cases h
        cases hkind
      · split at h
        · next n hn =>
          cases h
          obtain ⟨hpos, hv⟩ := exists_numeralValue hn
          obtain ⟨k, rfl⟩ := Nat.exists_eq_succ_of_ne_zero hpos
          exact hv
        · cases h
      · cases h
        cases hkind

/-! ## Lexemes -/

/-- A lexeme with the blanks before it. -/
def Lexeme.spelling (l : Lexeme) : List Char := l.blank.toList ++ l.text.toList

/-- Lexemes that make up a text, but for blanks at its end, and whose numerals can be read. -/
structure AreLexemes (cs : List Char) (ls : List Lexeme) : Prop where
  spelling : ∃ tail, cs = ls.flatMap Lexeme.spelling ++ tail
  text_ne : ∀ l ∈ ls, l.text ≠ ""
  numeral : ∀ l ∈ ls, l.kind = .number → ∃ v, numeralValue l.text = .ok v

theorem ends_nextOpen (stack : List (String × Place)) (kind : LexemeKind) (text : String)
    (place : Place) :
    Ends (nextOpen stack kind text place) (fun _ => True) Placed := by
  unfold nextOpen
  dsimp only
  split_ifs
  · exact .done
  · exact .done
  · split
    · exact .done
    · split
      · split_ifs
        · exact .done
        · exact .error ⟨_, _, rfl⟩
      · exact .error ⟨_, _, rfl⟩

theorem ends_scanFrom (stack : List (String × Place)) (blank : List Char) (spot : Spot)
    (cs : List Char) :
    Ends (scanFrom stack blank spot cs) (AreLexemes (blank.reverse ++ cs))
      fun f => Placed f ∨ LexFault cs f := by
  fun_induction scanFrom stack blank spot cs with
  | case1 blank spot => exact .ok ⟨⟨blank.reverse, by simp⟩, by simp, by simp⟩
  | case2 blank spot text place rest => exact .error (.inl ⟨_, _, rfl⟩)
  | case3 stack blank spot c cs hblank ih =>
    refine ih.imp (fun ls h => ?_) fun f h => ?_
    · simpa using h
    · exact h.imp id fun h => h.mono (List.suffix_cons _ _).isInfix
  | case4 stack blank spot c cs hblank distance message hcut => exact .error (.inl ⟨_, _, rfl⟩)
  | case5 stack blank spot c cs hblank f hcut => exact .error (.inr (isIn_of_cutLexeme hcut))
  | case6 stack blank spot c cs hblank cut hcut chars text ih =>
    refine Ends.bind ((ends_nextOpen _ _ _ _).imp (fun _ => id) fun _ => .inl) fun stack' _ => ?_
    refine Ends.bind ((ih stack').imp (fun _ => id) fun f h => ?_) fun ls h => ?_
    · exact h.imp id fun h => h.mono ((List.drop_suffix _ _).trans (List.suffix_cons _ _)).isInfix
    · obtain ⟨tail, htail⟩ := h.spelling
      refine .ok
        ⟨⟨tail, ?_⟩, List.forall_mem_cons.2 ⟨?_, h.text_ne⟩, List.forall_mem_cons.2 ⟨?_, h.numeral⟩⟩
      · rw [List.flatMap_cons, List.append_assoc, ← htail]
        simp [Lexeme.spelling, text, chars]
      · simp [← String.toList_inj, text, chars]
      · exact exists_numeralValue_of_cutLexeme hcut

/-! ## Tokens -/

/-- The text of lexemes that were passed over, the last one first. -/
theorem gap_eq (l : Lexeme) (index : Nat) (comments : List Lexeme) :
    (Token.mk l index comments).gap.toList =
      comments.flatMap Lexeme.spelling ++ l.blank.toList := by
  unfold Token.gap
  dsimp only
  induction comments with
  | nil => rfl
  | cons c cs ih =>
    rw [List.foldr_cons]
    simp [ih, Lexeme.spelling]

theorem spelling_attach (index : Nat) (pending ls : List Lexeme) :
    pending.reverse.flatMap Lexeme.spelling ++ ls.flatMap Lexeme.spelling =
      (TokenTree.attach index pending ls).1.flatMap Token.spelling ++
        (TokenTree.attach index pending ls).2.flatMap Lexeme.spelling := by
  induction ls generalizing index pending with
  | nil => simp [TokenTree.attach]
  | cons l ls ih =>
    unfold TokenTree.attach
    split_ifs with hcomment
    · rw [← ih index (l :: pending)]
      simp
    · have htail := ih (index + 1) []
      simp only [List.reverse_nil, List.flatMap_nil, List.nil_append] at htail
      simp [htail, Token.spelling, gap_eq, Lexeme.spelling, Token.text]

theorem mem_attach {index : Nat} {pending ls : List Lexeme} {t : Token}
    (h : t ∈ (TokenTree.attach index pending ls).1) : t.lexeme ∈ ls ∧ index ≤ t.index := by
  induction ls generalizing index pending with
  | nil => cases h
  | cons l ls ih =>
    unfold TokenTree.attach at h
    split_ifs at h with hcomment
    · exact (ih h).imp (List.mem_cons_of_mem _) id
    · rcases List.mem_cons.1 h with rfl | h
      · exact ⟨List.mem_cons_self, Nat.le_refl _⟩
      · have := ih h
        exact ⟨List.mem_cons_of_mem _ this.1, by omega⟩

theorem pairwise_attach (index : Nat) (pending ls : List Lexeme) :
    (TokenTree.attach index pending ls).1.Pairwise fun t u => t.index < u.index := by
  induction ls generalizing index pending with
  | nil => exact List.Pairwise.nil
  | cons l ls ih =>
    unfold TokenTree.attach
    split_ifs with hcomment
    · exact ih index (l :: pending)
    · refine List.Pairwise.cons (fun u hu => ?_) (ih (index + 1) [])
      have := (mem_attach hu).2
      dsimp only
      omega

/-! ## Forests -/

theorem foldl_levels (inner here : List TokenTree) (levels : List (Token × List TokenTree)) :
    levels.foldl (fun inner level => inner ++ .leaf level.1 :: level.2) (inner ++ here) =
      inner ++ levels.foldl (fun inner level => inner ++ .leaf level.1 :: level.2) here := by
  induction levels generalizing here with
  | nil => rfl
  | cons level levels ih =>
    rw [List.foldl_cons, List.foldl_cons, List.append_assoc]
    exact ih _

theorem tokensOf_close_push (l : TokenTree.Levels) (t : Token) :
    TokenTree.tokensOf (l.push t).close = TokenTree.tokensOf l.close ++ [t] := by
  obtain ⟨here, levels⟩ := l
  have hleaf : TokenTree.tokensOf (TokenTree.Levels.close ⟨.leaf t :: here, levels⟩) =
      TokenTree.tokensOf (TokenTree.Levels.close ⟨here, levels⟩) ++ [t] := by
    unfold TokenTree.Levels.close
    dsimp only
    rw [show TokenTree.leaf t :: here = [.leaf t] ++ here from rfl, foldl_levels]
    simp [tokensOf_append, TokenTree.tokensOf, TokenTree.tokens]
  unfold TokenTree.Levels.push
  split_ifs with hopen hclose
  · unfold TokenTree.Levels.close
    dsimp only
    rw [List.foldl_cons, List.nil_append,
      show TokenTree.leaf t :: here = [.leaf t] ++ here from rfl, foldl_levels]
    simp [tokensOf_append, TokenTree.tokensOf, TokenTree.tokens]
  · split
    · next o outer rest hlevels =>
      dsimp only at hlevels
      subst hlevels
      unfold TokenTree.Levels.close
      dsimp only
      rw [List.foldl_cons, show here ++ .leaf o :: outer = (here ++ [.leaf o]) ++ outer by simp,
        foldl_levels,
        show TokenTree.group o here.reverse t :: outer =
          [.group o here.reverse t] ++ outer from rfl,
        foldl_levels]
      simp [tokensOf_append, TokenTree.tokensOf, TokenTree.tokens]
    · exact hleaf
  · exact hleaf

/-- The forest of tokens has these tokens. -/
theorem tokensOf_ofTokens (ts : List Token) : TokenTree.tokensOf (TokenTree.ofTokens ts) = ts := by
  have key (us : List Token) (l : TokenTree.Levels) :
      TokenTree.tokensOf (us.foldl TokenTree.Levels.push l).close =
        TokenTree.tokensOf l.close ++ us := by
    induction us generalizing l with
    | nil => simp
    | cons u us ih =>
      rw [List.foldl_cons, ih, tokensOf_close_push, List.append_assoc, List.singleton_append]
  exact key ts {}

/-! ## Sources -/

/-- What is read of a source text. -/
structure Source.Cut (source : String) (s : Source) : Prop where
  spelling : ∃ tail, source.toList = s.tokens.flatMap Token.spelling ++ tail
  tokensOf_trees : TokenTree.tokensOf s.trees = s.tokens
  inOrder : s.tokens.Pairwise fun t u => t.index < u.index
  numeral : ∀ t ∈ s.tokens, t.lexeme.kind = .number → ∃ v, numeralValue t.text = .ok v

/-- A source is cut into tokens, or refused for a fault of its lexemes. -/
theorem ends_read (source : String) :
    Ends (Source.read source) (Source.Cut source) fun f => Placed f ∨ LexFault source.toList f := by
  refine Ends.bind (ends_scanFrom [] [] {} source.toList) fun ls h => ?_
  obtain ⟨tail, htail⟩ := h.spelling
  have htail' := spelling_attach 0 [] ls
  refine .ok
    ⟨⟨(TokenTree.attach 0 [] ls).2.flatMap Lexeme.spelling ++ tail, ?_⟩, tokensOf_ofTokens _,
    pairwise_attach _ _ _, ?_⟩
  · simp only [List.reverse_nil, List.flatMap_nil, List.nil_append] at htail htail'
    rw [htail, htail', List.append_assoc]
  · exact fun t ht => h.numeral t.lexeme (mem_attach ht).1

end WidgetBridge.WidgetGrammar
