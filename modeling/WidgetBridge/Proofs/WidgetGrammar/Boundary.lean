import WidgetBridge.Proofs.Text.CharClass
import WidgetBridge.Proofs.Text.Layout
import WidgetBridge.WidgetGrammar.TokenTree

/-!
# Boundaries of lexemes

A `Word` is a lexeme wherever it stands.  A lexeme is cut off a text by looking at what follows it:
`Word.meets` says which characters may follow a word directly, and `Word.Stands` says that in front
of those the word is cut off as it is.  Spaces, line feeds, brackets and separators (`isSoft`) may
follow every word.

* `stands_name`, `stands_numeral` and `stands_mark` show it for names, numbers and punctuators;
* `Word.isPlain` is a test for these three kinds (`stands_of_isPlain`).
-/

namespace WidgetBridge.WidgetGrammar

open WidgetBridge.Text

/-! ## Words -/

/-- A lexeme without its place and the blanks before it. -/
@[ext] structure Word where
  kind : LexemeKind
  text : String
  parts : List Part := []
  deriving Repr, DecidableEq, Inhabited

/-- The word of a lexeme. -/
def Lexeme.word (l : Lexeme) : Word := ⟨l.kind, l.text, l.parts⟩

namespace Word

/-- A name. -/
def name (s : String) : Word := ⟨.ident, s, []⟩

/-- A number. -/
def numeral (s : String) : Word := ⟨.number, s, []⟩

/-- A punctuator. -/
def mark (s : String) : Word := ⟨.punct, s, []⟩

end Word

/-! ## What may follow a word -/

/-- The brackets and separators, which are part of no longer lexeme. -/
def softMarks : List Char := [',', ';', ':', '(', ')', '[', ']', '\x7b', '\x7d']

/-- A character that may follow every word: a space, a line feed, a bracket or a separator. -/
def isSoft (c : Char) : Bool := (' ' :: '\n' :: softMarks).contains c

/-- To show something of all soft characters it is enough to look at each of them. -/
theorem forall_isSoft {p : Char → Prop} [DecidablePred p]
    (h : (' ' :: '\n' :: softMarks).all (fun c => decide (p c)) = true) {c : Char}
    (hc : isSoft c = true) : p c :=
  forall_mem_of_all h c (by simpa [isSoft] using hc)

/-- The characters of the punctuators that are longer than one character. -/
def joiningMarks : List Char :=
  ['.', '?', '=', '~', '/', '<', '>', '!', '&', '|', '+', '-', '*', '%', '^']

/-- Whether a word is a bracket or a separator. -/
def Word.isSoftMark (w : Word) : Bool :=
  match w.text.toList with
  | [c] => softMarks.contains c
  | _ => false

/-- Whether a character may follow a word directly. -/
def Word.meets (w : Word) (d : Char) : Bool :=
  isSoft d ||
    match w.kind with
    | .ident => !isNameChar d && d != '\'' && d != '"'
    | .punct => w.isSoftMark || !joiningMarks.contains d
    | .string => d != '\''
    | _ => false

/-- A word that is cut off as it is in front of everything that may follow it. -/
structure Word.Stands (w : Word) : Prop where
  /-- It is no comment. -/
  kind_ne : w.kind ≠ .comment
  /-- It lies on one line. -/
  unbroken : '\n' ∉ w.text.toList
  cut : ∃ c cs, w.text.toList = c :: cs ∧ isBlank c = false ∧
    ∀ rest : List Char, (∀ d ∈ rest.head?, w.meets d = true) →
      cutLexeme c (cs ++ rest) = .ok ⟨w.kind, cs.length, w.parts⟩

theorem Word.meets_of_isSoft (w : Word) {d : Char} (h : isSoft d = true) :
    w.meets d = true := by
  simp [Word.meets, h]

theorem Word.meets_of_isSoftMark {w : Word} (hk : w.kind = .punct) (h : w.isSoftMark = true)
    (d : Char) : w.meets d = true := by
  simp [Word.meets, hk, h]

theorem not_isNameChar_of_isSoft {c : Char} (h : isSoft c = true) : isNameChar c = false :=
  forall_isSoft (p := fun c => isNameChar c = false) (by decide) h

theorem not_quote_of_isSoft {c : Char} (h : isSoft c = true) : c ≠ '\'' ∧ c ≠ '"' :=
  forall_isSoft (p := fun c => c ≠ '\'' ∧ c ≠ '"') (by decide) h

/-- Soft characters neither go on with a number nor start an exponent. -/
theorem not_numeral_of_isSoft {c : Char} (h : isSoft c = true) :
    isDecimal c = false ∧ c ≠ '.' ∧ c ≠ 'e' ∧ c ≠ 'E' ∧ c ≠ 'x' ∧ c ≠ 'X' := by
  revert h
  exact forall_isSoft
    (p := fun c => isDecimal c = false ∧ c ≠ '.' ∧ c ≠ 'e' ∧ c ≠ 'E' ∧ c ≠ 'x' ∧ c ≠ 'X')
      (by decide)

/-! ## Cutting -/

theorem commentAt?_of_ne {c : Char} (h : c ≠ '/') (cs : List Char) : commentAt? c cs = none := by
  unfold commentAt?
  split
  · exact absurd rfl h
  · exact absurd rfl h
  · rfl

theorem rawMark?_of_ne {c : Char} (hr : c ≠ 'r') (hR : c ≠ 'R') (cs : List Char) :
    rawMark? c cs = none := by
  cases cs <;> simp [rawMark?, hr, hR]

theorem rawMark?_of_head {c : Char} {cs : List Char} (h : ∀ d ∈ cs.head?, d ≠ '\'' ∧ d ≠ '"') :
    rawMark? c cs = none := by
  cases cs with
  | nil => rfl
  | cons d ds =>
    have := h d rfl
    simp [rawMark?, this.1, this.2]

theorem takeWhile_append_of_all {p : Char → Bool} {cs rest : List Char} (hcs : ∀ c ∈ cs, p c = true)
    (hrest : ∀ d ∈ rest.head?, p d = false) : (cs ++ rest).takeWhile p = cs := by
  induction cs with
  | nil =>
    cases rest with
    | nil => rfl
    | cons d ds => simp [hrest d rfl]
  | cons c cs ih =>
    rw [List.cons_append, List.takeWhile_cons, if_pos (hcs c List.mem_cons_self),
      ih fun d hd => hcs d (List.mem_cons_of_mem _ hd)]

/-! ### Names -/

/-- Whether a text is a name: letters, digits, `_` and `$`, with no digit in front. -/
def isName (s : String) : Bool :=
  match s.toList with
  | [] => false
  | c :: cs => isNameStart c && cs.all isNameChar

theorem isName_iff {s : String} : isName s = true ↔
    ∃ c cs, s.toList = c :: cs ∧ isNameStart c = true ∧ ∀ d ∈ cs, isNameChar d = true := by
  unfold isName
  split
  · simp [*]
  · rename_i c cs h
    simp [h]

theorem isNameChar_of_isName {s : String} (h : isName s = true) {c : Char} (hc : c ∈ s.toList) :
    isNameChar c = true := by
  obtain ⟨d, ds, hs, hd, hds⟩ := isName_iff.1 h
  rw [hs] at hc
  rcases List.mem_cons.1 hc with rfl | hc
  · exact isNameChar_of_isNameStart hd
  · exact hds c hc

theorem not_mem_of_isName {s : String} (h : isName s = true) {c : Char}
    (hc : isNameChar c = false) :
    c ∉ s.toList := by
  intro hmem
  rw [isNameChar_of_isName h hmem] at hc
  cases hc

theorem stands_name {s : String} (hn : isName s = true) : (Word.name s).Stands := by
  obtain ⟨c, cs, hl, hc, hcs⟩ := isName_iff.1 hn
  have hnl : ∀ d ∈ c :: cs, isNameChar d = true := by
    intro d hd
    rcases List.mem_cons.1 hd with rfl | hd
    · exact isNameChar_of_isNameStart hc
    · exact hcs d hd
  refine ⟨by simp [Word.name], ?_, c, cs, hl, not_isBlank_of_isNameChar (hnl c List.mem_cons_self),
    ?_⟩
  · rw [Word.name, hl]
    intro h
    exact absurd (hnl _ h) (by decide)
  · intro rest hrest
    have hstop : ∀ d ∈ rest.head?, isNameChar d = false ∧ d ≠ '\'' ∧ d ≠ '"' := by
      intro d hd
      have hm := hrest d hd
      simp only [Word.meets, Word.name, Bool.or_eq_true, Bool.and_eq_true, Bool.not_eq_true',
        bne_iff_ne] at hm
      rcases hm with hm | ⟨⟨hm, h1⟩, h2⟩
      · exact ⟨not_isNameChar_of_isSoft hm, not_quote_of_isSoft hm⟩
      · exact ⟨hm, h1, h2⟩
    have hhead : ∀ d ∈ (cs ++ rest).head?, d ≠ '\'' ∧ d ≠ '"' := by
      cases cs with
      | nil => exact fun d hd => (hstop d hd).2
      | cons e es =>
        simp only [List.cons_append, List.head?_cons, Option.mem_def, Option.some.injEq]
        rintro d rfl
        have := hcs e List.mem_cons_self
        constructor <;> (rintro rfl; revert this; decide)
    have hq : (c == '\'' || c == '"') = false := by
      rw [Bool.or_eq_false_iff, beq_eq_false_iff_ne, beq_eq_false_iff_ne]
      constructor <;> (rintro rfl; revert hc; decide)
    have hs : c ≠ '/' := by rintro rfl; revert hc; decide
    rw [cutLexeme, commentAt?_of_ne hs, rawMark?_of_head hhead]
    simp only [hq, hc, if_true, Bool.false_eq_true, if_false, Word.name]
    rw [takeWhile_append_of_all hcs fun d hd => (hstop d hd).1]

theorem ne_empty_of_isName {s : String} (h : isName s = true) : s ≠ "" := by
  rintro rfl
  cases h

theorem newline_not_mem_of_isName {s : String} (h : isName s = true) : '\n' ∉ s.toList :=
  not_mem_of_isName h (by decide)

/-! ### Numbers -/

/-- Whether characters can follow the first digit of a numeral: digits, and after a point at least
one digit more. -/
def isNumeralRest : List Char → Bool
  | [] => true
  | '.' :: ds => !ds.isEmpty && ds.all isDigit
  | c :: cs => isDigit c && isNumeralRest cs

/-- Whether a text is a numeral: digits, and after a point more digits. -/
def isNumeral (s : String) : Bool :=
  match s.toList with
  | [] => false
  | c :: cs => isDigit c && isNumeralRest cs

theorem isNumeralRest_split {cs : List Char} (h : isNumeralRest cs = true) :
    ∃ whole places, cs = whole ++ places ∧ (∀ d ∈ whole, isDigit d = true) ∧
      (places = [] ∨ ∃ ds, ds ≠ [] ∧ (∀ d ∈ ds, isDigit d = true) ∧ places = '.' :: ds) := by
  fun_induction isNumeralRest cs with
  | case1 => exact ⟨[], [], rfl, by simp, Or.inl rfl⟩
  | case2 ds =>
    simp only [Bool.and_eq_true, Bool.not_eq_true', List.isEmpty_eq_false_iff,
      List.all_eq_true] at h
    exact ⟨[], '.' :: ds, rfl, by simp, Or.inr ⟨ds, h.1, h.2, rfl⟩⟩
  | case3 c cs _ ih =>
    simp only [Bool.and_eq_true] at h
    obtain ⟨whole, places, rfl, hw, hp⟩ := ih h.2
    exact ⟨c :: whole, places, rfl, List.forall_mem_cons.2 ⟨h.1, hw⟩, hp⟩

theorem exponentLength_of_isSoft {rest : List Char} (h : ∀ d ∈ rest.head?, isSoft d = true) :
    exponentLength rest = 0 := by
  cases rest with
  | nil => rfl
  | cons d ds =>
    have := not_numeral_of_isSoft (h d rfl)
    simp [exponentLength, this.2.2.1, this.2.2.2.1]

theorem decimalLength_append {whole places rest : List Char} (hne : whole ≠ [])
    (hw : ∀ d ∈ whole, isDigit d = true)
    (hp : places = [] ∨ ∃ ds, ds ≠ [] ∧ (∀ d ∈ ds, isDigit d = true) ∧ places = '.' :: ds)
    (hr : ∀ d ∈ rest.head?, isSoft d = true) :
    decimalLength (whole ++ (places ++ rest)) = some (whole.length + places.length) := by
  have hrest : ∀ d ∈ rest.head?, isDecimal d = false :=
    fun d hd => (not_numeral_of_isSoft (hr d hd)).1
  have hwhole : (whole ++ (places ++ rest)).takeWhile isDecimal = whole := by
    refine takeWhile_append_of_all (fun d hd => isDecimal_of_isDigit (hw d hd)) ?_
    rcases hp with rfl | ⟨ds, -, -, rfl⟩
    · exact hrest
    · simp only [List.cons_append, List.head?_cons, Option.mem_def, Option.some.injEq]
      rintro d rfl
      rfl
  have hlen : (whole.length == 0) = false := by simpa using hne
  rcases hp with rfl | ⟨ds, hds, hdigits, rfl⟩
  · have hexp := exponentLength_of_isSoft hr
    rw [List.nil_append] at hwhole ⊢
    simp only [decimalLength, hwhole, hlen, Bool.false_eq_true, if_false, List.drop_left]
    cases rest with
    | nil => simp [hexp]
    | cons d ds =>
      have hd := (not_numeral_of_isSoft (hr d rfl)).2.1
      simp [hd, hexp]
  · have hplaces : (ds ++ rest).takeWhile isDecimal = ds :=
      takeWhile_append_of_all (fun d hd => isDecimal_of_isDigit (hdigits d hd)) hrest
    have hn : (ds.length == 0) = false := by simpa using hds
    have hdrop : (whole ++ '.' :: (ds ++ rest)).drop (whole.length + (ds.length + 1)) = rest := by
      rw [← List.drop_drop, List.drop_left, List.drop_succ_cons, List.drop_left]
    rw [List.cons_append] at hwhole ⊢
    simp only [decimalLength, hwhole, hlen, Bool.false_eq_true, if_false, List.drop_left, hplaces,
      hn, hdrop, exponentLength_of_isSoft hr, Nat.add_zero, List.length_cons]

theorem numberLength_append {c : Char} {whole places rest : List Char} (hc : isDigit c = true)
    (hw : ∀ d ∈ whole, isDigit d = true)
    (hp : places = [] ∨ ∃ ds, ds ≠ [] ∧ (∀ d ∈ ds, isDigit d = true) ∧ places = '.' :: ds)
    (hr : ∀ d ∈ rest.head?, isSoft d = true) :
    numberLength (c :: (whole ++ places ++ rest)) = some (whole.length + places.length + 1) := by
  have hdec := decimalLength_append (List.cons_ne_nil c whole)
    (List.forall_mem_cons.2 ⟨hc, hw⟩) hp hr
  have hx : ∀ x ds, whole ++ places ++ rest = x :: ds → x ≠ 'x' ∧ x ≠ 'X' := by
    intro x ds he
    cases whole with
    | cons w ws =>
      obtain ⟨rfl, -⟩ := List.cons.inj he
      have := hw w List.mem_cons_self
      constructor <;> (rintro rfl; revert this; decide)
    | nil =>
      rcases hp with rfl | ⟨es, -, -, rfl⟩
      · simp only [List.nil_append] at he
        have := not_numeral_of_isSoft (hr x (by simp [he]))
        exact this.2.2.2.2
      · obtain ⟨rfl, -⟩ := List.cons.inj he
        decide
  rw [List.append_assoc, ← List.cons_append] at *
  have hdec' : decimalLength (c :: whole ++ (places ++ rest)) =
      some (whole.length + places.length + 1) := by
    rw [hdec, List.length_cons, Nat.add_right_comm]
  unfold numberLength
  split
  · rename_i x ds he
    have := hx x ds (List.cons.inj he).2
    rw [if_neg (by simp [this.1, this.2]), hdec']
  · exact hdec'

theorem stands_numeral {s : String} (hn : isNumeral s = true) : (Word.numeral s).Stands := by
  obtain ⟨c, cs, hl⟩ : ∃ c cs, s.toList = c :: cs := by
    rw [isNumeral] at hn
    split at hn
    · cases hn
    · exact ⟨_, _, ‹_›⟩
  simp only [isNumeral, hl, Bool.and_eq_true] at hn
  obtain ⟨hc, hcs⟩ := hn
  obtain ⟨whole, places, rfl, hw, hplaces⟩ := isNumeralRest_split hcs
  have hcn := isDigit_iff.1 hc
  refine ⟨by simp [Word.numeral], ?_, c, whole ++ places, hl, ?_, ?_⟩
  · rw [Word.numeral, hl]
    have : ∀ d ∈ whole ++ places, isDigit d = true ∨ d = '.' := by
      intro d hd
      rcases List.mem_append.1 hd with hd | hd
      · exact Or.inl (hw d hd)
      · rcases hplaces with rfl | ⟨ds, -, hds, rfl⟩
        · cases hd
        · rcases List.mem_cons.1 hd with rfl | hd
          · exact Or.inr rfl
          · exact Or.inl (hds d hd)
    intro h
    rcases List.mem_cons.1 h with rfl | h
    · revert hc; decide
    · rcases this _ h with h | h <;> revert h <;> decide
  · exact not_isBlank_of_isNameChar (isNameChar_of_isDigit hc)
  · intro rest hrest
    have hsoft : ∀ d ∈ rest.head?, isSoft d = true := by
      intro d hd
      simpa [Word.meets, Word.numeral] using hrest d hd
    have hne : ∀ d : Char, d.toNat < 48 ∨ 57 < d.toNat → c ≠ d := by
      rintro d hd rfl
      omega
    have hq : (c == '\'' || c == '"') = false := by
      rw [Bool.or_eq_false_iff, beq_eq_false_iff_ne, beq_eq_false_iff_ne]
      exact ⟨hne _ (by decide), hne _ (by decide)⟩
    have hs : isNameStart c = false := by
      by_contra h
      have := isNameStart_iff.1 (Bool.not_eq_false _ ▸ h)
      omega
    rw [cutLexeme, commentAt?_of_ne (hne _ (by decide)),
      rawMark?_of_ne (hne _ (by decide)) (hne _ (by decide))]
    simp only [hq, hs, isAnyDigit_of_isDigit hc, Bool.false_eq_true, if_false, if_true,
      Word.numeral, numberLength_append hc hw hplaces hsoft]
    simp

/-! ### Punctuators -/

/-- Whether a character starts a punctuator. -/
def startsPunct (c : Char) : Bool :=
  !(isBlank c || isNameStart c || isAnyDigit c || c == '\'' || c == '"' || c == '/')

/-- Whether a text is a punctuator: one of the long ones, or a single character. -/
def isPunctuator (s : String) : Bool :=
  match s.toList with
  | [] => false
  | c :: cs => startsPunct c && punctuatorLength (c :: cs) == cs.length + 1 &&
      !cs.contains '\n'

/-- The long punctuators are made of joining characters. -/
theorem mem_joiningMarks_of_mem {p : List Char} (hp : p ∈ longPunctuators) {c : Char} (hc : c ∈ p) :
    c ∈ joiningMarks := by
  have h : longPunctuators.all (fun p => p.all fun c => decide (c ∈ joiningMarks)) = true := by
    decide
  exact forall_mem_of_all (List.all_eq_true.1 h p hp) c hc

theorem punctuatorLength_append {cs rest : List Char} (h : ∀ d ∈ rest.head?, d ∉ joiningMarks) :
    punctuatorLength (cs ++ rest) = punctuatorLength cs := by
  cases rest with
  | nil => rw [List.append_nil]
  | cons d ds =>
    unfold punctuatorLength
    have hfind : ∀ ps ⊆ longPunctuators,
        ps.find? (fun p => (dropHead? p (cs ++ d :: ds)).isSome) =
          ps.find? fun p => (dropHead? p cs).isSome := by
      intro ps hps
      induction ps with
      | nil => rfl
      | cons p ps ih =>
        have hp := hps List.mem_cons_self
        rw [List.find?_cons, List.find?_cons, ih fun q hq => hps (List.mem_cons_of_mem _ hq),
          dropHead?_isSome_append_cons fun hd => h d rfl (mem_joiningMarks_of_mem hp hd)]
    rw [hfind _ (List.Subset.refl _)]

/-- No longer punctuator starts with a soft mark. -/
theorem punctuatorLength_soft {c : Char} (hc : c ∈ softMarks) (cs : List Char) :
    punctuatorLength (c :: cs) = 1 := by
  have hnil : [] ∉ longPunctuators := by decide
  have hjoin : ∀ c ∈ softMarks, c ∉ joiningMarks := forall_mem_of_all (by decide)
  have hnone : longPunctuators.find? (fun p => (dropHead? p (c :: cs)).isSome) = none := by
    rw [List.find?_eq_none]
    intro p hp
    cases p with
    | nil => exact absurd hp hnil
    | cons q ps =>
      have hq : q ≠ c := by
        rintro rfl
        exact hjoin q hc (mem_joiningMarks_of_mem hp List.mem_cons_self)
      simp [dropHead?_cons_of_ne hq]
  simp [punctuatorLength, hnone]

theorem stands_mark {s : String} (hn : isPunctuator s = true) : (Word.mark s).Stands := by
  obtain ⟨c, cs, hl⟩ : ∃ c cs, s.toList = c :: cs := by
    rw [isPunctuator] at hn
    split at hn
    · cases hn
    · exact ⟨_, _, ‹_›⟩
  simp only [isPunctuator, hl, Bool.and_eq_true, beq_iff_eq, startsPunct, Bool.not_eq_true',
    Bool.or_eq_false_iff] at hn
  obtain ⟨⟨⟨⟨⟨⟨⟨hb, hs⟩, hd⟩, h1⟩, h2⟩, h3⟩, hlen⟩, hnl⟩ := hn
  refine ⟨by simp [Word.mark], ?_, c, cs, hl, hb, ?_⟩
  · rw [Word.mark, hl, List.mem_cons, not_or]
    exact ⟨(ne_newline_of_not_isBlank hb).symm, by simpa using hnl⟩
  · intro rest hrest
    have hlen' : punctuatorLength (c :: cs ++ rest) = cs.length + 1 := by
      by_cases hsoft : (Word.mark s).isSoftMark = true
      · rw [Word.isSoftMark, Word.mark, hl] at hsoft
        cases cs with
        | cons d ds => simp at hsoft
        | nil => exact punctuatorLength_soft (by simpa using hsoft) rest
      · rw [punctuatorLength_append, hlen]
        intro d hd
        have hm := hrest d hd
        simp only [Word.meets, show (Word.mark s).kind = .punct from rfl, Bool.or_eq_true, hsoft,
          Bool.false_eq_true, false_or, Bool.not_eq_true'] at hm
        rcases hm with hm | hm
        · exact forall_isSoft (p := fun d => d ∉ joiningMarks) (by decide) hm
        · simpa using hm
    have hr : c ≠ 'r' := by rintro rfl; revert hs; decide
    have hR : c ≠ 'R' := by rintro rfl; revert hs; decide
    rw [cutLexeme, commentAt?_of_ne (by simpa using h3), rawMark?_of_ne hr hR]
    simp only [h1, h2, hs, hd, Bool.or_self, Bool.false_eq_true, if_false, Word.mark]
    rw [← List.cons_append, hlen', Nat.add_sub_cancel]

/-! ## A test for the plain kinds -/

/-- Whether a word is a name, a numeral or a punctuator. -/
def Word.isPlain (w : Word) : Bool :=
  w.parts.isEmpty &&
    match w.kind with
    | .ident => isName w.text
    | .number => isNumeral w.text
    | .punct => isPunctuator w.text
    | _ => false

theorem stands_of_isPlain {w : Word} (h : w.isPlain = true) : w.Stands := by
  obtain ⟨kind, text, parts⟩ := w
  simp only [Word.isPlain, Bool.and_eq_true, List.isEmpty_iff] at h
  obtain ⟨rfl, h⟩ := h
  cases kind with
  | ident => exact stands_name h
  | number => exact stands_numeral h
  | punct => exact stands_mark h
  | string => cases h
  | comment => cases h

end WidgetBridge.WidgetGrammar
