import WidgetBridge.Proofs.WidgetGrammar.Lexing

/-!
# Source in front of more source

A lexeme that is cut off from a source is cut off in the same way when more source follows, provided
that this starts with a soft character and the lexeme is no comment up to the end of the line
(`cutLexeme_append`).  For text literals this is an induction on the fuel of the two scanners that
read them, `Persists`: neither more fuel nor more source changes the steps that lead to the end of a
literal.
-/

namespace WidgetBridge.WidgetGrammar

open WidgetBridge.Text WidgetBridge.Number

/-! ## Runs and heads -/

/-- A text that is empty or starts with a soft character. -/
def SoftStart (rest : List Char) : Prop := ∀ d ∈ rest.head?, isSoft d = true

theorem takeWhile_append_of_stop {p : Char → Bool} {rest : List Char}
    (h : ∀ d ∈ rest.head?, p d = false) (cs : List Char) :
    (cs ++ rest).takeWhile p = cs.takeWhile p := by
  induction cs with
  | nil =>
    cases rest with
    | nil => rfl
    | cons d ds => simp [h d rfl]
  | cons c cs ih =>
    rw [List.cons_append, List.takeWhile_cons, List.takeWhile_cons, ih]

/-- A run that ends before the text does is not changed by what follows. -/
theorem takeWhile_append_of_lt {p : Char → Bool} {cs : List Char}
    (h : (cs.takeWhile p).length < cs.length) (rest : List Char) :
    (cs ++ rest).takeWhile p = cs.takeWhile p := by
  rw [List.takeWhile_append, if_neg (by omega)]

theorem isSome_dropHead?_append {pat rest : List Char} (h : ∀ d ∈ rest.head?, d ∉ pat)
    (cs : List Char) : (dropHead? pat (cs ++ rest)).isSome = (dropHead? pat cs).isSome := by
  cases rest with
  | nil => rw [List.append_nil]
  | cons d ds => exact dropHead?_isSome_append_cons (h d rfl) cs ds

/-! ## Comments -/

theorem blockComment_append {depth taken n : Nat} {cs : List Char}
    (h : blockComment depth taken cs = some n) (rest : List Char) :
    n ≤ taken + cs.length ∧ blockComment depth taken (cs ++ rest) = some n := by
  fun_induction blockComment depth taken cs with
  | case1 depth taken cs ih =>
    obtain ⟨hn, hrest⟩ := ih h
    refine ⟨?_, hrest⟩
    simp only [List.length_cons]
    omega
  | case2 taken cs =>
    cases h
    refine ⟨?_, rfl⟩
    simp only [List.length_cons]
    omega
  | case3 depth taken cs ih =>
    obtain ⟨hn, hrest⟩ := ih h
    refine ⟨?_, hrest⟩
    simp only [List.length_cons]
    omega
  | case4 depth taken c cs hopen hend hclose ih =>
    obtain ⟨hn, hrest⟩ := ih h
    have hcs : cs ≠ [] := by
      rintro rfl
      cases h
    obtain ⟨d, ds, rfl⟩ := List.exists_cons_of_ne_nil hcs
    refine ⟨?_, ?_⟩
    · simp only [List.length_cons] at hn ⊢
      omega
    · rw [List.cons_append, ← hrest, List.cons_append, blockComment.eq_4]
      · rintro cs rfl heq
        obtain ⟨rfl, -⟩ := List.cons.inj heq
        exact hopen _ rfl rfl
      · rintro cs hdepth rfl heq
        obtain ⟨rfl, -⟩ := List.cons.inj heq
        exact hend _ hdepth rfl rfl
      · rintro k cs hdepth rfl heq
        obtain ⟨rfl, -⟩ := List.cons.inj heq
        exact hclose k _ hdepth rfl rfl
  | case5 => cases h

/-! ## Text literals -/

theorem escapeAt_append {taken : Nat} {cs : List Char} {d : Char} {n : Nat}
    (h : escapeAt taken cs = .ok (d, n)) (hn : n ≤ cs.length) (rest : List Char) :
    escapeAt taken (cs ++ rest) = .ok (d, n) := by
  unfold escapeAt at h
  split at h
  · cases h
  · next cs =>
    dsimp only at h
    split_ifs at h with hlen
    have hlt : (cs.takeWhile (· != '\x7d')).length < cs.length := by
      have := (List.takeWhile_prefix (l := cs) (· != '\x7d')).length_le
      have := beq_eq_false_iff_ne.1 (Bool.eq_false_iff.2 hlen)
      omega
    rw [List.cons_append, List.cons_append, escapeAt]
    simp only [takeWhile_append_of_lt hlt, List.length_append]
    rw [if_neg (by rw [beq_iff_eq]; omega)]
    exact h
  · next cs hbrace =>
    have hlen : n = 6 := by
      cases hc : hexChar (cs.take 4) <;> rw [hc] at h <;> cases h
      rfl
    rw [List.length_cons] at hn
    have htake : (cs ++ rest).take 4 = cs.take 4 := List.take_append_of_le_length (by omega)
    obtain ⟨e, es, rfl⟩ := List.exists_cons_of_ne_nil (by rintro rfl; simp at hn; omega : cs ≠ [])
    rw [List.cons_append, escapeAt.eq_3 _ _ (by
      rintro cs' heq
      obtain ⟨rfl, -⟩ := List.cons.inj heq
      exact hbrace es rfl), htake]
    exact h
  · next cs =>
    have hlen : n = 4 := by
      cases hc : hexChar (cs.take 2) <;> rw [hc] at h <;> cases h
      rfl
    rw [List.length_cons] at hn
    have htake : (cs ++ rest).take 2 = cs.take 2 := List.take_append_of_le_length (by omega)
    rw [List.cons_append, escapeAt, htake]
    exact h
  · next c cs hbrace hu hx =>
    cases h
    rw [List.cons_append, escapeAt.eq_5]
    · rintro cs' rfl heq
      exact hu rfl
    · exact hu
    · exact hx

/-- A text that does not start with a quote mark. -/
def QuoteFree (rest : List Char) : Prop := ∀ d ∈ rest.head?, d ≠ '\'' ∧ d ≠ '"'

theorem SoftStart.quoteFree {rest : List Char} (h : SoftStart rest) : QuoteFree rest :=
  fun d hd => not_quote_of_isSoft (h d hd)

theorem QuoteFree.ne {rest : List Char} (h : QuoteFree rest) {mark : Char} (hm : IsQuote mark) :
    ∀ d ∈ rest.head?, d ≠ mark := by
  rintro d hd rfl
  rcases hm with rfl | rfl
  · exact (h _ hd).1 rfl
  · exact (h _ hd).2 rfl

theorem quotesAt_append {rest : List Char} (hr : QuoteFree rest) {mark : Char} (hm : IsQuote mark)
    (cs : List Char) : quotesAt mark (cs ++ rest) = quotesAt mark cs := by
  unfold quotesAt
  rw [isSome_dropHead?_append fun d hd => by simpa using hr.ne hm d hd]

theorem isSome_delimiter_append {rest : List Char} (hr : QuoteFree rest) {q : Quotes}
    (hm : IsQuote q.mark) (cs : List Char) :
    (dropHead? q.delimiter (cs ++ rest)).isSome = (dropHead? q.delimiter cs).isSome := by
  refine isSome_dropHead?_append (fun d hd => ?_) cs
  unfold Quotes.delimiter
  split_ifs <;> simpa using hr.ne hm d hd

/-- A step inside a literal that is known to stay in a text of some length. -/
def BodyStep.StaysIn (length : Nat) : BodyStep → Prop
  | .fails _ => False
  | .goes n _ _ => n < length
  | .ends _ _ | .opens _ _ => True

/-- The same step in front of more source. -/
def BodyStep.append (rest : List Char) : BodyStep → BodyStep
  | .opens inner parts => .opens (inner ++ rest) parts
  | step => step

theorem dollarStep_append {buffer : List Char} {parts : List Part} {cs : List Char}
    (h : (dollarStep buffer parts cs).StaysIn (cs.length + 1)) (rest : List Char) :
    dollarStep buffer parts (cs ++ rest) = (dollarStep buffer parts cs).append rest := by
  cases cs with
  | nil => exact absurd h (Nat.lt_irrefl 1)
  | cons d cs =>
    by_cases hd : d = '\x7b'
    · subst hd
      rfl
    · simp only [List.cons_append, dollarStep] at h ⊢
      split_ifs at h ⊢ with hname
      · rw [← List.cons_append, takeWhile_append_of_lt (Nat.lt_of_succ_lt_succ h)]
        rfl
      · rfl

/-- A step that stays in the source is the same when more source follows. -/
theorem bodyStep_append {rest : List Char} (hr : QuoteFree rest) {raw : Bool} {q : Quotes}
    (hm : IsQuote q.mark) {start taken : Nat} {buffer : List Char} {parts : List Part}
    {cs : List Char} (h : (bodyStep raw q start taken buffer parts cs).StaysIn cs.length) :
    bodyStep raw q start taken buffer parts (cs ++ rest) =
      (bodyStep raw q start taken buffer parts cs).append rest := by
  cases cs with
  | nil => cases h
  | cons c cs =>
    have hend := isSome_delimiter_append hr hm (c :: cs)
    rw [List.cons_append] at hend ⊢
    unfold bodyStep at h ⊢
    dsimp only at h ⊢
    rw [hend]
    split_ifs at h ⊢ with hclosed hline hescape hdollar
    · rfl
    · cases h
    · cases hesc : escapeAt taken cs with
      | error e =>
        rw [hesc] at h
        cases h
      | ok d =>
        rw [hesc] at h
        have hn : d.2 < cs.length + 1 := h
        rw [escapeAt_append hesc (by omega)]
        rfl
    · exact dollarStep_append h rest
    · rfl

theorem holeStep_append {rest : List Char} (hr : QuoteFree rest) (depth taken : Nat)
    {cs : List Char} (hne : cs ≠ []) :
    holeStep depth taken (cs ++ rest) = holeStep depth taken cs := by
  obtain ⟨c, cs, rfl⟩ := List.exists_cons_of_ne_nil hne
  rw [List.cons_append]
  unfold holeStep
  dsimp only
  split_ifs with hquote
  · rw [quotesAt_append hr (isQuote_iff.1 hquote)]
  all_goals rfl

/-- What a scanner inside a literal finds with some fuel, it finds with more, whatever follows the
source. -/
structure Persists (rest : List Char) (fuel : Nat) : Prop where
  body : ∀ (fuel' : Nat) (raw : Bool) (q : Quotes) (start taken : Nat) (buffer : List Char)
    (parts : List Part)
    (cs : List Char) (r : Nat × List Part), fuel ≤ fuel' → IsQuote q.mark →
    literalBody fuel raw q start taken buffer parts cs = .ok r →
    literalBody fuel' raw q start taken buffer parts (cs ++ rest) = .ok r
  hole : ∀ (fuel' depth taken : Nat) (cs : List Char) (stop : Nat), fuel ≤ fuel' →
    holeEnd fuel depth taken cs = .ok stop → holeEnd fuel' depth taken (cs ++ rest) = .ok stop

section Persists

variable {rest : List Char} {fuel : Nat}

theorem Persists.body_succ (ih : Persists rest fuel) (hr : QuoteFree rest) {fuel' : Nat}
    {raw : Bool} {q : Quotes} {start taken : Nat} {buffer : List Char} {parts : List Part}
    {cs : List Char} {r : Nat × List Part} (hf : fuel ≤ fuel') (hm : IsQuote q.mark)
    (h : literalBody (fuel + 1) raw q start taken buffer parts cs = .ok r) :
    literalBody (fuel' + 1) raw q start taken buffer parts (cs ++ rest) = .ok r := by
  have hagain : (bodyStep raw q start taken buffer parts cs).StaysIn cs.length →
      bodyStep raw q start taken buffer parts (cs ++ rest) =
        (bodyStep raw q start taken buffer parts cs).append rest := bodyStep_append hr hm
  rw [literalBody_succ] at h ⊢
  generalize bodyStep raw q start taken buffer parts cs = step at h hagain
  cases step with
  | fails e => cases h
  | ends n parts =>
    rw [hagain trivial]
    exact h
  | goes n buffer parts =>
    have hn := lt_length_of_literalBody_drop h
    rw [hagain hn]
    dsimp only [BodyStep.append, BodyStep.run] at h ⊢
    rw [List.drop_append_of_le_length hn.le]
    exact ih.body _ _ _ _ _ _ _ _ _ hf hm h
  | opens inner parts =>
    rw [hagain trivial]
    dsimp only [BodyStep.append, BodyStep.run] at h ⊢
    cases hstop : holeEnd fuel 1 (taken + 2) inner with
    | error e =>
      rw [hstop] at h
      cases h
    | ok stop =>
      rw [hstop] at h
      have hn := lt_length_of_literalBody_drop h
      have hlen := (stop_of_holeEnd hstop).2
      rw [ih.hole fuel' 1 (taken + 2) inner stop hf hstop]
      simp only [bind, Except.bind]
      rw [List.take_append_of_le_length (by omega), List.drop_append_of_le_length hn.le]
      exact ih.body _ _ _ _ _ _ _ _ _ hf hm h

theorem Persists.hole_succ (ih : Persists rest fuel) (hr : QuoteFree rest) {fuel' depth taken : Nat}
    {cs : List Char} {stop : Nat} (hf : fuel ≤ fuel')
    (h : holeEnd (fuel + 1) depth taken cs = .ok stop) :
    holeEnd (fuel' + 1) depth taken (cs ++ rest) = .ok stop := by
  have hne : cs ≠ [] := by
    rintro rfl
    cases h
  have hfits := fits_holeStep depth taken cs
  rw [holeEnd_succ] at h ⊢
  rw [holeStep_append hr depth taken hne]
  generalize holeStep depth taken cs = step at h hfits ⊢
  cases step with
  | fails e => cases h
  | ends => exact h
  | goes depth =>
    dsimp only [HoleStep.run] at h ⊢
    rw [List.drop_append_of_le_length hfits]
    exact ih.hole _ _ _ _ _ hf h
  | opens q =>
    obtain ⟨hq, hm⟩ := hfits
    dsimp only [HoleStep.run] at h ⊢
    rw [List.drop_append_of_le_length hq]
    cases hlit : literalBody fuel false q taken (taken + q.delimiter.length) [] []
      (cs.drop q.delimiter.length) with
    | error e =>
      rw [hlit] at h
      cases h
    | ok r =>
      rw [hlit] at h
      have hbody := stop_of_literalBody (Nat.le_add_right taken _) hlit
      rw [ih.body _ _ _ _ _ _ _ _ _ hf hm hlit]
      simp only [bind, Except.bind]
      rw [List.drop_append_of_le_length (by rw [List.length_drop] at hbody; omega)]
      exact ih.hole _ _ _ _ _ hf h

end Persists

theorem persists {rest : List Char} (hr : QuoteFree rest) (fuel : Nat) : Persists rest fuel := by
  induction fuel with
  | zero =>
    constructor
    · intro fuel' raw q start taken buffer parts cs r _ _ h
      cases h
    · intro fuel' depth taken cs stop _ h
      cases h
  | succ fuel ih =>
    constructor
    all_goals
      intro fuel'
      intros
      obtain ⟨fuel', rfl⟩ : ∃ k, fuel' = k + 1 := ⟨fuel' - 1, by omega⟩
    · exact ih.body_succ hr (by omega) ‹_› ‹_›
    · exact ih.hole_succ hr (by omega) ‹_›

theorem cutLiteral_append {rest : List Char} (hr : QuoteFree rest) {raw : Bool} {lead : Nat}
    {mark : Char} (hm : IsQuote mark) {cs : List Char} {cut : Cut}
    (h : cutLiteral raw lead mark cs = .ok cut) :
    cut.more ≤ lead + cs.length ∧ cutLiteral raw lead mark (cs ++ rest) = .ok cut := by
  unfold cutLiteral literalAt at h ⊢
  rw [quotesAt_append hr hm]
  have hq := length_delimiter_quotesAt_le mark cs
  have hpos := length_delimiter_pos (quotesAt mark cs)
  dsimp only at h ⊢
  generalize (quotesAt mark cs).delimiter.length = n at h hq hpos ⊢
  rw [List.drop_append_of_le_length (by omega)]
  cases hbody : literalBody (2 * cs.length + 2) raw (quotesAt mark cs) 0 (lead + n) [] []
    (cs.drop (n - 1)) with
  | error e =>
    rw [hbody] at h
    cases h
  | ok r =>
    rw [hbody] at h
    have hstop := (stop_of_literalBody (Nat.zero_le _) hbody).2
    rw [(persists hr _).body (2 * (cs ++ rest).length + 2) _ _ _ _ _ _ _ _
      (by rw [List.length_append]; omega) (by exact hm) hbody]
    cases h
    rw [List.length_drop] at hstop
    exact ⟨by dsimp only; omega, rfl⟩

/-! ## Numbers and punctuation -/

theorem isDecimal_head_of_soft {rest : List Char} (hr : SoftStart rest) :
    ∀ d ∈ rest.head?, isDecimal d = false :=
  fun d hd => (not_numeral_of_isSoft (hr d hd)).1

theorem exponentLength_append {rest : List Char} (hr : SoftStart rest) (cs : List Char) :
    exponentLength (cs ++ rest) = exponentLength cs := by
  have hdigits := takeWhile_append_of_stop (isDecimal_head_of_soft hr)
  cases cs with
  | nil => exact exponentLength_of_isSoft hr
  | cons e cs =>
    cases cs with
    | nil =>
      cases rest with
      | nil => rfl
      | cons d ds =>
        have hd := hr d rfl
        have hsign : d ≠ '+' ∧ d ≠ '-' :=
          forall_isSoft (p := fun d => d ≠ '+' ∧ d ≠ '-') (by decide) hd
        simp [exponentLength, hsign, (not_numeral_of_isSoft hd).1]
    | cons d cs =>
      by_cases hplus : d = '+'
      · subst hplus
        simp [exponentLength, hdigits]
      · by_cases hminus : d = '-'
        · subst hminus
          simp [exponentLength, hdigits]
        · have hdigits' := hdigits (d :: cs)
          rw [List.cons_append] at hdigits'
          simp [exponentLength, hplus, hminus, hdigits']

/-- The length of a point with digits after it, if one stands here. -/
def placesLength : List Char → Nat
  | '.' :: ds =>
    if (ds.takeWhile isDecimal).length == 0 then 0 else (ds.takeWhile isDecimal).length + 1
  | _ => 0

theorem placesLength_le (cs : List Char) : placesLength cs ≤ cs.length := by
  unfold placesLength
  split
  · next ds =>
    have := (List.takeWhile_prefix (l := ds) isDecimal).length_le
    rw [List.length_cons]
    split_ifs <;> omega
  · exact Nat.zero_le _

theorem placesLength_append {rest : List Char} (hr : SoftStart rest) (cs : List Char) :
    placesLength (cs ++ rest) = placesLength cs := by
  cases cs with
  | nil =>
    cases rest with
    | nil => rfl
    | cons d ds => simp [placesLength, (not_numeral_of_isSoft (hr d rfl)).2.1]
  | cons c cs =>
    have hdigits := takeWhile_append_of_stop (isDecimal_head_of_soft hr) cs
    by_cases hc : c = '.'
    · subst hc
      simp [placesLength, hdigits]
    · simp [placesLength, hc]

theorem decimalLength_eq (cs : List Char) : decimalLength cs =
    if (cs.takeWhile isDecimal).length == 0 then none
    else some ((cs.takeWhile isDecimal).length +
      placesLength (cs.drop (cs.takeWhile isDecimal).length) +
      exponentLength (cs.drop ((cs.takeWhile isDecimal).length +
        placesLength (cs.drop (cs.takeWhile isDecimal).length)))) := rfl

theorem decimalLength_append_soft {rest : List Char} (hr : SoftStart rest) (cs : List Char) :
    decimalLength (cs ++ rest) = decimalLength cs := by
  have hwhole := (List.takeWhile_prefix (l := cs) isDecimal).length_le
  rw [decimalLength_eq, decimalLength_eq, takeWhile_append_of_stop (isDecimal_head_of_soft hr)]
  generalize (cs.takeWhile isDecimal).length = n at hwhole ⊢
  have hplaces := placesLength_le (cs.drop n)
  rw [List.length_drop] at hplaces
  rw [List.drop_append_of_le_length hwhole, placesLength_append hr,
    List.drop_append_of_le_length (by omega), exponentLength_append hr]

theorem numberLength_append_soft {rest : List Char} (hr : SoftStart rest) (c : Char)
    (cs : List Char) :
    numberLength (c :: (cs ++ rest)) = numberLength (c :: cs) := by
  have hdec := decimalLength_append_soft hr (c :: cs)
  rw [List.cons_append] at hdec
  by_cases hc : c = '0'
  · subst hc
    cases cs with
    | nil =>
      cases rest with
      | nil => rfl
      | cons d ds =>
        have hd := not_numeral_of_isSoft (hr d rfl)
        simpa [numberLength, hd.2.2.2.2] using hdec
    | cons x cs =>
      have hhex : ∀ d ∈ rest.head?, isHexDigit d = false := fun d hd =>
        forall_isSoft (p := fun d => isHexDigit d = false) (by decide) (hr d hd)
      simp only [numberLength, List.cons_append, takeWhile_append_of_stop hhex] at hdec ⊢
      rw [hdec]
  · simpa [numberLength, hc] using hdec

theorem numberLength_le {cs : List Char} {n : Nat} (h : numberLength cs = some n) :
    n ≤ cs.length := by
  have hdecimal (h : decimalLength cs = some n) : n ≤ cs.length := by
    obtain ⟨whole, places, exponent, rest, rfl, rfl, -⟩ := exists_decimalLength h
    simp only [List.length_append]
    omega
  unfold numberLength at h
  split at h
  · next x ds =>
    dsimp only at h
    split_ifs at h
    · cases h
      have := (List.takeWhile_prefix (l := ds) isHexDigit).length_le
      simp only [List.length_cons]
      omega
    · exact hdecimal h
  · exact hdecimal h

theorem punctuatorLength_le (c : Char) (cs : List Char) :
    punctuatorLength (c :: cs) ≤ cs.length + 1 := by
  unfold punctuatorLength
  cases hfind : longPunctuators.find? fun p => (dropHead? p (c :: cs)).isSome with
  | none => simp
  | some p =>
    have hp := List.find?_some hfind
    have := length_le_of_isSome_dropHead? hp
    simpa using this

/-! ## Lexemes -/

/-- Whether a comment up to the end of the line starts here. -/
def startsLineComment (c : Char) (cs : List Char) : Bool := c == '/' && cs.head? == some '/'

theorem commentAt?_append {rest : List Char} (hr : SoftStart rest) {c : Char} {cs : List Char}
    (hline : startsLineComment c cs = false) :
    (∀ cut, commentAt? c cs = some (.ok cut) →
      cut.more ≤ cs.length ∧ commentAt? c (cs ++ rest) = some (.ok cut)) ∧
    (commentAt? c cs = none → commentAt? c (cs ++ rest) = none) := by
  by_cases hc : c = '/'
  · subst hc
    cases cs with
    | nil =>
      refine ⟨nofun, fun _ => ?_⟩
      cases rest with
      | nil => rfl
      | cons d ds =>
        have hd : d ≠ '/' ∧ d ≠ '*' :=
          forall_isSoft (p := fun d => d ≠ '/' ∧ d ≠ '*') (by decide) (hr d rfl)
        simp [commentAt?, hd]
    | cons d cs =>
      have hd : d ≠ '/' := by
        rintro rfl
        cases hline
      by_cases hstar : d = '*'
      · subst hstar
        refine ⟨fun cut h => ?_, nofun⟩
        simp only [commentAt?] at h
        cases hblock : blockComment 0 2 cs with
        | none =>
          rw [hblock] at h
          cases h
        | some n =>
          rw [hblock] at h
          cases h
          obtain ⟨hn, hagain⟩ := blockComment_append hblock rest
          refine ⟨by simp only [List.length_cons]; omega, ?_⟩
          simp only [List.cons_append, commentAt?, hagain]
      · simp [commentAt?, hd, hstar]
  · simp [commentAt?_of_ne hc]

theorem rawMark?_append {rest : List Char} (hr : QuoteFree rest) (c : Char) (cs : List Char) :
    rawMark? c (cs ++ rest) = (rawMark? c cs).map fun r => (r.1, r.2 ++ rest) := by
  cases cs with
  | nil => exact rawMark?_of_head hr
  | cons d cs =>
    simp only [List.cons_append, rawMark?]
    split_ifs <;> rfl

/-- A lexeme that is no comment up to the end of the line is cut off in the same way in front of
everything that starts with a soft character. -/
theorem cutLexeme_append {rest : List Char} (hr : SoftStart rest) {c : Char}
    {cs : List Char} {cut : Cut} (hline : startsLineComment c cs = false)
    (h : cutLexeme c cs = .ok cut) :
    cut.more ≤ cs.length ∧ cutLexeme c (cs ++ rest) = .ok cut := by
  obtain ⟨hsome, hnone⟩ := commentAt?_append hr hline
  have hquotes := hr.quoteFree
  unfold cutLexeme at h ⊢
  cases hcomment : commentAt? c cs with
  | some result =>
    rw [hcomment] at h
    obtain rfl : result = .ok cut := h
    obtain ⟨hmore, hagain⟩ := hsome cut hcomment
    rw [hagain]
    exact ⟨hmore, rfl⟩
  | none =>
    rw [hcomment] at h
    rw [hnone hcomment, rawMark?_append hquotes]
    cases hraw : rawMark? c cs with
    | some r =>
      rw [hraw] at h
      obtain ⟨hquote, hcs⟩ := eq_of_rawMark? hraw
      have hlen : cs.length = r.2.length + 1 := by rw [hcs, List.length_cons]
      obtain ⟨hmore, hagain⟩ := cutLiteral_append hquotes hquote h
      exact ⟨by omega, hagain⟩
    | none =>
      rw [hraw] at h
      dsimp only [Option.map] at h ⊢
      split_ifs at h ⊢ with hquote hname hdigit
      · obtain ⟨hmore, hagain⟩ := cutLiteral_append hquotes (isQuote_iff.1 hquote) h
        exact ⟨by omega, hagain⟩
      · cases h
        rw [takeWhile_append_of_stop fun d hd => not_isNameChar_of_isSoft (hr d hd)]
        exact ⟨(List.takeWhile_prefix isNameChar).length_le, rfl⟩
      · rw [numberLength_append_soft hr]
        cases hn : numberLength (c :: cs) with
        | none =>
          rw [hn] at h
          cases h
        | some n =>
          rw [hn] at h
          cases h
          have := numberLength_le hn
          rw [List.length_cons] at this
          exact ⟨by dsimp only; omega, rfl⟩
      · cases h
        have hjoin : ∀ d ∈ rest.head?, d ∉ joiningMarks := fun d hd =>
          forall_isSoft (p := fun d => d ∉ joiningMarks) (by decide) (hr d hd)
        have := punctuatorLength_le c cs
        rw [← List.cons_append, punctuatorLength_append hjoin]
        exact ⟨by dsimp only; omega, rfl⟩

/-! ## Sources -/

/-- Words with a further gap before the first. -/
def leadWords (gap : String) : List (String × Word) → List (String × Word)
  | [] => []
  | w :: ws => (gap ++ w.1, w.2) :: ws

theorem leadWords_empty (ws : List (String × Word)) : leadWords "" ws = ws := by
  cases ws with
  | nil => rfl
  | cons w ws => simp [leadWords]

theorem nextOpen_append {stack stack' next : List (String × Place)} {kind : LexemeKind}
    {text : String} {place : Place} (h : nextOpen stack kind text place = .ok next)
    (hs : stack'.map Prod.fst = stack.map Prod.fst) (base : List (String × Place))
    (place' : Place) :
    ∃ next', nextOpen (stack' ++ base) kind text place' = .ok (next' ++ base) ∧
      next'.map Prod.fst = next.map Prod.fst := by
  unfold nextOpen at h ⊢
  split_ifs at h ⊢ with hkind hopen
  · cases h
    exact ⟨stack', rfl, hs⟩
  · cases h
    exact ⟨(text, place') :: stack', rfl, by rw [List.map_cons, List.map_cons, hs]⟩
  · cases hcloser : openerOf text with
    | none =>
      rw [hcloser] at h
      cases h
      exact ⟨stack', rfl, hs⟩
    | some opener =>
      rw [hcloser] at h
      cases stack with
      | nil => cases h
      | cons top stack =>
        cases stack' with
        | nil => cases hs
        | cons top' stack' =>
          rw [List.map_cons, List.map_cons, List.cons.injEq] at hs
          dsimp only [List.cons_append] at h ⊢
          rw [hs.1]
          split_ifs at h ⊢ with htop
          cases h
          exact ⟨stack', rfl, hs.2⟩

theorem exists_of_bind_ok {α β : Type} {x : Attempt α} {f : α → Attempt β} {b : β}
    (h : (x >>= f) = .ok b) : ∃ a, x = .ok a ∧ f a = .ok b := by
  cases x with
  | error e => cases h
  | ok a => exact ⟨a, rfl, h⟩

theorem exists_ok_of_any {α : Type} {a : Attempt α} {test : α → Bool}
    (h : a.toOption.any test = true) :
    ∃ x, a = .ok x ∧ test x = true := by
  cases a with
  | ok x => exact ⟨x, rfl, h⟩
  | error _ => cases h

/-- On one line, a comment up to the end of the line is the last lexeme. -/
theorem more_of_startsLineComment {c : Char} {cs : List Char} {cut : Cut} (hn : '\n' ∉ c :: cs)
    (hline : startsLineComment c cs = true) (h : cutLexeme c cs = .ok cut) :
    cut.kind = .comment ∧ cut.more = cs.length := by
  rw [startsLineComment, Bool.and_eq_true, beq_iff_eq, beq_iff_eq] at hline
  obtain ⟨rfl, hhead⟩ := hline
  cases cs with
  | nil => cases hhead
  | cons d cs =>
    cases hhead
    cases h
    refine ⟨rfl, ?_⟩
    rw [List.takeWhile_eq_self_iff.2]
    rintro d hd
    rw [bne_iff_ne]
    rintro rfl
    exact hn (List.mem_cons_of_mem _ hd)

theorem eq_nil_of_scanFrom_nil {stack : List (String × Place)} {blank : List Char} {spot : Spot}
    {ls : List Lexeme} (h : scanFrom stack blank spot [] = .ok ls) : ls = [] := by
  cases stack with
  | nil =>
    rw [scanFrom_nil] at h
    cases h
    rfl
  | cons top stack =>
    rw [scanFrom_unclosed] at h
    cases h

/-- On one line, where the last lexeme is no comment, no lexeme is a comment up to the end of the
line. -/
theorem startsLineComment_eq_false {c : Char} {cs : List Char} {cut : Cut} (hn : '\n' ∉ c :: cs)
    (hcut : cutLexeme c cs = .ok cut) {stack : List (String × Place)} {blank : List Char}
    {spot : Spot} {ms : List Lexeme} (hscan : scanFrom stack blank spot (cs.drop cut.more) = .ok ms)
    {l : Lexeme} (hkind : l.kind = cut.kind) (hlast : ∀ m ∈ (l :: ms).getLast?, m.kind ≠ .comment) :
    startsLineComment c cs = false := by
  by_contra hline
  obtain ⟨hcomment, hmore⟩ := more_of_startsLineComment hn (by simpa using hline) hcut
  rw [hmore, List.drop_length] at hscan
  obtain rfl := eq_nil_of_scanFrom_nil hscan
  exact hlast l rfl (hkind.trans hcomment)

/-- A source on one line that ends with a lexeme is cut into the same words wherever it stands. -/
theorem scanFrom_append {rest : List Char} (hr : SoftStart rest) {stack : List (String × Place)}
    {blank : List Char} {spot : Spot} {cs : List Char} {ls : List Lexeme}
    (h : scanFrom stack blank spot cs = .ok ls) (hn : '\n' ∉ cs)
    (hlast : ∀ l ∈ ls.getLast?, l.kind ≠ .comment)
    (hend : ls.flatMap Lexeme.spelling = blank.reverse ++ cs) (base : List (String × Place))
    {stack' : List (String × Place)} (hs : stack'.map Prod.fst = stack.map Prod.fst)
    (pre : List Char) (hpre : ls = [] → pre = []) (spot' : Spot) :
    ∃ ls' spot'', ls'.map Lexeme.spoken =
      leadWords (String.ofList pre.reverse) (ls.map Lexeme.spoken) ∧
      scanFrom (stack' ++ base) (blank ++ pre) spot' (cs ++ rest) =
        (scanFrom base [] spot'' rest).map (ls' ++ ·) := by
  fun_induction scanFrom stack blank spot cs generalizing ls stack' pre spot' with
  | case1 blank spot =>
    cases h
    obtain rfl : stack' = [] := by simpa using hs
    obtain rfl : blank = [] := by simpa using hend
    rw [hpre rfl]
    refine ⟨[], spot', rfl, ?_⟩
    simp only [List.nil_append]
    cases scanFrom base [] spot' rest <;> rfl
  | case2 blank spot text place rest => cases h
  | case3 stack blank spot c cs hblank ih =>
    rw [List.cons_append, scanFrom_blank _ _ _ hblank, ← List.cons_append]
    exact ih h (fun hc => hn (List.mem_cons_of_mem _ hc)) hlast (by simpa using hend) hs pre hpre _
  | case4 stack blank spot c cs hblank distance message hcut => cases h
  | case5 stack blank spot c cs hblank f hcut => cases h
  | case6 stack blank spot c cs hblank cut hcut chars text =>
    rename_i ih
    obtain ⟨next, hopen, h⟩ := exists_of_bind_ok h
    obtain ⟨ms, hscan, h⟩ := exists_of_bind_ok h
    cases h
    have htail : cs.take cut.more ++ ms.flatMap Lexeme.spelling = cs := by
      simpa [Lexeme.spelling, text, chars] using hend
    have htail : ms.flatMap Lexeme.spelling = cs.drop cut.more :=
      List.append_cancel_left (htail.trans (List.take_append_drop _ _).symm)
    have hline := startsLineComment_eq_false hn hcut hscan rfl hlast
    have hlast' : ∀ l ∈ ms.getLast?, l.kind ≠ .comment := by
      intro l hl
      refine hlast l ?_
      rw [List.getLast?_cons, Option.mem_def.1 hl]
      rfl
    obtain ⟨hmore, hagain⟩ := cutLexeme_append hr hline hcut
    obtain ⟨next', hopen', hs'⟩ := nextOpen_append hopen hs base spot'.place
    obtain ⟨ls', spot'', hls, hrun⟩ := ih next hscan
      (fun hc => hn (List.mem_cons_of_mem _ (List.mem_of_mem_drop hc)))
      hlast' htail hs' [] (fun _ => rfl) (spot'.advance chars)
    refine ⟨⟨cut.kind, text, String.ofList (blank ++ pre).reverse, spot'.offset, spot'.place,
      cut.parts⟩ :: ls', spot'', ?_, ?_⟩
    · have hlead : leadWords (String.ofList [].reverse) (ms.map Lexeme.spoken) =
          ms.map Lexeme.spoken :=
        leadWords_empty _
      rw [List.map_cons, hls, hlead]
      simp [leadWords, Lexeme.spoken, Lexeme.word]
    · rw [List.cons_append, scanFrom_of_cutLexeme _ _ _ (by simpa using hblank) hagain]
      simp only [List.take_append_of_le_length hmore, List.drop_append_of_le_length hmore]
      change (nextOpen (stack' ++ base) cut.kind text spot'.place >>= _) = _
      rw [hopen']
      simp only [bind, Except.bind]
      rw [List.nil_append] at hrun
      change (scanFrom (next' ++ base) [] (spot'.advance chars) (cs.drop cut.more ++ rest) >>= _) =
        _
      rw [hrun]
      cases scanFrom base [] spot'' rest <;> rfl

end WidgetBridge.WidgetGrammar
