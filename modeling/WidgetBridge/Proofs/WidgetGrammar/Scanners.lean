import WidgetBridge.Proofs.WidgetGrammar.Extension

/-!
# How far the scanners go

`Scanned cs kind parts n` says that the scanner for a kind of lexemes takes `n` characters at the
head of `cs`.  Every lexeme is cut off by one of them (`scanned_of_cutLexeme`), and each takes at
least one character and no more than there are (`Scanned.bounds`).

The fuel of the scanners for literals never runs out (`scansAlike`).
-/

namespace WidgetBridge.WidgetGrammar

open WidgetBridge.Text WidgetBridge.Number

/-! ## Lengths -/

theorem le_of_blockComment {depth taken n : Nat} {cs : List Char}
    (h : blockComment depth taken cs = some n) :
    taken ≤ n := by
  fun_induction blockComment depth taken cs with
  | case1 depth taken cs ih =>
    have := ih h
    omega
  | case2 taken cs =>
    cases h
    omega
  | case3 depth taken cs ih =>
    have := ih h
    omega
  | case4 depth taken c cs hopen hend hclose ih =>
    have := ih h
    omega
  | case5 => cases h

/-- A literal takes its opening mark at least, and it ends in the text. -/
theorem literalAt_bounds {raw : Bool} {lead n : Nat} {mark : Char} {cs : List Char}
    {parts : List Part} (h : literalAt raw lead mark cs = .ok (n, parts)) :
    lead < n ∧ n ≤ lead + (cs.length + 1) := by
  unfold literalAt at h
  have hq := length_delimiter_quotesAt_le mark cs
  have hpos := length_delimiter_pos (quotesAt mark cs)
  dsimp only at h
  generalize (quotesAt mark cs).delimiter.length = k at h hq hpos
  cases hbody : literalBody (2 * cs.length + 2) raw (quotesAt mark cs) 0 (lead + k) [] []
    (cs.drop (k - 1)) with
  | error e =>
    rw [hbody] at h
    cases h
  | ok r =>
    rw [hbody] at h
    cases h
    obtain ⟨hle, hstop⟩ := stop_of_literalBody (Nat.zero_le _) hbody
    rw [List.length_drop] at hstop
    omega

theorem numberLength_pos {cs : List Char} {n : Nat} (h : numberLength cs = some n) : 0 < n :=
  Nat.pos_of_ne_zero (exists_numeralValue h).1

theorem punctuatorLength_pos (cs : List Char) : 0 < punctuatorLength cs := by
  have hlong : ∀ p ∈ longPunctuators, 0 < p.length := by decide
  unfold punctuatorLength
  cases hfind : longPunctuators.find? fun p => (dropHead? p cs).isSome with
  | none => exact Nat.one_pos
  | some p => exact hlong p (List.mem_of_find?_eq_some hfind)

/-! ## Scanners -/

/-- A lexeme at the head of a text, as the scanner of its kind finds it: its kind, its parts, and
the number of characters that it takes. -/
inductive Scanned : List Char → LexemeKind → List Part → Nat → Prop
  | line (cs : List Char) :
    Scanned ('/' :: '/' :: cs) .comment [] (('/' :: '/' :: cs).takeWhile (· != '\n')).length
  | block {cs : List Char} {n : Nat} :
    blockComment 0 2 cs = some n → Scanned ('/' :: '*' :: cs) .comment [] n
  | raw {c q : Char} {cs : List Char} {parts : List Part} {n : Nat} :
    rawMark? c (q :: cs) = some (q, cs) → literalAt true 1 q cs = .ok (n, parts) →
      Scanned (c :: q :: cs) .string parts n
  | literal {q : Char} {cs : List Char} {parts : List Part} {n : Nat} :
    IsQuote q → literalAt false 0 q cs = .ok (n, parts) → Scanned (q :: cs) .string parts n
  | ident {c : Char} {cs : List Char} :
    isNameStart c = true → Scanned (c :: cs) .ident [] ((c :: cs).takeWhile isNameChar).length
  | number {cs : List Char} {n : Nat} : numberLength cs = some n → Scanned cs .number [] n
  | punct (c : Char) (cs : List Char) : Scanned (c :: cs) .punct [] (punctuatorLength (c :: cs))

/-- A scanner makes progress and stays in the text. -/
theorem Scanned.bounds {cs : List Char} {kind : LexemeKind} {parts : List Part} {n : Nat}
    (h : Scanned cs kind parts n) : 0 < n ∧ n ≤ cs.length := by
  cases h with
  | line cs =>
    refine ⟨by simp, ?_⟩
    exact (List.takeWhile_prefix _).length_le
  | block hblock =>
    have hle := le_of_blockComment hblock
    have hlen := (blockComment_append hblock []).1
    simp only [List.length_cons]
    omega
  | raw hmark hlit =>
    obtain ⟨hpos, hlen⟩ := literalAt_bounds hlit
    simp only [List.length_cons]
    omega
  | literal hquote hlit =>
    obtain ⟨hpos, hlen⟩ := literalAt_bounds hlit
    simp only [List.length_cons]
    omega
  | ident hname =>
    refine ⟨by simp [isNameChar_of_isNameStart hname], ?_⟩
    exact (List.takeWhile_prefix _).length_le
  | number hnumber => exact ⟨numberLength_pos hnumber, numberLength_le hnumber⟩
  | punct c cs => exact ⟨punctuatorLength_pos _, punctuatorLength_le c cs⟩

theorem exists_of_cutLiteral {raw : Bool} {lead : Nat} {mark : Char} {cs : List Char} {cut : Cut}
    (h : cutLiteral raw lead mark cs = .ok cut) :
    cut.kind = .string ∧ literalAt raw lead mark cs = .ok (cut.more + 1, cut.parts) := by
  unfold cutLiteral at h
  cases hlit : literalAt raw lead mark cs with
  | error e =>
    rw [hlit] at h
    cases h
  | ok r =>
    rw [hlit] at h
    cases h
    have hpos := (literalAt_bounds hlit).1
    have hmore : r.1 - 1 + 1 = r.1 := by omega
    dsimp only
    rw [hmore]
    exact ⟨rfl, rfl⟩

theorem scanned_of_commentAt? {c : Char} {cs : List Char} {cut : Cut}
    (h : commentAt? c cs = some (.ok cut)) :
    Scanned (c :: cs) cut.kind cut.parts (cut.more + 1) := by
  unfold commentAt? at h
  split at h
  · next ds =>
    cases h
    have hline := Scanned.line ds
    rwa [List.takeWhile_cons_of_pos (by decide), List.length_cons] at hline
  · next ds =>
    cases hblock : blockComment 0 2 ds with
    | none =>
      rw [hblock] at h
      cases h
    | some n =>
      rw [hblock] at h
      cases h
      have hle := le_of_blockComment hblock
      have hmore : n - 1 + 1 = n := by omega
      dsimp only
      rw [hmore]
      exact .block hblock
  · cases h

/-- Every lexeme is cut off by the scanner of its kind. -/
theorem scanned_of_cutLexeme {c : Char} {cs : List Char} {cut : Cut}
    (h : cutLexeme c cs = .ok cut) :
    Scanned (c :: cs) cut.kind cut.parts (cut.more + 1) := by
  unfold cutLexeme at h
  split at h
  · next result hcomment =>
    subst h
    exact scanned_of_commentAt? hcomment
  · split at h
    · next q rest hraw =>
      obtain ⟨-, rfl⟩ := eq_of_rawMark? hraw
      obtain ⟨hkind, hlit⟩ := exists_of_cutLiteral h
      rw [hkind]
      exact .raw hraw hlit
    · split_ifs at h with hquote hname hdigit
      · have hm := isQuote_iff.1 hquote
        obtain ⟨hkind, hlit⟩ := exists_of_cutLiteral h
        rw [hkind]
        exact .literal hm hlit
      · cases h
        have hident : Scanned (c :: cs) .ident [] _ := .ident hname
        rwa [List.takeWhile_cons_of_pos (isNameChar_of_isNameStart hname),
          List.length_cons] at hident
      · split at h
        · next n hnumber =>
          cases h
          have hpos := numberLength_pos hnumber
          have hmore : n - 1 + 1 = n := by omega
          dsimp only
          rw [hmore]
          exact .number hnumber
        · cases h
      · cases h
        have hpos := punctuatorLength_pos (c :: cs)
        have hmore : punctuatorLength (c :: cs) - 1 + 1 = punctuatorLength (c :: cs) := by omega
        dsimp only
        rw [hmore]
        exact .punct c cs

/-! ## Fuel -/

/-- With two amounts of fuel, a text that is shorter than either of them is scanned alike. -/
structure ScansAlike (fuel fuel' : Nat) : Prop where
  body : ∀ (raw : Bool) (q : Quotes) (start taken : Nat) (buffer : List Char) (parts : List Part)
    (cs : List Char),
    cs.length < fuel → cs.length < fuel' →
      literalBody fuel raw q start taken buffer parts cs =
        literalBody fuel' raw q start taken buffer parts cs
  hole : ∀ (depth taken : Nat) (cs : List Char), cs.length < fuel → cs.length < fuel' →
    holeEnd fuel depth taken cs = holeEnd fuel' depth taken cs

section Alike

variable {fuel fuel' taken : Nat} {cs : List Char}

/-- Behind a character the fuel that is left is enough for what is left of the text. -/
theorem ScansAlike.body_drop (ih : ScansAlike fuel fuel') (hfuel : cs.length < fuel + 1)
    (hfuel' : cs.length < fuel' + 1) {n : Nat} (hn : 0 < n) (raw : Bool) (q : Quotes)
    (start taken : Nat) (buffer : List Char) (parts : List Part) :
    literalBody fuel raw q start taken buffer parts (cs.drop n) =
      literalBody fuel' raw q start taken buffer parts (cs.drop n) := by
  by_cases hlen : n ≤ cs.length
  · apply ih.body <;> rw [List.length_drop] <;> omega
  · rw [List.drop_of_length_le (by omega), literalBody_nil, literalBody_nil]

theorem ScansAlike.hole_drop (ih : ScansAlike fuel fuel') (hfuel : cs.length < fuel + 1)
    (hfuel' : cs.length < fuel' + 1) {n : Nat} (hn : 0 < n) (hne : 1 ≤ cs.length)
    (depth taken : Nat) :
    holeEnd fuel depth taken (cs.drop n) = holeEnd fuel' depth taken (cs.drop n) := by
  apply ih.hole <;> rw [List.length_drop] <;> omega

theorem ScansAlike.body_succ (ih : ScansAlike fuel fuel') (hfuel : cs.length < fuel + 1)
    (hfuel' : cs.length < fuel' + 1) (raw : Bool) (q : Quotes) (start taken : Nat)
    (buffer : List Char) (parts : List Part) :
    literalBody (fuel + 1) raw q start taken buffer parts cs =
      literalBody (fuel' + 1) raw q start taken buffer parts cs := by
  have hfits := fits_bodyStep raw q start taken buffer parts cs
  rw [literalBody_succ, literalBody_succ]
  generalize bodyStep raw q start taken buffer parts cs = step at hfits ⊢
  cases step with
  | fails e => rfl
  | ends n parts => rfl
  | goes n buffer parts => exact ih.body_drop hfuel hfuel' hfits raw q start _ buffer parts
  | opens inner parts =>
    obtain ⟨c, d, rfl⟩ := hfits
    have hlength : (c :: d :: inner).length = inner.length + 2 := rfl
    dsimp only [BodyStep.run]
    rw [ih.hole 1 (taken + 2) inner (by omega) (by omega)]
    cases hstop : holeEnd fuel' 1 (taken + 2) inner with
    | error e => rfl
    | ok stop =>
      have hle := (stop_of_holeEnd hstop).1
      exact ih.body_drop hfuel hfuel' (by omega) raw q start stop [] _

theorem ScansAlike.hole_succ (ih : ScansAlike fuel fuel') (hfuel : cs.length < fuel + 1)
    (hfuel' : cs.length < fuel' + 1) (depth taken : Nat) :
    holeEnd (fuel + 1) depth taken cs = holeEnd (fuel' + 1) depth taken cs := by
  have hfits := fits_holeStep depth taken cs
  rw [holeEnd_succ, holeEnd_succ]
  generalize holeStep depth taken cs = step at hfits ⊢
  cases step with
  | fails e => rfl
  | ends => rfl
  | goes depth => exact ih.hole_drop hfuel hfuel' Nat.one_pos hfits depth _
  | opens q =>
    have hpos := length_delimiter_pos q
    dsimp only [HoleStep.run]
    rw [ih.body_drop hfuel hfuel' hpos false q taken _ [] []]
    cases hstop : literalBody fuel' false q taken (taken + q.delimiter.length) [] []
        (cs.drop q.delimiter.length) with
    | error e => rfl
    | ok r =>
      have hle := (stop_of_literalBody (Nat.le_add_right taken _) hstop).1
      exact ih.hole_drop hfuel hfuel' (by omega) (Nat.le_trans hpos hfits.1) depth r.1

end Alike

/-- Every call of a scanner takes a character at least: fuel for all characters and one more is
enough. -/
theorem scansAlike (fuel fuel' : Nat) : ScansAlike fuel fuel' := by
  induction fuel generalizing fuel' with
  | zero => constructor <;> intros <;> omega
  | succ fuel ih =>
    cases fuel' with
    | zero => constructor <;> intros <;> omega
    | succ fuel' =>
      exact {
        body := fun raw q start taken buffer parts _ h h' =>
          (ih fuel').body_succ h h' raw q start taken buffer parts
        hole := fun depth taken _ h h' => (ih fuel').hole_succ h h' depth taken }

end WidgetBridge.WidgetGrammar
