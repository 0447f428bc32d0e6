import WidgetBridge.Number.Numeral
import WidgetBridge.Proofs.Text.CharTable

/-!
# Numerals that can be read

A text that consists of digits, with places and an exponent or without, is read by `readInt?`,
`readFloat?` and `readHex?`.  The digits may be those of any script: they are no blanks, so that
nothing of a numeral is trimmed off.
-/

namespace WidgetBridge.Number

open WidgetBridge.Text

theorem ne_of_isDecimal {c d : Char} (h : isDecimal c = true)
    (hd : isDecimal d = false) : c ≠ d := by
  rintro rfl
  simp [hd] at h

/-! ## Runs of digits -/

/-- Some decimal digits. -/
structure IsDigits (cs : List Char) : Prop where
  ne_nil : cs ≠ []
  isDecimal : ∀ c ∈ cs, isDecimal c = true

theorem isSome_digitRun?_go {value? : Char → Option Nat} {cs : List Char}
    (h : ∀ c ∈ cs, (value? c).isSome = true ∧ c ≠ '_') {afterDigit : Bool}
    (hne : cs ≠ [] ∨ afterDigit = true) : (digitRun?.go value? afterDigit cs).isSome = true := by
  induction cs generalizing afterDigit with
  | nil =>
    rcases hne with hne | rfl
    · exact absurd rfl hne
    · rfl
  | cons c cs ih =>
    obtain ⟨hc, hcs⟩ := List.forall_mem_cons.1 h
    obtain ⟨d, hd⟩ := Option.isSome_iff_exists.1 hc.1
    have hrest : (digitRun?.go value? true cs).isSome = true := ih hcs (.inr rfl)
    obtain ⟨ds, hds⟩ := Option.isSome_iff_exists.1 hrest
    rw [digitRun?.go]
    · simp [hd, hds]
    · exact hc.2

theorem IsDigits.isSome_digitRun? {cs : List Char} (h : IsDigits cs) :
    (digitRun? decimalValue? cs).isSome = true := by
  apply isSome_digitRun?_go
  · intro c hc
    exact ⟨h.isDecimal c hc, ne_of_isDecimal (h.isDecimal c hc) (by decide)⟩
  · exact .inl h.ne_nil

theorem IsDigits.splitSign_append {cs : List Char} (h : IsDigits cs) (rest : List Char) :
    splitSign (cs ++ rest) = (false, cs ++ rest) := by
  obtain ⟨hne, hdec⟩ := h
  cases cs with
  | nil => exact absurd rfl hne
  | cons c cs =>
    have hc := hdec c List.mem_cons_self
    rw [List.cons_append, splitSign]
    · intro rest' heq
      cases heq
      exact ne_of_isDecimal hc (by decide) rfl
    · intro rest' heq
      cases heq
      exact ne_of_isDecimal hc (by decide) rfl

/-! ## Numerals -/

/-- The exponent of a numeral, which may be missing. -/
def IsExponent (cs : List Char) : Prop :=
  cs = [] ∨ ∃ mark sign digits, (mark = 'e' ∨ mark = 'E') ∧
    (sign = [] ∨ sign = ['+'] ∨ sign = ['-']) ∧
    IsDigits digits ∧ cs = mark :: (sign ++ digits)

/-- The places of a numeral, which may be missing. -/
def IsPlaces (cs : List Char) : Prop := cs = [] ∨ ∃ digits, IsDigits digits ∧ cs = '.' :: digits

/-- A sign that a numeral may have. -/
def IsMinus (cs : List Char) : Prop := cs = [] ∨ cs = ['-']

theorem IsDigits.not_isBlank {cs : List Char} (h : IsDigits cs) : ∀ c ∈ cs, isBlank c = false :=
  fun c hc => not_isBlank_of_isDecimal (h.isDecimal c hc)

theorem IsMinus.not_isBlank {cs : List Char} (h : IsMinus cs) : ∀ c ∈ cs, isBlank c = false := by
  rcases h with rfl | rfl
  · exact List.forall_mem_nil _
  · exact List.forall_mem_singleton.2 (by decide)

theorem IsPlaces.not_isBlank {cs : List Char} (h : IsPlaces cs) : ∀ c ∈ cs, isBlank c = false := by
  rcases h with rfl | ⟨digits, hd, rfl⟩
  · simp
  · exact List.forall_mem_cons.2 ⟨by decide, hd.not_isBlank⟩

theorem IsExponent.not_isBlank {cs : List Char} (h : IsExponent cs) :
    ∀ c ∈ cs, isBlank c = false := by
  rcases h with rfl | ⟨mark, sign, digits, hmark, hsign, hd, rfl⟩
  · simp
  · refine List.forall_mem_cons.2 ⟨?_, List.forall_mem_append.2 ⟨?_, hd.not_isBlank⟩⟩
    · rcases hmark with rfl | rfl <;> decide
    · rcases hsign with rfl | rfl | rfl
      · exact List.forall_mem_nil _
      · exact List.forall_mem_singleton.2 (by decide)
      · exact List.forall_mem_singleton.2 (by decide)

theorem IsMinus.splitSign_append {minus whole : List Char} (hm : IsMinus minus)
    (hw : IsDigits whole) (rest : List Char) :
    (splitSign (minus ++ (whole ++ rest))).2 = whole ++ rest := by
  rcases hm with rfl | rfl
  · rw [List.nil_append, hw.splitSign_append]
  · rfl

/-- Whole numbers are read. -/
theorem isSome_readInt? {minus whole : List Char} (hm : IsMinus minus) (hw : IsDigits whole) :
    (readInt? (String.ofList (minus ++ whole))).isSome = true := by
  have htrim : trimChars (minus ++ whole) = minus ++ whole :=
    trimChars_of_no_blank (List.forall_mem_append.2 ⟨hm.not_isBlank, hw.not_isBlank⟩)
  have hsign := hm.splitSign_append hw []
  rw [List.append_nil] at hsign
  obtain ⟨ds, hds⟩ := Option.isSome_iff_exists.1 hw.isSome_digitRun?
  unfold readInt?
  simp [htrim, hsign, hds]

theorem IsExponent.isSome_readExponent? {cs : List Char} (h : IsExponent cs) (hne : cs ≠ []) :
    (readExponent? (cs.drop 1)).isSome = true := by
  rcases h with rfl | ⟨mark, sign, digits, -, hsign, hd, rfl⟩
  · exact absurd rfl hne
  · have hbody : (splitSign (sign ++ digits)).2 = digits := by
      rcases hsign with rfl | rfl | rfl
      · have := hd.splitSign_append []
        rw [List.append_nil] at this
        rw [List.nil_append, this]
      · rfl
      · rfl
    obtain ⟨ds, hds⟩ := Option.isSome_iff_exists.1 hd.isSome_digitRun?
    unfold readExponent?
    simp [hbody, hds]

theorem IsPlaces.isSome_optionalRun? {cs : List Char} (h : IsPlaces cs) :
    (optionalRun? (cs.drop 1)).isSome = true := by
  rcases h with rfl | ⟨digits, hd, rfl⟩
  · rfl
  · unfold optionalRun?
    simp [hd.ne_nil, hd.isSome_digitRun?]

/-- The part of a numeral before its exponent. -/
theorem takeWhile_mantissa {whole places exponent : List Char} (hw : IsDigits whole)
    (hp : IsPlaces places) (he : IsExponent exponent) :
    (whole ++ places ++ exponent).takeWhile (fun c => c != 'e' && c != 'E') = whole ++ places := by
  have hdigits {ds : List Char} (hd : IsDigits ds) : ∀ c ∈ ds, (c != 'e' && c != 'E') = true := by
    intro c hc
    have h₁ := ne_of_isDecimal (hd.isDecimal c hc) (d := 'e') (by decide)
    have h₂ := ne_of_isDecimal (hd.isDecimal c hc) (d := 'E') (by decide)
    simp [h₁, h₂]
  have hmantissa : ∀ c ∈ whole ++ places, (c != 'e' && c != 'E') = true := by
    rw [List.forall_mem_append]
    refine ⟨hdigits hw, ?_⟩
    rcases hp with rfl | ⟨digits, hd, rfl⟩
    · simp
    · exact List.forall_mem_cons.2 ⟨by decide, hdigits hd⟩
  rw [List.takeWhile_append_of_pos hmantissa]
  rcases he with rfl | ⟨mark, sign, digits, hmark, -, -, rfl⟩
  · simp
  · rcases hmark with rfl | rfl <;> simp

theorem takeWhile_whole {whole places : List Char} (hw : IsDigits whole) (hp : IsPlaces places) :
    (whole ++ places).takeWhile (· != '.') = whole := by
  have hdigits : ∀ c ∈ whole, (c != '.') = true := by
    intro c hc
    simpa using ne_of_isDecimal (hw.isDecimal c hc) (d := '.') (by decide)
  rw [List.takeWhile_append_of_pos hdigits]
  rcases hp with rfl | ⟨digits, -, rfl⟩ <;> simp

/-- Numbers with places and an exponent are read. -/
theorem isSome_readFloat? {minus whole places exponent : List Char} (hm : IsMinus minus)
    (hw : IsDigits whole) (hp : IsPlaces places) (he : IsExponent exponent) :
    (readFloat? (String.ofList (minus ++ (whole ++ places ++ exponent)))).isSome = true := by
  have htrim : trimChars (minus ++ (whole ++ places ++ exponent)) =
      minus ++ (whole ++ places ++ exponent) := by
    apply trimChars_of_no_blank
    simp only [List.forall_mem_append]
    exact ⟨hm.not_isBlank, ⟨hw.not_isBlank, hp.not_isBlank⟩, he.not_isBlank⟩
  have hsign : (splitSign (minus ++ (whole ++ places ++ exponent))).2 =
      whole ++ places ++ exponent := by
    rw [List.append_assoc]
    exact hm.splitSign_append hw _
  have hwhole : (optionalRun? whole).isSome = true := by
    unfold optionalRun?
    simp [hw.ne_nil, hw.isSome_digitRun?]
  obtain ⟨ds, hds⟩ := Option.isSome_iff_exists.1 hwhole
  obtain ⟨fs, hfs⟩ := Option.isSome_iff_exists.1 hp.isSome_optionalRun?
  have hexp : (if exponent.isEmpty then some 0 else readExponent? (exponent.drop 1)).isSome =
      true := by
    split_ifs with hempty
    · rfl
    · exact he.isSome_readExponent? fun hnil => hempty (by simp [hnil])
  obtain ⟨e, he'⟩ := Option.isSome_iff_exists.1 hexp
  unfold readFloat?
  simp only [String.toList_ofList, htrim, hsign, takeWhile_mantissa hw hp he, takeWhile_whole hw hp,
    List.drop_left, hds, hfs]
  split_ifs <;> simp_all [hw.ne_nil]

/-! ## Hexadecimal numerals -/

theorem isSome_digitIn?_of_isHexDigit {c : Char} (h : isHexDigit c = true) :
    (digitIn? 16 c).isSome = true := by
  have hcode : (48 ≤ c.toNat ∧ c.toNat ≤ 57) ∨ (97 ≤ c.toNat ∧ c.toNat ≤ 102) ∨
      (65 ≤ c.toNat ∧ c.toNat ≤ 70) := by
    simp only [isHexDigit, Bool.or_eq_true, isDigit_iff, Bool.and_eq_true, decide_eq_true_eq,
      Char.le_def, UInt32.le_iff_toNat_le] at h
    rcases h with (h | h) | h
    · exact .inl h
    · exact .inr (.inl h)
    · exact .inr (.inr h)
  have hvalue : ∃ n < 16, hexDigit? c = some n := by
    unfold hexDigit?
    dsimp only
    split_ifs
    · exact ⟨_, by omega, rfl⟩
    · exact ⟨_, by omega, rfl⟩
    · exact ⟨_, by omega, rfl⟩
    · omega
  obtain ⟨n, hn, hvalue⟩ := hvalue
  simp [digitIn?, hvalue, Option.filter, hn]

theorem isNameChar_of_isHexDigit {c : Char} (h : isHexDigit c = true) : isNameChar c = true := by
  simp only [isHexDigit, Bool.or_eq_true, isDigit_iff, Bool.and_eq_true, decide_eq_true_eq,
    Char.le_def, UInt32.le_iff_toNat_le] at h
  simp only [isNameChar, Bool.or_eq_true, isNameStart_iff, isDigit_iff]
  change ((48 ≤ c.toNat ∧ c.toNat ≤ 57) ∨ (97 ≤ c.toNat ∧ c.toNat ≤ 102)) ∨
    (65 ≤ c.toNat ∧ c.toNat ≤ 70) at h
  omega

/-- Marked hexadecimal numerals are read. -/
theorem isSome_readHex? {mark : Char} (hmark : mark = 'x' ∨ mark = 'X') {digits : List Char}
    (hne : digits ≠ []) (h : ∀ c ∈ digits, isHexDigit c = true) :
    (readHex? (String.ofList ('0' :: mark :: digits))).isSome = true := by
  have hblank : ∀ c ∈ '0' :: mark :: digits, isBlank c = false := by
    refine List.forall_mem_cons.2 ⟨by decide, List.forall_mem_cons.2 ⟨?_, fun c hc => ?_⟩⟩
    · rcases hmark with rfl | rfl <;> decide
    · exact not_isBlank_of_isNameChar (isNameChar_of_isHexDigit (h c hc))
  have hunder : ∀ c ∈ digits, c ≠ '_' := by
    rintro c hc rfl
    exact absurd (h _ hc) (by decide)
  have hunmark : readHex?.unmark digits = digits := by
    cases digits with
    | nil => rfl
    | cons c cs =>
      rw [readHex?.unmark]
      intro rest heq
      cases heq
      exact hunder '_' List.mem_cons_self rfl
  have hrun : (digitRun? (digitIn? 16) digits).isSome = true := by
    apply isSome_digitRun?_go
    · exact fun c hc => ⟨isSome_digitIn?_of_isHexDigit (h c hc), hunder c hc⟩
    · exact .inl hne
  obtain ⟨ds, hds⟩ := Option.isSome_iff_exists.1 hrun
  unfold readHex?
  rcases hmark with rfl | rfl <;>
    simp [trimChars_of_no_blank hblank, splitSign, hunmark, hds]

end WidgetBridge.Number
