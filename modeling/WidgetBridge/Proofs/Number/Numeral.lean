import WidgetBridge.Number.Numeral
import WidgetBridge.Proofs.Text.CharClass

/-!
# Integers read back

The digits of a natural number are read back as the number (`readInt?_digits`), and so is every
integer with its sign (`readInt?_showInt`).  A numeral stands on one line.
-/

namespace WidgetBridge.Number

open WidgetBridge.Text

theorem digitsOf_ne_nil (n : Nat) : digitsOf n ≠ [] := Nat.toDigits_ne_nil

theorem isDigit_of_mem_digitsOf {n : Nat} {c : Char} (h : c ∈ digitsOf n) : isDigit c = true := by
  have := Nat.isDigit_of_mem_toDigits (by decide) (by decide) h
  simpa [Char.isDigit, isDigit_iff, UInt32.le_iff_toNat_le] using this

/-- The value of a digit is its distance from zero. -/
theorem decimalValue?_of_isDigit {c : Char} (h : isDigit c = true) :
    decimalValue? c = some (c.toNat - 48) := by
  have := isDigit_iff.1 h
  simp [decimalValue?, h, show c.toNat < 128 by omega]

theorem digitRun?_go {cs : List Char} (h : ∀ c ∈ cs, isDigit c = true) :
    digitRun?.go decimalValue? true cs = some (cs.map fun c => c.toNat - 48) := by
  induction cs with
  | nil => rfl
  | cons c cs ih =>
    have hc := h c List.mem_cons_self
    have hne : c ≠ '_' := by rintro rfl; revert hc; decide
    simp [digitRun?.go, decimalValue?_of_isDigit hc,
      ih fun d hd => h d (List.mem_cons_of_mem _ hd)]

theorem digitRun?_digits {cs : List Char} (hne : cs ≠ []) (h : ∀ c ∈ cs, isDigit c = true) :
    digitRun? decimalValue? cs = some (cs.map fun c => c.toNat - 48) := by
  obtain ⟨c, cs, rfl⟩ := List.exists_cons_of_ne_nil hne
  have hc := h c List.mem_cons_self
  have hne : c ≠ '_' := by rintro rfl; revert hc; decide
  simp [digitRun?, digitRun?.go, decimalValue?_of_isDigit hc,
    digitRun?_go fun d hd => h d (List.mem_cons_of_mem _ hd)]

theorem ofDigits_digitsOf (n : Nat) :
    ofDigits 10 ((digitsOf n).map fun c => c.toNat - 48) = n := by
  have h := Nat.ofDigitChars_ten_toDigits (n := n)
  rw [Nat.ofDigitChars_eq_foldl] at h
  rw [ofDigits, List.foldl_map]
  simpa [digitsOf, Nat.mul_comm] using h

theorem trimChars_digits {cs : List Char} (h : ∀ c ∈ cs, isDigit c = true) : trimChars cs = cs :=
  trimChars_of_no_blank fun c hc => not_isBlank_of_isNameChar (isNameChar_of_isDigit (h c hc))

theorem readInt?_digits (n : Nat) : readInt? (String.ofList (digitsOf n)) = some (n : Int) := by
  have hd : ∀ c ∈ digitsOf n, isDigit c = true := fun c hc => isDigit_of_mem_digitsOf hc
  have hsign : splitSign (digitsOf n) = (false, digitsOf n) := by
    obtain ⟨c, cs, hcs⟩ := List.exists_cons_of_ne_nil (digitsOf_ne_nil n)
    have hc := hd c (by simp [hcs])
    unfold splitSign
    rw [hcs]
    split
    · rename_i h
      rw [(List.cons.inj h).1] at hc
      exact absurd hc (by decide)
    · rename_i h
      rw [(List.cons.inj h).1] at hc
      exact absurd hc (by decide)
    · rfl
  simp [readInt?, trimChars_digits hd, hsign, digitRun?_digits (digitsOf_ne_nil n) hd,
    ofDigits_digitsOf]

theorem readInt?_showInt (i : Int) : readInt? (showInt i) = some i := by
  cases i with
  | ofNat n => exact readInt?_digits n
  | negSucc n =>
    have hd : ∀ c ∈ digitsOf (n + 1), isDigit c = true := fun c hc => isDigit_of_mem_digitsOf hc
    have htrim : trimChars ('-' :: digitsOf (n + 1)) = '-' :: digitsOf (n + 1) := by
      refine trimChars_of_no_blank fun c hc => ?_
      rcases List.mem_cons.1 hc with rfl | hc
      · rfl
      · exact not_isBlank_of_isNameChar (isNameChar_of_isDigit (hd c hc))
    simp [readInt?, showInt, htrim, splitSign, digitRun?_digits (digitsOf_ne_nil _) hd,
      ofDigits_digitsOf, Int.negSucc_eq]

/-! ## Numerals stand on one line -/

theorem newline_not_mem_digitsOf (n : Nat) : '\n' ∉ digitsOf n := fun h =>
  absurd (isDigit_of_mem_digitsOf h) (by decide)

theorem newline_not_mem_showInt (i : Int) : '\n' ∉ (showInt i).toList := by
  cases i <;> simp [showInt, newline_not_mem_digitsOf]

theorem newline_not_mem_exponent (e : Int) : '\n' ∉ 'e' :: (if e < 0 then '-' else '+') ::
    (if (digitsOf e.natAbs).length < 2 then '0' :: digitsOf e.natAbs else digitsOf e.natAbs) := by
  have hds := newline_not_mem_digitsOf e.natAbs
  split_ifs <;> simp [hds]

theorem newline_not_mem_showDecimal (d : Decimal) : '\n' ∉ showDecimal d := by
  have hds := newline_not_mem_digitsOf d.digits
  have hpart {part : List Char} (h : part.Sublist (digitsOf d.digits)) : '\n' ∉ part := fun hn =>
    hds (h.subset hn)
  unfold showDecimal
  dsimp only
  split_ifs with hfar hwhole hlead
  · generalize digitsOf d.digits = ds at hds
    match ds, hds with
    | [], _ => exact List.not_mem_nil
    | first :: [], hds =>
      rw [List.mem_singleton] at hds
      refine List.not_mem_cons_of_ne_of_not_mem hds ?_
      exact newline_not_mem_exponent _
    | first :: second :: more, hds =>
      rw [List.mem_cons, not_or] at hds
      refine List.not_mem_cons_of_ne_of_not_mem hds.1
        (List.not_mem_cons_of_ne_of_not_mem (by decide) ?_)
      refine List.not_mem_append hds.2 ?_
      exact newline_not_mem_exponent _
  · simp [hds]
  · simp [hpart (List.take_sublist _ _), hpart (List.drop_sublist _ _)]
  · simp [hds]

theorem newline_not_mem_showFloat (x : Float) : '\n' ∉ (showFloat x).toList := by
  unfold showFloat
  split
  · split_ifs <;> decide
  · dsimp only
    split_ifs <;> simp [newline_not_mem_showDecimal]

end WidgetBridge.Number
