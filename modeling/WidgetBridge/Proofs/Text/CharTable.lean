import WidgetBridge.Proofs.Text.CharClass

/-!
# Classes of characters by their tables

Beyond the ASCII characters the classes are tables of ranges of code points.  These tables are
checked here once: no blank is a digit or a word character of any script, and no digit has a
lower-case form.
-/

namespace WidgetBridge.Text

/-- The code points of the blanks beyond the ASCII characters. -/
def wideBlanks : List Nat :=
  [0x85, 0xA0, 0x1680, 0x2000, 0x2001, 0x2002, 0x2003, 0x2004, 0x2005, 0x2006, 0x2007,
  0x2008, 0x2009, 0x200A, 0x2028, 0x2029, 0x202F, 0x205F, 0x3000]

theorem mem_wideBlanks {c : Char} (h : isBlank c = true) (hc : ¬ c.toNat < 128) :
    c.toNat ∈ wideBlanks := by
  simp only [isBlank, Bool.or_eq_true, Bool.and_eq_true, decide_eq_true_eq, beq_iff_eq] at h
  simp only [wideBlanks, List.mem_cons, List.not_mem_nil, or_false]
  omega

theorem wideBlanks_not_mem_decimalRanges : decimalRanges.all (fun r =>
    wideBlanks.all fun n => !(decide (r.1 ≤ n) && decide (n ≤ r.2))) = true := by
  unfold decimalRanges rangesOf tableNumbers tableWords CharTable.decimalDigits
  -- the table as a list of characters, which the kernel reads faster than a text
  rw [show String.toList _ = _ from String.toList_ofList]
  decide +kernel

theorem wideBlanks_not_mem_wordRanges : wordRanges.all (fun r =>
    wideBlanks.all fun n => !(decide (r.1 ≤ n) && decide (n ≤ r.2))) = true := by
  unfold wordRanges rangesOf tableNumbers tableWords CharTable.wordChars
  rw [show String.toList _ = _ from String.toList_ofList]
  decide +kernel

/-- The separators without a width are no word characters. -/
theorem widthless_not_mem_wordRanges : wordRanges.all (fun r =>
    [0x200B, 0x2060, 0xFEFF].all fun n => !(decide (r.1 ≤ n) && decide (n ≤ r.2))) = true := by
  unfold wordRanges rangesOf tableNumbers tableWords CharTable.wordChars
  rw [show String.toList _ = _ from String.toList_ofList]
  decide +kernel

/-- No run of characters with a lower-case form meets a run of digits. -/
theorem lowerRuns_disjoint_decimalRanges : decimalRanges.all (fun r =>
    lowerRuns.all fun run => decide (r.2 < run.first) ||
      decide (0 < run.stride ∧ run.first + run.count * run.stride ≤ r.1)) = true := by
  unfold decimalRanges lowerRuns caseRuns rangesOf tableNumbers tableWords CharTable.decimalDigits
    CharTable.toLower
  rw [show String.toList _ = _ from String.toList_ofList,
    show String.toList _ = _ from String.toList_ofList]
  decide +kernel

/-- The capital letter with a dot, whose lower-case form is two characters, is no digit. -/
theorem dotted_not_mem_decimalRanges :
    decimalRanges.all (fun r => !(decide (r.1 ≤ 0x130) && decide (0x130 ≤ r.2))) = true := by
  unfold decimalRanges rangesOf tableNumbers tableWords CharTable.decimalDigits
  rw [show String.toList _ = _ from String.toList_ofList]
  decide +kernel

theorem not_mem_range {ranges : List (Nat × Nat)} {ns : List Nat} (h : ranges.all (fun r =>
    ns.all fun n => !(decide (r.1 ≤ n) && decide (n ≤ r.2))) = true) {n : Nat} (hn : n ∈ ns) :
    ∀ r ∈ ranges, (decide (r.1 ≤ n) && decide (n ≤ r.2)) = false := by
  intro r hr
  have hall := List.all_eq_true.1 (List.all_eq_true.1 h r hr) n hn
  rwa [Bool.not_eq_true'] at hall

theorem not_isBlank_of_isDecimal {c : Char} (h : isDecimal c = true) : isBlank c = false := by
  by_contra hb
  rw [Bool.not_eq_false] at hb
  by_cases hlt : c.toNat < 128
  · rw [isDecimal_eq_isDigit hlt, isDigit_iff] at h
    have := isBlank_of_lt hb hlt
    omega
  · have hnone : decimalRanges.find? (fun r => decide (r.1 ≤ c.toNat) && decide (c.toNat ≤ r.2)) =
        none := by
      rw [List.find?_eq_none]
      intro r hr
      rw [not_mem_range wideBlanks_not_mem_decimalRanges (mem_wideBlanks hb hlt) r hr]
      exact Bool.false_ne_true
    unfold isDecimal decimalValue? at h
    simp only [hlt, if_false, hnone] at h
    cases h

theorem not_isWord_of_mem {ns : List Nat} (h : wordRanges.all (fun r =>
    ns.all fun n => !(decide (r.1 ≤ n) && decide (n ≤ r.2))) = true) {c : Char}
      (hc : ¬ c.toNat < 128)
    (hn : c.toNat ∈ ns) : isWord c = false := by
  unfold isWord inRanges
  rw [if_neg hc, List.any_eq_false]
  intro r hr
  rw [not_mem_range h hn r hr]
  exact Bool.false_ne_true

theorem not_isWord_of_isBlank {c : Char} (h : isBlank c = true) : isWord c = false := by
  by_cases hlt : c.toNat < 128
  · have hle := isBlank_of_lt h hlt
    have hletter : isLetter c = false := by
      rw [← Bool.not_eq_true, isLetter_iff]
      omega
    have hdigit : isDigit c = false := by
      rw [← Bool.not_eq_true, isDigit_iff]
      omega
    have hline : (c == '_') = false := by
      rw [beq_eq_false_iff_ne]
      rintro rfl
      revert hle
      decide
    simp only [isWord, hlt, if_true, hletter, hdigit, hline, Bool.or_false]
  · exact not_isWord_of_mem wideBlanks_not_mem_wordRanges hlt (mem_wideBlanks h hlt)

/-- A digit is its own lower-case form. -/
theorem lowerChar_of_isDecimal {c : Char} (h : isDecimal c = true) : lowerChar c = [c] := by
  by_cases hlt : c.toNat < 128
  · rw [isDecimal_eq_isDigit hlt, isDigit_iff] at h
    have hupper : ('A' ≤ c && c ≤ 'Z') = false := by
      rw [← Bool.not_eq_true]
      simp only [Bool.and_eq_true, decide_eq_true_eq, Char.le_def, UInt32.le_iff_toNat_le]
      change ¬ (65 ≤ c.toNat ∧ c.toNat ≤ 90)
      omega
    simp only [lowerChar, hlt, if_true, hupper, Bool.false_eq_true, if_false]
  · unfold isDecimal decimalValue? at h
    simp only [hlt, if_false, Option.isSome_map, List.find?_isSome, Bool.and_eq_true,
      decide_eq_true_eq] at h
    obtain ⟨r, hr, hfirst, hlast⟩ := h
    have hruns (run : CaseRun) (hrun : run ∈ lowerRuns) : run.image? c.toNat = none := by
      have hapart :=
        List.all_eq_true.1 (List.all_eq_true.1 lowerRuns_disjoint_decimalRanges r hr) run hrun
      rw [Bool.or_eq_true, decide_eq_true_eq, decide_eq_true_eq] at hapart
      unfold CaseRun.image?
      rw [if_neg]
      rintro ⟨hstart, -, hcount⟩
      rcases hapart with hbefore | ⟨hstride, hbehind⟩
      · omega
      · have hend := (Nat.div_lt_iff_lt_mul hstride).1 hcount
        omega
    have hdotted : (c.toNat == 0x130) = false := by
      rw [beq_eq_false_iff_ne]
      intro heq
      have hnone := List.all_eq_true.1 dotted_not_mem_decimalRanges r hr
      rw [heq] at hfirst hlast
      simp [hfirst, hlast] at hnone
    unfold lowerChar
    simp only [hlt, if_false, hdotted, Bool.false_eq_true]
    rw [List.findSome?_eq_none_iff.2 hruns, Option.getD_none]

end WidgetBridge.Text
