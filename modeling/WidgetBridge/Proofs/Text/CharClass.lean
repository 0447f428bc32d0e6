import Mathlib.Data.List.DropRight
import Mathlib.Data.List.TakeWhile
import WidgetBridge.Text.Basic

/-!
# Classes of characters

What the classes of characters have to do with each other.  Among the ASCII characters the classes
are ranges of code points, so that most of these facts are arithmetic.
-/

namespace WidgetBridge.Text

/-- To show something of all characters of a list it is enough to look at each of them. -/
theorem forall_mem_of_all {p : Char → Prop} [DecidablePred p] {cs : List Char}
    (h : cs.all (fun c => decide (p c)) = true) : ∀ c ∈ cs, p c :=
  fun c hc => of_decide_eq_true (List.all_eq_true.1 h c hc)

/-- To show something of an ASCII character it is enough to look at all of them. -/
theorem forall_ascii {p : Char → Prop} (h : ∀ n : Fin 128, p (Char.ofNat n)) {c : Char}
    (hc : c.toNat < 128) :
    p c := by
  have hp := h ⟨c.toNat, hc⟩
  rwa [Char.ofNat_toNat] at hp

/-! ## Classes of ASCII characters -/

theorem isDigit_iff {c : Char} : isDigit c = true ↔ 48 ≤ c.toNat ∧ c.toNat ≤ 57 := by
  simp [isDigit, Char.le_def, UInt32.le_iff_toNat_le]

theorem isLetter_iff {c : Char} : isLetter c = true ↔
    (97 ≤ c.toNat ∧ c.toNat ≤ 122) ∨ (65 ≤ c.toNat ∧ c.toNat ≤ 90) := by
  simp [isLetter, Char.le_def, UInt32.le_iff_toNat_le]

theorem isNameStart_iff {c : Char} : isNameStart c = true ↔
    (97 ≤ c.toNat ∧ c.toNat ≤ 122) ∨ (65 ≤ c.toNat ∧ c.toNat ≤ 90) ∨
      c.toNat = 95 ∨ c.toNat = 36 := by
  have h (d : Char) : c = d ↔ c.toNat = d.toNat := ⟨congrArg _, fun h => by
    rw [← Char.ofNat_toNat c, h, Char.ofNat_toNat]⟩
  simp only [isNameStart, Bool.or_eq_true, isLetter_iff, beq_iff_eq, h '_', h '$', or_assoc]
  rfl

/-- A blank in the range of the ASCII characters. -/
theorem isBlank_of_lt {c : Char} (h : isBlank c = true) (hc : c.toNat < 128) :
    c.toNat ≤ 32 := by
  simp only [isBlank, Bool.or_eq_true, Bool.and_eq_true, decide_eq_true_eq, beq_iff_eq] at h
  omega

theorem isBlank_newline : isBlank '\n' = true := rfl

/-- A character that is no blank is no line feed. -/
theorem ne_newline_of_not_isBlank {c : Char} (h : isBlank c = false) : c ≠ '\n' := by
  rintro rfl
  simp [isBlank_newline] at h

theorem not_isBlank_of_isNameChar {c : Char} (h : isNameChar c = true) : isBlank c = false := by
  by_contra hb
  simp only [isNameChar, Bool.or_eq_true, isNameStart_iff, isDigit_iff] at h
  have := isBlank_of_lt (Bool.not_eq_false _ ▸ hb) (by omega)
  omega

theorem isNameChar_of_isNameStart {c : Char} (h : isNameStart c = true) : isNameChar c = true := by
  simp [isNameChar, h]

theorem isNameChar_of_isDigit {c : Char} (h : isDigit c = true) : isNameChar c = true := by
  simp [isNameChar, h]

theorem isWord_of_isNameChar {c : Char} (h : isNameChar c = true) :
    (isWord c || c == '$') = true := by
  simp only [isNameChar, isNameStart, Bool.or_eq_true, beq_iff_eq] at h
  by_cases hd : c = '$'
  · simp [hd]
  · have hlt : c.toNat < 128 := by
      rcases h with ((h | rfl) | rfl) | h
      · have := isLetter_iff.1 h
        omega
      · decide
      · exact absurd rfl hd
      · have := isDigit_iff.1 h
        omega
    simp only [isWord, hlt, if_true, Bool.or_eq_true, beq_iff_eq]
    tauto

/-- Among the ASCII characters the decimal digits are the digits. -/
theorem isDecimal_eq_isDigit {c : Char} (hc : c.toNat < 128) : isDecimal c = isDigit c := by
  simp only [isDecimal, decimalValue?, hc, if_true]
  split_ifs with h <;> simp [h]

theorem isDecimal_of_isDigit {c : Char} (h : isDigit c = true) : isDecimal c = true := by
  rw [isDecimal_eq_isDigit (by have := isDigit_iff.1 h; omega), h]

theorem isAnyDigit_of_isDigit {c : Char} (h : isDigit c = true) : isAnyDigit c = true := by
  have := isDigit_iff.1 h
  simp [isAnyDigit, h, show c.toNat < 128 by omega]

/-! ## Blanks around a text -/

/-- A text that neither starts nor ends with a blank is trimmed. -/
theorem trimChars_of_ends {cs : List Char} (hfirst : ∀ c ∈ cs.head?, isBlank c = false)
    (hlast : ∀ c ∈ cs.getLast?, isBlank c = false) : trimChars cs = cs := by
  have hstart : trimStartChars cs = cs := by
    cases cs with
    | nil => rfl
    | cons c cs => simp [trimStartChars, hfirst c rfl]
  have hend : cs.reverse.dropWhile isBlank = cs.reverse := by
    rw [← List.head?_reverse] at hlast
    cases h : cs.reverse with
    | nil => rfl
    | cons c rest => simp [hlast c (by simp [h])]
  rw [trimChars, hstart, dropEndWhile, hend, List.reverse_reverse]

theorem trimChars_of_no_blank {cs : List Char} (h : ∀ c ∈ cs, isBlank c = false) :
    trimChars cs = cs :=
  trimChars_of_ends (fun c hc => h c (List.mem_of_mem_head? hc))
    fun c hc => h c (List.mem_of_getLast? hc)

theorem isPrefix_dropEndWhile (p : Char → Bool) (cs : List Char) : dropEndWhile p cs <+: cs := by
  unfold dropEndWhile
  rw [← List.reverse_suffix, List.reverse_reverse]
  exact List.dropWhile_suffix p

theorem isPrefix_trimChars (cs : List Char) : trimChars cs <+: trimStartChars cs :=
  isPrefix_dropEndWhile isBlank (trimStartChars cs)

theorem infix_trimChars (cs : List Char) : trimChars cs <:+: cs :=
  (isPrefix_trimChars cs).isInfix.trans (List.dropWhile_suffix isBlank).isInfix

section Trimmed

variable {cs : List Char} {c : Char}

/-- A trimmed text does not start with a blank. -/
theorem not_isBlank_of_head?_trimChars (h : c ∈ (trimChars cs).head?) : isBlank c = false := by
  obtain ⟨es, hes⟩ := isPrefix_trimChars cs
  have hc : (cs.dropWhile isBlank).head? = some c := by
    rw [show cs.dropWhile isBlank = trimChars cs ++ es from hes.symm, List.head?_append,
      show (trimChars cs).head? = some c from h, Option.some_or]
  have hhead := List.head?_dropWhile_not isBlank cs
  rw [hc] at hhead
  simpa using hhead

/-- A trimmed text does not end with a blank. -/
theorem not_isBlank_of_getLast?_trimChars (h : c ∈ (trimChars cs).getLast?) :
    isBlank c = false := by
  rw [trimChars, dropEndWhile, List.getLast?_reverse] at h
  have hhead := List.head?_dropWhile_not isBlank (trimStartChars cs).reverse
  rw [show (List.dropWhile isBlank (trimStartChars cs).reverse).head? = some c from h] at hhead
  simpa using hhead

theorem trimChars_trimChars (cs : List Char) : trimChars (trimChars cs) = trimChars cs :=
  trimChars_of_ends (fun _ => not_isBlank_of_head?_trimChars) fun _ =>
    not_isBlank_of_getLast?_trimChars

theorem mem_dropWhile {p : Char → Bool} (h : c ∈ cs) (hc : p c = false) : c ∈ cs.dropWhile p := by
  rw [← List.takeWhile_append_dropWhile (p := p) (l := cs), List.mem_append] at h
  rcases h with h | h
  · rw [List.mem_takeWhile_imp h] at hc
    cases hc
  · exact h

theorem mem_dropEndWhile {p : Char → Bool} (h : c ∈ cs) (hc : p c = false) :
    c ∈ dropEndWhile p cs :=
  List.mem_reverse.2 (mem_dropWhile (List.mem_reverse.2 h) hc)

/-- Trimming drops blanks only. -/
theorem mem_trimChars (h : c ∈ cs) (hc : isBlank c = false) : c ∈ trimChars cs :=
  mem_dropEndWhile (mem_dropWhile h hc) hc

theorem trim_dropWhile (cs : List Char) :
    trim (String.ofList (cs.dropWhile isBlank)) = trim (String.ofList cs) := by
  simp only [trim, String.toList_ofList, trimChars, trimStartChars, List.dropWhile_idempotent]

end Trimmed

/-- A text that is not empty, without blanks around it. -/
structure IsTrimmed (s : String) : Prop where
  ne_empty : s ≠ ""
  trim_eq : trim s = s

theorem isTrimmed_trim {cs : List Char} (h : ∃ c ∈ cs, isBlank c = false) :
    IsTrimmed (trim (String.ofList cs)) := by
  obtain ⟨c, hc, hb⟩ := h
  have hmem : c ∈ (trim (String.ofList cs)).toList := by
    rw [trim, String.toList_ofList, String.toList_ofList]
    exact mem_trimChars hc hb
  refine ⟨fun hnil => ?_, ?_⟩
  · rw [hnil] at hmem
    cases hmem
  · rw [trim, trim, String.toList_ofList, trimChars_trimChars]

namespace IsTrimmed

variable {s : String}

theorem toList_ne_nil (h : IsTrimmed s) : s.toList ≠ [] := by
  simpa using h.ne_empty

theorem toList_eq (h : IsTrimmed s) : s.toList = trimChars s.toList := by
  have heq := congrArg String.toList h.trim_eq
  rw [trim, String.toList_ofList] at heq
  exact heq.symm

theorem not_isBlank_head (h : IsTrimmed s) : ∀ c ∈ s.toList.head?, isBlank c = false := by
  rw [h.toList_eq]
  exact fun _ => not_isBlank_of_head?_trimChars

theorem not_isBlank_last (h : IsTrimmed s) : ∀ c ∈ s.toList.getLast?, isBlank c = false := by
  rw [h.toList_eq]
  exact fun _ => not_isBlank_of_getLast?_trimChars

theorem exists_not_isBlank (h : IsTrimmed s) : ∃ c ∈ s.toList, isBlank c = false :=
  ⟨s.toList.head h.toList_ne_nil, List.head_mem _, h.not_isBlank_head _ (List.head?_eq_some_head _)⟩

end IsTrimmed

end WidgetBridge.Text
