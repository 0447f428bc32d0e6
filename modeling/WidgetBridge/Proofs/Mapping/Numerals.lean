import WidgetBridge.Mapping.Transform
import WidgetBridge.Proofs.Number.Numeral
import WidgetBridge.Proofs.Number.Readable
import WidgetBridge.Proofs.Text.Search

/-!
# Numerals in source text

`Pattern.number` takes the numerals (`IsNumeral`): digits of any script with an optional sign and
optional places. Every text that it can take is one (`isNumeral_of_spans`), it takes a numeral as a
whole if neither a digit nor a point follows (`takes_number`), and a numeral can be read
(`IsNumeral.readable`).
-/

namespace WidgetBridge.Mapping

open WidgetBridge.Text WidgetBridge.Number Pattern

/-- A text that can be read as a number. -/
def Parses (s : String) : Prop := ∃ v, parseNumber s = .ok v

/-- A decimal number with an optional sign and optional places. -/
def IsNumeral (cs : List Char) : Prop :=
  ∃ minus whole places, IsMinus minus ∧ IsDigits whole ∧ IsPlaces places ∧
    cs = minus ++ whole ++ places

theorem IsNumeral.not_isBlank {cs : List Char} (h : IsNumeral cs) :
    ∀ c ∈ cs, isBlank c = false := by
  obtain ⟨minus, whole, places, hminus, hwhole, hplaces, rfl⟩ := h
  rw [List.forall_mem_append, List.forall_mem_append]
  exact ⟨⟨hminus.not_isBlank, hwhole.not_isBlank⟩, hplaces.not_isBlank⟩

theorem IsNumeral.exists_isDecimal {cs : List Char} (h : IsNumeral cs) :
    ∃ c ∈ cs, isDecimal c = true := by
  obtain ⟨minus, whole, places, -, hwhole, -, rfl⟩ := h
  obtain ⟨c, ds, rfl⟩ := List.exists_cons_of_ne_nil hwhole.ne_nil
  exact ⟨c, by simp, hwhole.isDecimal c List.mem_cons_self⟩

theorem IsNumeral.ne_nil {cs : List Char} (h : IsNumeral cs) : cs ≠ [] := by
  obtain ⟨c, hc, -⟩ := h.exists_isDecimal
  exact List.ne_nil_of_mem hc

/-! ## Numerals that patterns take -/

theorem isDigits_of_spans {cs : List Char} {gs : Groups} (h : Spans (many1 digit) cs gs) :
    IsDigits cs ∧ gs = [] := by
  obtain ⟨hlen, hall, hgs⟩ := spans_rep_char h
  refine ⟨⟨?_, hall⟩, hgs⟩
  rintro rfl
  simp at hlen

theorem isMinus_of_spans {cs : List Char} {gs : Groups} (h : Spans (opt (lit "-")) cs gs) :
    IsMinus cs ∧ gs = [] := by
  rcases spans_opt h with h | h
  · exact ⟨.inl h.1, h.2⟩
  · obtain ⟨rfl, rfl⟩ := spans_lit h
    exact ⟨.inr rfl, rfl⟩

theorem isPlaces_of_spans {cs : List Char} {gs : Groups}
    (h : Spans (opt (lit "." ++ many1 digit)) cs gs) : IsPlaces cs ∧ gs = [] := by
  rcases spans_opt h with h | h
  · exact ⟨.inl h.1, h.2⟩
  · obtain ⟨ds, es, hs, is, rfl, rfl, hdot, hdigits⟩ := spans_append.1 h
    obtain ⟨rfl, rfl⟩ := spans_lit hdot
    obtain ⟨hes, rfl⟩ := isDigits_of_spans hdigits
    exact ⟨.inr ⟨es, hes, rfl⟩, rfl⟩

theorem isNumeral_of_spans {cs : List Char} {gs : Groups} (h : Spans number cs gs) :
    IsNumeral cs ∧ gs = [] := by
  obtain ⟨as, places, hs, is, rfl, rfl, has, hlast⟩ := spans_append.1 h
  obtain ⟨minus, whole, hs, js, rfl, rfl, hsign, hdigits⟩ := spans_append.1 has
  obtain ⟨hminus, rfl⟩ := isMinus_of_spans hsign
  obtain ⟨hwhole, rfl⟩ := isDigits_of_spans hdigits
  obtain ⟨hplaces, rfl⟩ := isPlaces_of_spans hlast
  exact ⟨⟨minus, whole, places, hminus, hwhole, hplaces, rfl⟩, rfl⟩

/-- What may follow a numeral: neither a digit nor a point. -/
def EndsNumeral (rest : List Char) : Prop := ∀ d ∈ rest.head?, isDecimal d = false ∧ d ≠ '.'

theorem endsNumeral_of_blank {gap rest : List Char} (hgap : ∀ c ∈ gap, isBlank c = true)
    (h : EndsNumeral rest) :
    EndsNumeral (gap ++ rest) := by
  cases gap with
  | nil => exact h
  | cons c cs =>
    rintro d ⟨⟩
    have hc := hgap c List.mem_cons_self
    refine ⟨?_, ?_⟩
    · by_contra hd
      rw [not_isBlank_of_isDecimal (Bool.not_eq_false _ ▸ hd)] at hc
      cases hc
    · rintro rfl
      revert hc
      decide

theorem takes_many1_digit {whole rest : List Char} (hw : IsDigits whole)
    (hrest : ∀ d ∈ rest.head?, isDecimal d = false) : Takes (many1 digit) whole rest [] :=
  takes_many1 hw.ne_nil hw.isDecimal hrest

theorem takes_sign {minus whole : List Char} (hm : IsMinus minus) (hw : IsDigits whole)
    (rest : List Char) :
    Takes (opt (lit "-")) minus (whole ++ rest) [] := by
  rcases hm with rfl | rfl
  · refine takes_opt_nil (refuses_lit ?_)
    obtain ⟨c, cs, rfl⟩ := List.exists_cons_of_ne_nil hw.ne_nil
    have hc := ne_of_isDecimal (hw.isDecimal c List.mem_cons_self) (d := '-') (by decide)
    simp [differ, hc.symm]
  · exact (takes_lit "-" _).opt (List.cons_ne_nil _ _)

theorem takes_number {cs rest : List Char} (h : IsNumeral cs) (hrest : EndsNumeral rest) :
    Takes number cs rest [] := by
  obtain ⟨minus, whole, places, hminus, hwhole, hplaces, rfl⟩ := h
  have hdigits : Takes (many1 digit) whole (places ++ rest) [] := by
    refine takes_many1_digit hwhole fun d hd => ?_
    rcases hplaces with rfl | ⟨digits, -, rfl⟩
    · exact (hrest d hd).1
    · cases hd
      decide
  have hpoint : Takes (opt (lit "." ++ many1 digit)) places rest [] := by
    rcases hplaces with rfl | ⟨digits, hd, rfl⟩
    · refine takes_opt_nil (Refuses.seq ?_ _)
      cases rest with
      | nil => exact refuses_nil_lit (by decide)
      | cons d ds => exact refuses_lit (by simp [differ, (hrest d rfl).2.symm])
    · exact ((takes_lit "." _).seq (takes_many1_digit hd fun d hd => (hrest d hd).1)).opt
        (List.cons_ne_nil _ _)
  exact ((takes_sign hminus hwhole _).seq hdigits).seq hpoint

theorem takes_spaced {gap gap' cs rest : List Char} (hgap : ∀ c ∈ gap, isBlank c = true)
    (h : IsNumeral cs) (hgap' : ∀ c ∈ gap', isBlank c = true) (hrest : EndsNumeral rest)
    (hblank : ∀ d ∈ rest.head?, isBlank d = false) (i : Nat) :
    Takes (Form.spaced i) (gap ++ cs ++ gap') rest [(i, cs)] := by
  have hfirst : ∀ d ∈ (cs ++ (gap' ++ rest)).head?, isBlank d = false := by
    rw [List.head?_append_of_ne_nil _ h.ne_nil]
    exact fun d hd => h.not_isBlank d (List.mem_of_mem_head? hd)
  exact ((takes_many hgap hfirst).seq
    ((takes_number h (endsNumeral_of_blank hgap' hrest)).group i)).seq
    (takes_many hgap' hblank)

section Spaced

variable {c : Char} {cs : List Char} (h : IsNumeral cs) (hc : c = ',' ∨ c = ')')
    (rest : List Char) (i : Nat)

include hc

theorem endsNumeral_stop : EndsNumeral (c :: rest) := by
  rintro d ⟨⟩
  rcases hc with rfl | rfl <;> exact ⟨by decide, by decide⟩

theorem not_isBlank_stop : ∀ d ∈ (c :: rest).head?, isBlank d = false := by
  rintro d ⟨⟩
  rcases hc with rfl | rfl <;> decide

include h

/-- A numeral up to a comma or a bracket. -/
theorem takes_spaced_first : Takes (Form.spaced i) cs (c :: rest) [(i, cs)] := by
  have htakes :=
    takes_spaced (List.forall_mem_nil _) h (List.forall_mem_nil _) (endsNumeral_stop hc rest)
    (not_isBlank_stop hc rest) i
  rwa [List.nil_append, List.append_nil] at htakes

/-- A numeral with a space in front. -/
theorem takes_spaced_next : Takes (Form.spaced i) (' ' :: cs) (c :: rest) [(i, cs)] := by
  have hspace : ∀ c ∈ [' '], isBlank c = true := List.forall_mem_singleton.2 (by decide)
  have htakes := takes_spaced hspace h (List.forall_mem_nil _) (endsNumeral_stop hc rest)
    (not_isBlank_stop hc rest) i
  rwa [List.append_nil] at htakes

end Spaced

/-! ## Reading numerals -/

theorem matchesWhole_integer {minus whole : List Char} (hm : IsMinus minus) (hw : IsDigits whole) :
    matchesWhole (opt "-" ++ many1 digit) (String.ofList (minus ++ whole)) = true := by
  have htakes : Takes (opt (lit "-") ++ many1 digit) (minus ++ whole) [] [] :=
    (takes_sign hm hw []).seq (takes_many1_digit hw nofun)
  rw [← String.toList_ofList (l := minus ++ whole)] at htakes
  exact matchesWhole_of_takes htakes

/-- Every numeral can be read. -/
theorem IsNumeral.readable {cs : List Char} (h : IsNumeral cs) : Parses (String.ofList cs) := by
  obtain ⟨minus, whole, places, hminus, hwhole, hplaces, rfl⟩ := h
  unfold Parses parseNumber
  split_ifs with hint
  · obtain ⟨gs, hspans⟩ := spans_of_matchesWhole hint
    rw [String.toList_ofList] at hspans
    obtain ⟨minus', whole', hs, js, heq, -, hminus', hwhole'⟩ := spans_append.1 hspans
    obtain ⟨i, hi⟩ := Option.isSome_iff_exists.1
      (isSome_readInt? (isMinus_of_spans hminus').1 (isDigits_of_spans hwhole').1)
    rw [heq, hi]
    exact ⟨_, rfl⟩
  · obtain ⟨x, hx⟩ :=
      Option.isSome_iff_exists.1 (isSome_readFloat? hminus hwhole hplaces (.inl rfl))
    rw [List.append_nil, ← List.append_assoc] at hx
    rw [hx]
    exact ⟨_, rfl⟩

theorem isDigits_digitsOf (n : Nat) : IsDigits (digitsOf n) :=
  ⟨digitsOf_ne_nil n, fun _ hc => isDecimal_of_isDigit (isDigit_of_mem_digitsOf hc)⟩

/-- An integer is written as a sign and digits. -/
theorem exists_showInt (i : Int) :
    ∃ minus whole, IsMinus minus ∧ IsDigits whole ∧ showInt i = String.ofList (minus ++ whole) := by
  cases i with
  | ofNat n => exact ⟨[], digitsOf n, .inl rfl, isDigits_digitsOf n, rfl⟩
  | negSucc n => exact ⟨['-'], digitsOf (n + 1), .inr rfl, isDigits_digitsOf (n + 1), rfl⟩

theorem isNumeral_showInt (i : Int) : IsNumeral (showInt i).toList := by
  obtain ⟨minus, whole, hm, hw, hi⟩ := exists_showInt i
  rw [hi, String.toList_ofList]
  exact ⟨minus, whole, [], hm, hw, .inl rfl, by rw [List.append_nil]⟩

theorem parseNumber_showInt (i : Int) : parseNumber (showInt i) = .ok (.int i) := by
  obtain ⟨minus, whole, hm, hw, hi⟩ := exists_showInt i
  have hint : matchesWhole (opt "-" ++ many1 digit) (showInt i) = true :=
    hi ▸ matchesWhole_integer hm hw
  unfold parseNumber
  rw [if_pos hint, readInt?_showInt]

/-- A numeral is its own lower-case form. -/
theorem IsNumeral.flatMap_lowerChar {cs : List Char} (h : IsNumeral cs) :
    cs.flatMap lowerChar = cs := by
  have hsame {ds : List Char} (hds : ∀ c ∈ ds, lowerChar c = [c]) : ds.flatMap lowerChar = ds := by
    rw [List.flatMap_congr hds, List.flatMap_singleton']
  have hdigits {ds : List Char} (hd : IsDigits ds) : ∀ c ∈ ds, lowerChar c = [c] :=
    fun c hc => lowerChar_of_isDecimal (hd.isDecimal c hc)
  obtain ⟨minus, whole, places, hminus, hwhole, hplaces, rfl⟩ := h
  refine hsame (List.forall_mem_append.2 ⟨List.forall_mem_append.2 ⟨?_, hdigits hwhole⟩, ?_⟩)
  · rcases hminus with rfl | rfl
    · exact List.forall_mem_nil _
    · exact List.forall_mem_singleton.2 rfl
  · rcases hplaces with rfl | ⟨digits, hd, rfl⟩
    · exact List.forall_mem_nil _
    · exact List.forall_mem_cons.2 ⟨rfl, hdigits hd⟩

end WidgetBridge.Mapping
