import WidgetBridge.Motion.Emission
import WidgetBridge.Motion.Wrappers
import WidgetBridge.Proofs.Mapping.Colors
import WidgetBridge.Proofs.WidgetGrammar.Forms

/-!
# The ends of colour tweens

An end of a tween between colours is absent or a colour in hexadecimal notation: `#` and six
lower-case digits, or eight of which the last two are not `ff` (`isEnd`).  `colorText` writes such
an end, and `colorOf` reads it back from the expression (`reads_colorText`).
-/

namespace WidgetBridge.Motion

open WidgetBridge.Text WidgetBridge.Text.Pattern WidgetBridge.WidgetGrammar WidgetBridge.Mapping
  WidgetBridge.Number

/-! ## Colours -/

theorem colorText_cssText {ds : List Char} (h : IsShade ds) :
    colorText (.str (cssText ds)) = shadeText ds := by
  have happly : applyColor .forward (.literal (.str (cssText ds))) =
      .ok (.expr (shadeText ds)) := by
    change (do return PropValue.expr (← colorForward (trim (cssText ds)))) = _
    rw [trim_cssText h, colorForward_cssText h]
    rfl
  rw [colorText, happly]
  nofun

/-- The source of a colour is read as the colour. -/
theorem colorOf_shadeText {ds : List Char} (h : IsShade ds) {e : Expr} (hc : constant? e = none)
    (ht : e.text = shadeText ds) : colorOf (some e) = .str (cssText ds) := by
  have hprop : e.toProp = .expr (shadeText ds) := by rw [Expr.toProp, hc, ht]
  have happly : applyColor .backward (.expr (shadeText ds)) =
      .ok (.literal (.str (cssText ds))) := by
    unfold applyColor
    dsimp only
    rw [stripConst_shadeText, colorBackward?_shadeText h]
  rw [colorOf, hprop, happly]
  rfl

/-! ## Hexadecimal numerals -/

/-- A numeral with a hexadecimal mark. -/
def hexNumeral (hs : List Char) : String := String.ofList ('0' :: 'x' :: hs)

theorem stands_hexNumeral {hs : List Char} (hne : hs ≠ []) (h : ∀ c ∈ hs, isHexDigit c = true) :
    (Word.numeral (hexNumeral hs)).Stands := by
  refine ⟨nofun, ?_, '0', 'x' :: hs, by simp [Word.numeral, hexNumeral], by decide,
    fun rest hr => ?_⟩
  · have hn : '\n' ∉ hs := fun hmem => absurd (h _ hmem) (by decide)
    simpa [Word.numeral, hexNumeral] using hn
  · have hsoft : ∀ d ∈ rest.head?, isHexDigit d = false := fun d hd => by
      have hd : isSoft d = true := by simpa [Word.meets, Word.numeral] using hr d hd
      exact forall_isSoft (p := fun d => isHexDigit d = false) (by decide) hd
    have hlen : numberLength ('0' :: 'x' :: (hs ++ rest)) = some (hs.length + 2) := by
      unfold numberLength
      simp [takeWhile_append_of_all h hsoft, hne]
    rw [List.cons_append, cutLexeme, commentAt?_of_ne (by decide),
      rawMark?_of_ne (by decide) (by decide)]
    simp [hlen, Word.numeral, show isNameStart '0' = false from rfl,
      show isAnyDigit '0' = true from rfl]

theorem single_hexNumeral {hs : List Char} (hne : hs ≠ []) (h : ∀ c ∈ hs, isHexDigit c = true) :
    (Word.numeral (hexNumeral hs)).Single :=
  ⟨stands_hexNumeral hne h, rfl, rfl⟩

theorem reads_hexNumeral {hs : List Char} (hne : hs ≠ []) (h : ∀ c ∈ hs, isHexDigit c = true) :
    Readable (hexNumeral hs) := by
  obtain ⟨i, hi⟩ := Option.isSome_iff_exists.1 (isSome_readHex? (.inl rfl) hne h)
  have hvalue : numeralValue (hexNumeral hs) = .ok (.int i) := by
    have hmark : hasHexMark (hexNumeral hs).toList = true := by simp [hexNumeral, hasHexMark]
    rw [numeralValue, if_pos hmark, hexNumeral, hi]
  have hreads : Reads (hexNumeral hs) fun e => ∃ r, e = .literal r (.int i) :=
    reads_atom (single_hexNumeral hne h) (by simp [Word.numeral]) fun t ht => by
      simp [atom?, ht.kind_eq, ht.text_eq, Word.numeral, hvalue]
  exact hreads.imp fun _ _ => trivial

/-! ## Ends -/

/-- Whether a value is absent or a colour in hexadecimal notation. -/
def isEnd : Value → Bool
  | .null => true
  | .str s =>
    match s.toList with
    | '#' :: ds =>
      ds.all (lowerHex.contains ·) &&
        (ds.length == 6 || (ds.length == 8 && ds.drop 6 != ['f', 'f']))
    | _ => false
  | _ => false

theorem exists_of_isEnd {v : Value} (h : isEnd v = true) :
    v = .null ∨ ∃ ds, IsShade ds ∧ v = .str (cssText ds) := by
  cases v with
  | null => exact .inl rfl
  | str s =>
    refine .inr ?_
    unfold isEnd at h
    dsimp only at h
    split at h
    · next ds hs =>
      simp only [Bool.and_eq_true, Bool.or_eq_true, List.all_eq_true, List.contains_eq_mem,
        decide_eq_true_eq, beq_iff_eq, bne_iff_ne] at h
      exact ⟨ds, ⟨h.1, h.2⟩, by rw [cssText, ← hs, String.ofList_toList]⟩
    · cases h
  | _ => cases h

theorem reads_shadeText {ds : List Char} (h : IsShade ds) :
    Reads (shadeText ds) fun e => colorOf (some e) = .str (cssText ds) := by
  have hhex := isHexDigit_of_mem_raised (mem_opacityFirst h)
  have hne : (opacityFirst ds).map raisedDigit ≠ [] := fun hnil => by
    have hlen := congrArg List.length hnil
    rw [List.length_map, length_opacityFirst h] at hlen
    cases hlen
  have hcolon : ':' ∉ (hexNumeral ((opacityFirst ds).map raisedDigit)).toList := by
    have hnot : ':' ∉ (opacityFirst ds).map raisedDigit :=
      fun hmem => absurd (hhex _ hmem) (by decide)
    simpa [hexNumeral] using hnot
  have hcall : Reads ("Color" ++ "(" ++ hexNumeral ((opacityFirst ds).map raisedDigit) ++ "" ++ ")")
      (IsCall "Color" [(none, fun _ => True)]) :=
    reads_call (by decide) (readsArg_positional (reads_hexNumeral hne hhex) hcolon).listing
      "" (by decide)
  have htext : "Color" ++ "(" ++ hexNumeral ((opacityFirst ds).map raisedDigit) ++ "" ++ ")" =
      shadeText ds := by
    refine String.toList_inj.1 ?_
    simp [shadeText, hexNumeral]
  have hinline : isInline (shadeText ds) = true := by
    have hn : '\n' ∉ (opacityFirst ds).map raisedDigit :=
      fun hmem => absurd (hhex _ hmem) (by decide)
    refine isInline_iff.2 ⟨?_, ?_⟩
    · simpa [toList_shadeText] using hn
    · simp [toList_shadeText]
  rw [htext] at hcall
  refine (hcall.text hinline).imp fun e he => ?_
  obtain ⟨⟨r, args, rfl, -⟩, htext⟩ := he
  exact colorOf_shadeText h rfl htext

/-- The end of a tween is read back from what is written for it. -/
theorem reads_colorText {v : Value} (h : isEnd v = true) :
    Reads (colorText v) fun e => colorOf (some e) = v := by
  rcases exists_of_isEnd h with rfl | ⟨ds, hds, rfl⟩
  · refine reads_null.imp fun e he => ?_
    obtain ⟨r, rfl⟩ := he
    rfl
  · rw [colorText_cssText hds]
    exact reads_shadeText hds

end WidgetBridge.Motion
