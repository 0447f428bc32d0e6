import WidgetBridge.Proofs.Mapping.Colors
import WidgetBridge.Proofs.Mapping.Insets

/-!
# Transforms there and back

Insets and radii of integers come back as they were (`ComesBack`).  For colours and keywords several
values may share one source; they settle after one trip (`Settles`): what comes back is carried to
the same source again. `apply_roundTrip` puts the transforms together.
-/

namespace WidgetBridge.Mapping

open WidgetBridge.Text WidgetBridge.Number Pattern

/-- A value that a transform carries over and back unchanged. -/
def ComesBack (t : Transform) (values : Assoc String) (v : PropValue) : Prop :=
  (do t.apply .backward values (← t.apply .forward values v)) = .ok v

/-- A value that is carried to the same source again after it came back, if it can be carried over
at all. -/
def Settles (t : Transform) (values : Assoc String) (v : PropValue) : Prop :=
  ∀ w, t.apply .forward values v = .ok w →
    (do t.apply .forward values (← t.apply .backward values w)) = .ok w

theorem comesBack_of_apply {t : Transform} {values : Assoc String} {v w : PropValue}
    (hforward : t.apply .forward values v = .ok w) (hback : t.apply .backward values w = .ok v) :
    ComesBack t values v := by
  unfold ComesBack
  rw [hforward]
  exact hback

theorem again_of_apply {t : Transform} {values : Assoc String} {v w : PropValue}
    (hback : t.apply .backward values w = .ok v) (hforward : t.apply .forward values v = .ok w) :
    (do t.apply .forward values (← t.apply .backward values w)) = .ok w := by
  rw [hback]
  exact hforward

/-! ## Insets and radii -/

/-- The literal of some integers. -/
def integers (is : List Int) : PropValue := .literal (.list (is.map .int))

theorem applyInsets_backward_callOne (i : Int) :
    applyInsets .backward (.expr (callOne "EdgeInsets.all(" (showInt i))) =
      .ok (.literal (.int i)) := by
  have hs := toList_callOne "EdgeInsets.all(" (showInt i)
  have hzero : (callOne "EdgeInsets.all(" (showInt i) == "EdgeInsets.zero") = false :=
    beq_eq_false_iff_ne.2 (ne_of_differ hs (by decide))
  have hstrip : stripConst (callOne "EdgeInsets.all(" _) = _ :=
    stripConst_callOne rfl (by decide) (showInt i)
  obtain ⟨m, hm, hone⟩ := oneNumber_matchStart? "EdgeInsets.all(" (isNumeral_showInt i)
  have hm : Form.insetsAll.matchStart? _ = some m := hm
  unfold applyInsets insetsBackward
  simp only [hstrip, hzero, Bool.false_eq_true, if_false, hm, hone, parseNumber_showInt]
  rfl

theorem applyInsets_backward_callFour (left top right bottom : Int) :
    applyInsets .backward
      (.expr (callFour "EdgeInsets.fromLTRB(" (showInt left) (showInt top) (showInt right)
      (showInt bottom))) = .ok (integers [top, right, bottom, left]) := by
  have hs := toList_callFour "EdgeInsets.fromLTRB(" (showInt left) (showInt top) (showInt right)
    (showInt bottom)
  have hzero := beq_eq_false_iff_ne.2 (ne_of_differ hs (t := "EdgeInsets.zero") (by decide))
  have hall : Form.insetsAll.matchStart? _ = none := oneNumber_eq_none hs (by decide)
  have hstrip : stripConst (callFour "EdgeInsets.fromLTRB(" _ _ _ _) = _ :=
    stripConst_callFour rfl (by decide) (showInt left) (showInt top) (showInt right)
      (showInt bottom)
  obtain ⟨m, hm, hone, htwo, hthree, hfour⟩ := fourNumbers_matchStart? "EdgeInsets.fromLTRB("
    (isNumeral_showInt left) (isNumeral_showInt top) (isNumeral_showInt right)
      (isNumeral_showInt bottom)
  have hm : Form.insetsSides.matchStart? _ = some m := hm
  unfold applyInsets insetsBackward
  simp only [hstrip, hzero, Bool.false_eq_true, if_false, hall, hm, hone, htwo, hthree, hfour,
    parseNumber_showInt]
  rfl

theorem applyInsets_backward_axes (vertical horizontal : Int) :
    applyInsets .backward (.expr (symmetric (axes vertical horizontal))) =
      .ok (integers [vertical, horizontal]) := by
  have hnamed : namedNumbers (axes vertical horizontal) =
      .ok [("vertical", .int vertical), ("horizontal", .int horizontal)] :=
    (arguments_axes vertical horizontal).namedNumbers
  exact applyInsets_of_namedNumbers hnamed

theorem applyRadius_backward_callOne (i : Int) :
    applyRadius .backward (.expr (callOne "BorderRadius.circular(" (showInt i))) =
      .ok (.literal (.int i)) := by
  have hstrip : stripConst (callOne "BorderRadius.circular(" _) = _ :=
    stripConst_callOne rfl (by decide) (showInt i)
  have hcircular :=
    ((takes_lit "circular(" _).seq (takes_spaced_first (isNumeral_showInt i) (.inr rfl) [] 1)).seq
    (takes_lit ")" [])
  have hopens : Opens Form.radius _ [] _ :=
    (((opens_textStart _).seq (takes_lit "BorderRadius." _)).seq (hcircular.orElse _)).seq_nil
      takes_textEnd
  have hchars : (callOne "BorderRadius.circular(" (showInt i)).toList =
      [] ++ "BorderRadius.".toList ++
      ("circular(".toList ++ (showInt i).toList ++ ")".toList) ++ [] := by
    simp [toList_callOne]
  have hm := matchStart?_of_opens hchars hopens
  unfold applyRadius
  simp only [hstrip, hm]
  simp [Match.get, Match.group?, List.lookup_cons, parseNumber_showInt]

section Integers

variable (values : Assoc String)

theorem comesBack_inset (i : Int) : ComesBack .edgeInsets values (.literal (.int i)) :=
  comesBack_of_apply (w := .expr (callOne "EdgeInsets.all(" (showInt i))) rfl
    (applyInsets_backward_callOne i)

theorem comesBack_axes (vertical horizontal : Int) :
    ComesBack .edgeInsets values (integers [vertical, horizontal]) := by
  have htext : "EdgeInsets.symmetric(vertical: " ++ showInt vertical ++ ", horizontal: " ++
      showInt horizontal ++ ")" =
      symmetric (axes vertical horizontal) := by
    unfold axes
    rw [← String.toList_inj, toList_symmetric]
    simp
  have hforward : applyInsets .forward (integers [vertical, horizontal]) =
      .ok (.expr (symmetric (axes vertical horizontal))) := by
    rw [← htext]
    rfl
  exact comesBack_of_apply hforward (applyInsets_backward_axes vertical horizontal)

theorem comesBack_sides (top right bottom left : Int) :
    ComesBack .edgeInsets values (integers [top, right, bottom, left]) :=
  comesBack_of_apply
    (w := .expr (callFour "EdgeInsets.fromLTRB(" (showInt left) (showInt top) (showInt right)
    (showInt bottom))) rfl (applyInsets_backward_callFour left top right bottom)

theorem comesBack_radius (i : Int) : ComesBack .borderRadius values (.literal (.int i)) :=
  comesBack_of_apply (w := .expr (callOne "BorderRadius.circular(" (showInt i))) rfl
    (applyRadius_backward_callOne i)

/-! ## Colours -/

theorem settles_color (s : String) : Settles .color values (.literal (.str s)) := by
  intro w hw
  have hw : (do return PropValue.expr (← colorForward (trim s)) : Attempt PropValue) = .ok w := hw
  cases hdart : colorForward (trim s) with
  | error e =>
    rw [hdart] at hw
    cases hw
  | ok dart =>
    rw [hdart] at hw
    cases hw
    obtain ⟨css, hsettled⟩ := settled_of_colorForward hdart
    have hback : applyColor .backward (.expr dart) = .ok (.literal (.str css)) := by
      unfold applyColor
      simp only [hsettled.strip, hsettled.backward]
    have hforward : applyColor .forward (.literal (.str css)) = .ok (.expr dart) := by
      change (do return PropValue.expr (← colorForward (trim css)) : Attempt PropValue) = _
      rw [hsettled.trimmed, hsettled.forward]
      rfl
    exact again_of_apply (t := .color) hback hforward

end Integers

/-! ## Keywords -/

/-- A value table: every keyword has one text, which is trimmed and does not start with `const`. -/
structure IsValueTable (values : Assoc String) : Prop where
  nodup : values.keys.Nodup
  trimmed : ∀ e ∈ values, trim e.2 = e.2
  not_const : ∀ e ∈ values, hasHead e.2 "const " = false

theorem keywordKey_keywordValue (key : String) : keywordKey (keywordValue key) = key := by
  unfold keywordValue
  split <;> rfl

theorem settles_keyword {values : Assoc String} (h : IsValueTable values) (kind : LiteralKind)
    (v : Value) :
    Settles .enum values (.lit kind v) := by
  intro w hw
  have hw : applyKeyword values .forward (.lit kind v) = .ok w := hw
  unfold applyKeyword at hw
  dsimp only at hw
  cases hdart : values.get? (keywordKey v) with
  | none =>
    rw [hdart] at hw
    cases hw
  | some dart =>
    rw [hdart] at hw
    cases hw
    have hmem := Assoc.mem_of_get? hdart
    have hstrip : stripConst dart = dart := by
      unfold stripConst
      simp only [h.trimmed _ hmem, h.not_const _ hmem, Bool.false_eq_true, if_false]
    -- the last keyword with this text
    have hfound : (values.reverse.find? fun e => e.2 == dart).isSome = true := by
      rw [List.find?_isSome]
      exact ⟨_, List.mem_reverse.2 hmem, beq_self_eq_true dart⟩
    obtain ⟨e, he⟩ := Option.isSome_iff_exists.1 hfound
    have hlast : e ∈ values := List.mem_reverse.1 (List.mem_of_find?_eq_some he)
    have htext : e.2 = dart :=
      beq_iff_eq.1 (List.find?_some (p := fun e : String × String => e.2 == dart) he)
    have hback : applyKeyword values .backward (.expr dart) =
        .ok (.literal (keywordValue e.1)) := by
      unfold applyKeyword
      simp only [hstrip, he]
    have hforward : applyKeyword values .forward (.literal (keywordValue e.1)) =
        .ok (.expr dart) := by
      have hget : values.get? e.1 = some dart := Assoc.lookup_of_mem h.nodup (htext ▸ hlast)
      unfold applyKeyword PropValue.literal
      simp only [keywordKey_keywordValue, hget]
    exact again_of_apply (t := .enum) hback hforward

/-! ## All of them -/

/-- Insets of one, two or four integers and radii of an integer come back, colours and keywords
settle. -/
theorem apply_roundTrip {values : Assoc String} (h : IsValueTable values) :
    (∀ i : Int, ComesBack .edgeInsets values (.literal (.int i))) ∧
    (∀ vertical horizontal : Int, ComesBack .edgeInsets values (integers [vertical, horizontal])) ∧
    (∀ top right bottom left : Int, ComesBack .edgeInsets values
      (integers [top, right, bottom, left])) ∧
    (∀ i : Int, ComesBack .borderRadius values (.literal (.int i))) ∧
    (∀ s : String, Settles .color values (.literal (.str s))) ∧
    ∀ (kind : LiteralKind) (v : Value), Settles .enum values (.lit kind v) :=
  ⟨comesBack_inset values, comesBack_axes values, comesBack_sides values, comesBack_radius values,
    settles_color values, settles_keyword h⟩

/-- A table in which two keywords share a text. -/
def axisTable : Assoc String :=
  [("row", "Axis.horizontal"), ("row-reverse", "Axis.horizontal"), ("true", "Axis.vertical")]

theorem isValueTable_axisTable : IsValueTable axisTable where
  nodup := by decide
  trimmed := by decide
  not_const := by decide

theorem apply_roundTrip_axisTable : IsValueTable axisTable ∧
    ComesBack .edgeInsets axisTable (integers [1, -2, 30, 4]) ∧
    Settles .color axisTable (.literal (.str "RGBA( 1,2 , 3, 0.5)")) ∧
    Settles .enum axisTable (.literal (.str "row")) := by
  obtain ⟨-, -, hsides, -, hcolor, hkeyword⟩ := apply_roundTrip isValueTable_axisTable
  exact ⟨isValueTable_axisTable, hsides 1 (-2) 30 4, hcolor _, hkeyword _ _⟩

end WidgetBridge.Mapping
