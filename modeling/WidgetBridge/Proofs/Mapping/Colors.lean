import Mathlib.Tactic.IntervalCases
import WidgetBridge.Proofs.Assoc
import WidgetBridge.Proofs.Mapping.Backward
import WidgetBridge.Proofs.Mapping.Calls

/-!
# Colours there and back

A colour becomes a name of the widget side, a number of eight hexadecimal digits, or a call with
four numbers.  Each of these goes back to a component colour that becomes the same source again
(`settled_of_colorForward`): names to the first name of the colour, digits to lower-case digits
without a full opacity (`cssText`), numbers to `rgba(..)`.
-/

namespace WidgetBridge.Mapping

open WidgetBridge.Text WidgetBridge.Number Pattern

/-! ## Hexadecimal digits -/

/-- The hexadecimal digits in lower case. -/
def lowerHex : List Char := "0123456789abcdef".toList

/-- The hexadecimal digits in upper case. -/
def upperHex : List Char := "0123456789ABCDEF".toList

/-- A digit in upper case. -/
def raisedDigit (c : Char) : Char := (upperChar c).headD c

theorem raisedDigit_spec {c : Char} (h : c ∈ lowerHex) :
    upperChar c = [raisedDigit c] ∧ lowerChar (raisedDigit c) = [c] ∧
      isHexDigit (raisedDigit c) = true :=
  forall_mem_of_all (p := fun c => upperChar c = [raisedDigit c] ∧ lowerChar (raisedDigit c) = [c] ∧
    isHexDigit (raisedDigit c) = true) (by decide) c h

theorem isHexDigit_of_mem_lowerHex {c : Char} (h : c ∈ lowerHex) : isHexDigit c = true :=
  forall_mem_of_all (p := fun c => isHexDigit c = true) (by decide) c h

theorem upper_ofList {cs : List Char} (h : ∀ c ∈ cs, c ∈ lowerHex) :
    upper (String.ofList cs) = String.ofList (cs.map raisedDigit) := by
  rw [upper, String.toList_ofList, List.map_eq_flatMap]
  congr 1
  exact List.flatMap_congr fun c hc => (raisedDigit_spec (h c hc)).1

theorem lower_raised {cs : List Char} (h : ∀ c ∈ cs, c ∈ lowerHex) :
    lower (String.ofList (cs.map raisedDigit)) = String.ofList cs := by
  rw [lower, String.toList_ofList, List.flatMap_map]
  congr 1
  induction cs with
  | nil => rfl
  | cons c cs ih =>
    obtain ⟨hc, hcs⟩ := List.forall_mem_cons.1 h
    rw [List.flatMap_cons, (raisedDigit_spec hc).2.1, ih hcs]
    rfl

theorem isHexDigit_of_mem_raised {cs : List Char} (h : ∀ c ∈ cs, c ∈ lowerHex) :
    ∀ d ∈ cs.map raisedDigit, isHexDigit d = true := by
  intro d hd
  obtain ⟨c, hc, rfl⟩ := List.mem_map.1 hd
  exact (raisedDigit_spec (h c hc)).2.2

/-! ## Colours -/

/-- The digits of a colour: red, green and blue, and then the opacity unless it is full. -/
structure IsShade (ds : List Char) : Prop where
  hex : ∀ c ∈ ds, c ∈ lowerHex
  length : ds.length = 6 ∨ (ds.length = 8 ∧ ds.drop 6 ≠ ['f', 'f'])

/-- The digits of a colour with the opacity in front. -/
def opacityFirst (ds : List Char) : List Char :=
  if ds.length = 6 then 'f' :: 'f' :: ds else ds.drop 6 ++ ds.take 6

theorem mem_opacityFirst {ds : List Char} (h : IsShade ds) :
    ∀ c ∈ opacityFirst ds, c ∈ lowerHex := by
  unfold opacityFirst
  split_ifs
  · exact List.forall_mem_cons.2 ⟨by decide, List.forall_mem_cons.2 ⟨by decide, h.hex⟩⟩
  · exact List.forall_mem_append.2 ⟨fun c hc => h.hex c (List.mem_of_mem_drop hc),
      fun c hc => h.hex c (List.mem_of_mem_take hc)⟩

theorem length_opacityFirst {ds : List Char} (h : IsShade ds) : (opacityFirst ds).length = 8 := by
  unfold opacityFirst
  split_ifs with hlen
  · simp [hlen]
  · have hlen := h.length.resolve_left hlen
    simp [hlen.1]

/-- The source of a colour. -/
def shadeText (ds : List Char) : String :=
  "Color(0x" ++ String.ofList ((opacityFirst ds).map raisedDigit) ++ ")"

/-- The digits as they stand on the component side. -/
def cssText (ds : List Char) : String := String.ofList ('#' :: ds)

theorem hexColor_matchStart? {ds : List Char} (h : IsShade ds) :
    ∃ m, Form.hexColor.matchStart? (cssText ds) = some m ∧ m.get 1 = String.ofList ds := by
  have hhex : ∀ c ∈ ds, isHexDigit c = true := fun c hc => isHexDigit_of_mem_lowerHex (h.hex c hc)
  have hnot (n : Nat) (hn : n + 2 ≤ ds.length) : Refuses (group 1 (exactly n hex) ++ textEnd)
      (ds ++ []) := by
    refine ((leaves_exactly isHexDigit n (ds ++ [])).group 1).refuses fun es hes =>
      refuses_textEnd ?_
    rw [List.append_nil] at hes
    omega
  have hall {n : Nat} (hn : ds.length = n) : Takes (exactly n hex) ds ([] ++ []) [] :=
    takes_exactly hhex hn _
  have htakes : Takes (group 1 (exactly 3 hex <|> exactly 6 hex <|> exactly 8 hex) ++ textEnd)
      (ds ++ []) []
      ([] ++ [(1, ds)]) := by
    rw [List.append_nil ds]
    refine takes_group_orElse (hnot 3 (by rcases h.length with h | h <;> omega)) ?_
    rcases h.length with hlen | hlen
    · have hsix := (((hall hlen).orElse fun _ => exactly 8 hex).group 1).seq takes_textEnd
      rwa [List.append_nil] at hsix
    · refine takes_group_orElse (hnot 6 (by omega)) ?_
      have height := ((hall hlen.1).group 1).seq takes_textEnd
      rwa [List.append_nil] at height
  have hopens := ((opens_textStart _).seq (takes_lit "#" (ds ++ [] ++ []))).seq htakes
  have hchars : (cssText ds).toList = [] ++ "#".toList ++ (ds ++ []) ++ [] := by simp [cssText]
  exact ⟨_, matchStart?_of_opens hchars hopens, by simp [Match.get, Match.group?]⟩

theorem dartColor_matchStart? {ds : List Char} (h : IsShade ds) :
    ∃ m, Form.dartColor.matchStart? (shadeText ds) = some m ∧
      m.get 1 = String.ofList ((opacityFirst ds).map raisedDigit) := by
  set hs := (opacityFirst ds).map raisedDigit with hhs
  have hhex : ∀ d ∈ hs, isHexDigit d = true := isHexDigit_of_mem_raised (mem_opacityFirst h)
  have hlen : hs.length = 8 := by rw [hhs, List.length_map, length_opacityFirst h]
  have hclose := takes_lit ")" []
  have hgap₂ : Takes blanks [] (")".toList ++ []) [] := takes_blanks_nil (by simp; decide)
  have hdigits : Takes (group 1 (exactly 8 hex)) hs (")".toList ++ []) [(1, hs)] :=
    (takes_exactly hhex hlen _).group 1
  have hmark := takes_lit "0x" (hs ++ (")".toList ++ []))
  have hgap₁ : Takes blanks [] ("0x".toList ++ (hs ++ (")".toList ++ []))) [] :=
    takes_blanks_nil (by simp; decide)
  have hhead :=
    (opens_textStart _).seq (takes_lit "Color(" ("0x".toList ++ (hs ++ (")".toList ++ []))))
  have hopens :=
    (((((hhead.seq_nil hgap₁).seq hmark).seq hdigits).seq_nil hgap₂).seq hclose).seq_nil
    takes_textEnd
  have hchars : (shadeText ds).toList = [] ++ "Color(".toList ++ "0x".toList ++ hs ++
      ")".toList ++ [] := by
    simp [shadeText, ← hhs]
  exact ⟨_, matchStart?_of_opens hchars hopens, by simp [Match.get, Match.group?]⟩

theorem lower_cssText_not_named (ds : List Char) :
    namedColors.get? (lower (cssText ds)) = none := by
  refine Assoc.lookup_eq_none_of_not_mem fun hmem => ?_
  have hnames : ∀ name ∈ namedColors.keys, differ name.toList ['#'] = true := by decide
  have hlower : (lower (cssText ds)).toList = ['#'] ++ ds.flatMap lowerChar := by
    simp [lower, cssText, show lowerChar '#' = ['#'] from rfl]
  refine append_ne_of_differ (hnames _ hmem) [] (ds.flatMap lowerChar) ?_
  rw [List.append_nil, hlower]

theorem trim_cssText {ds : List Char} (h : IsShade ds) : trim (cssText ds) = cssText ds := by
  have hblank : ∀ c ∈ '#' :: ds, isBlank c = false := List.forall_mem_cons.2 ⟨by decide, fun c hc =>
    not_isBlank_of_isNameChar (isNameChar_of_isHexDigit (isHexDigit_of_mem_lowerHex (h.hex c hc)))⟩
  rw [trim, cssText, String.toList_ofList, trimChars_of_no_blank hblank]

/-- The opacity goes to the front. -/
theorem shadeText_eq (ds : List Char) :
    let digits := String.ofList (ds.map raisedDigit)
    "Color(0x" ++ (if digits.length == 6 then "FF" ++ digits else drop digits 6 ++ take digits 6) ++
      ")" = shadeText ds := by
  have hlen : (String.ofList (ds.map raisedDigit)).length = ds.length := by
    rw [String.length_ofList, List.length_map]
  dsimp only
  rw [shadeText, opacityFirst, hlen]
  simp only [beq_iff_eq]
  split_ifs
  · refine String.toList_inj.1 ?_
    simp [show raisedDigit 'f' = 'F' from rfl]
  · refine String.toList_inj.1 ?_
    simp [drop, take]

theorem colorForward_cssText {ds : List Char} (h : IsShade ds) :
    colorForward (cssText ds) = .ok (shadeText ds) := by
  obtain ⟨m, hm, hdigits⟩ := hexColor_matchStart? h
  have hlen : (upper (String.ofList ds)).length = ds.length := by
    rw [upper_ofList h.hex, String.length_ofList, List.length_map]
  have hthree : ds.length ≠ 3 := by rcases h.length with h | h <;> omega
  unfold colorForward
  simp only [lower_cssText_not_named, hm, hdigits, hlen, beq_iff_eq, if_neg hthree]
  rw [← shadeText_eq, upper_ofList h.hex, ← hlen, upper_ofList h.hex]
  simp only [beq_iff_eq]

theorem toList_shadeText (ds : List Char) : (shadeText ds).toList =
    "Color(".toList ++ ("0x".toList ++ ((opacityFirst ds).map raisedDigit ++ [')'])) := by
  simp [shadeText]

theorem colorName?_shadeText (ds : List Char) : colorName? (shadeText ds) = none := by
  have hnames : ∀ e ∈ namedColors, differ e.2.toList "Color(".toList = true := by decide
  rw [colorName?, Option.map_eq_none_iff, List.find?_eq_none]
  intro e he heq
  rw [beq_iff_eq] at heq
  have hchars := toList_shadeText ds
  rw [← heq, ← List.append_nil e.2.toList] at hchars
  exact append_ne_of_differ (hnames e he) _ _ hchars

theorem stripConst_shadeText (ds : List Char) : stripConst (shadeText ds) = shadeText ds := by
  refine stripConst_eq_self (c := 'C') ?_ (getLast?_close _) (by decide)
  rw [toList_shadeText]
  rfl

theorem colorBackward?_shadeText {ds : List Char} (h : IsShade ds) :
    colorBackward? (shadeText ds) = some (cssText ds) := by
  obtain ⟨m, hm, hdigits⟩ := dartColor_matchStart? h
  unfold colorBackward?
  simp only [colorName?_shadeText, hm, hdigits, lower_raised (mem_opacityFirst h)]
  rw [cssText, opacityFirst]
  split_ifs with hsix hfull hfull
  · refine congrArg some (String.toList_inj.1 ?_)
    simp [drop]
  · exact absurd (by simp [take]) hfull
  · have hlen := h.length.resolve_left hsix
    rw [beq_iff_eq, take, String.toList_ofList] at hfull
    have hfull := congrArg String.toList hfull
    rw [String.toList_ofList, List.take_left' (by simp [hlen.1])] at hfull
    exact absurd hfull hlen.2
  · have hlen := h.length.resolve_left hsix
    refine congrArg some (String.toList_inj.1 ?_)
    simp [drop, take, hlen.1, List.take_append_drop]

/-! ## Digits in either case -/

theorem mem_hexDigits {c : Char} (h : isHexDigit c = true) : c ∈ lowerHex ++ upperHex := by
  have hcode : (48 ≤ c.toNat ∧ c.toNat ≤ 57) ∨ (97 ≤ c.toNat ∧ c.toNat ≤ 102) ∨
      (65 ≤ c.toNat ∧ c.toNat ≤ 70) := by
    simpa [isHexDigit, isDigit_iff, Char.le_def, UInt32.le_iff_toNat_le, or_assoc] using h
  have hmem (n : Nat) (hn : (48 ≤ n ∧ n ≤ 57) ∨ (97 ≤ n ∧ n ≤ 102) ∨ (65 ≤ n ∧ n ≤ 70)) :
      Char.ofNat n ∈ lowerHex ++ upperHex := by
    rcases hn with hn | hn | hn <;> obtain ⟨hlow, hhigh⟩ := hn <;> interval_cases n <;> decide
  rw [← Char.ofNat_toNat c]
  exact hmem c.toNat hcode

/-- A digit in lower case. -/
def loweredDigit (c : Char) : Char := (lowerChar c).headD c

theorem loweredDigit_spec {c : Char} (h : isHexDigit c = true) :
    loweredDigit c ∈ lowerHex ∧ upperChar c = [raisedDigit (loweredDigit c)] :=
  forall_mem_of_all
    (p := fun c => loweredDigit c ∈ lowerHex ∧ upperChar c = [raisedDigit (loweredDigit c)])
    (by decide) c (mem_hexDigits h)

theorem upper_hexDigits {cs : List Char} (h : ∀ c ∈ cs, isHexDigit c = true) :
    upper (String.ofList cs) = String.ofList ((cs.map loweredDigit).map raisedDigit) := by
  rw [upper, String.toList_ofList, List.map_map, List.map_eq_flatMap]
  congr 1
  exact List.flatMap_congr fun c hc => (loweredDigit_spec (h c hc)).2

/-- The digits of a colour without a full opacity. -/
def shadeOf (ds : List Char) : List Char := if ds.drop 6 = ['f', 'f'] then ds.take 6 else ds

theorem isShade_shadeOf {ds : List Char} (h : ∀ c ∈ ds, c ∈ lowerHex)
    (hlen : ds.length = 6 ∨ ds.length = 8) :
    IsShade (shadeOf ds) := by
  unfold shadeOf
  split_ifs with hfull
  · refine ⟨fun c hc => h c (List.mem_of_mem_take hc), .inl ?_⟩
    rw [List.length_take]
    omega
  · exact ⟨h, hlen.imp_right fun h => ⟨h, hfull⟩⟩

theorem shadeText_shadeOf {ds : List Char} (hlen : ds.length = 6 ∨ ds.length = 8) :
    shadeText (shadeOf ds) = shadeText ds := by
  have hfirst : opacityFirst (shadeOf ds) = opacityFirst ds := by
    unfold shadeOf
    split_ifs with hfull
    · have hlen : ds.length = 8 := by
        rcases hlen with hlen | hlen
        · rw [List.drop_of_length_le (by omega)] at hfull
          cases hfull
        · exact hlen
      simp [opacityFirst, hlen, hfull]
    · rfl
  rw [shadeText, shadeText, hfirst]

theorem hexColor_digits {s : String} {m : Match} (h : Form.hexColor.matchStart? s = some m) :
    ∃ ds, m.get 1 = String.ofList ds ∧ (∀ c ∈ ds, isHexDigit c = true) ∧
      (ds.length = 3 ∨ ds.length = 6 ∨ ds.length = 8) := by
  obtain ⟨_, _, _, _, -, hgroups, hbody, hend⟩ := spans_of_matchStart? h
  obtain ⟨-, rfl⟩ := hend
  obtain ⟨_, ds, _, _, -, rfl, hmark, hs, rfl, hdigits⟩ := hbody
  have hget : m.get 1 = String.ofList ds := by
    simp [Match.get, Match.group?, hgroups]
  refine ⟨ds, hget, ?_⟩
  rcases hdigits with hdigits | hdigits | hdigits
  · obtain ⟨hlen, hall, -⟩ := spans_exactly_char hdigits
    exact ⟨hall, .inl hlen⟩
  · obtain ⟨hlen, hall, -⟩ := spans_exactly_char hdigits
    exact ⟨hall, .inr (.inl hlen)⟩
  · obtain ⟨hlen, hall, -⟩ := spans_exactly_char hdigits
    exact ⟨hall, .inr (.inr hlen)⟩

/-! ## Colours that stay -/

/-- A source and a component colour that become each other. -/
structure Settled (dart css : String) : Prop where
  strip : stripConst dart = dart
  backward : colorBackward? dart = some css
  trimmed : trim css = css
  forward : colorForward css = .ok dart

theorem IsShade.settled {ds : List Char} (h : IsShade ds) :
    Settled (shadeText ds) (cssText ds) where
  strip := stripConst_shadeText ds
  backward := colorBackward?_shadeText h
  trimmed := trim_cssText h
  forward := colorForward_cssText h

/-- Three digits are doubled. -/
theorem settled_digits {ds : List Char} (h : ∀ c ∈ ds, isHexDigit c = true)
    (hlen : ds.length = 3 ∨ ds.length = 6 ∨ ds.length = 8) :
    let digits := upper (String.ofList ds)
    let digits := if digits.length == 3 then doubled digits else digits
    ∃ css, Settled
      ("Color(0x" ++ (if digits.length == 6 then "FF" ++ digits
        else drop digits 6 ++ take digits 6) ++ ")") css := by
  have hlower : ∀ c ∈ ds.map loweredDigit, c ∈ lowerHex :=
    List.forall_mem_map.2 fun c hc => (loweredDigit_spec (h c hc)).1
  have key {es : List Char} (hes : ∀ c ∈ es, c ∈ lowerHex) (hlen : es.length = 6 ∨ es.length = 8) :
      ∃ css, Settled (shadeText es) css :=
    ⟨_, shadeText_shadeOf hlen ▸ (isShade_shadeOf hes hlen).settled⟩
  dsimp only
  rw [upper_hexDigits h, String.length_ofList, List.length_map, List.length_map]
  by_cases hthree : ds.length = 3
  · have hdoubled : doubled (String.ofList ((ds.map loweredDigit).map raisedDigit)) =
        String.ofList (((ds.map loweredDigit).flatMap fun c => [c, c]).map raisedDigit) := by
      rw [doubled, String.toList_ofList, List.flatMap_map, List.map_flatMap]
      rfl
    simp only [hthree, beq_self_eq_true, if_true, hdoubled]
    rw [shadeText_eq]
    refine key ?_ (.inl ?_)
    · intro c hc
      obtain ⟨d, hd, hc⟩ := List.mem_flatMap.1 hc
      obtain rfl : c = d := by simpa using hc
      exact hlower _ hd
    · obtain ⟨a, b, c, rfl⟩ := List.length_eq_three.1 hthree
      rfl
  · have hne : (ds.length == 3) = false := by simpa using hthree
    simp only [hne, Bool.false_eq_true, if_false]
    rw [shadeText_eq]
    refine key hlower ?_
    rw [List.length_map]
    exact hlen.resolve_left hthree

theorem settled_named {e : String × String} (h : e ∈ namedColors) : ∃ css, Settled e.2 css := by
  have hnames : ∀ e ∈ namedColors, ∃ css ∈ namedColors.keys, colorName? e.2 = some css ∧
      namedColors.get? (lower css) = some e.2 ∧ trim css = css ∧ stripConst e.2 = e.2 := by
        decide +kernel
  obtain ⟨css, -, hname, hget, htrim, hstrip⟩ := hnames e h
  refine ⟨css, hstrip, ?_, htrim, ?_⟩
  · rw [colorBackward?, hname]
  · unfold colorForward
    simp only [hget]

/-! ## Colours of numbers -/

section Numbers

variable {a b c d : String} (ha : IsNumeral a.toList) (hb : IsNumeral b.toList)
    (hc : IsNumeral c.toList)
  (hd : IsNumeral d.toList)

include ha hb hc hd

theorem lower_callFour : lower (callFour "rgba(" a b c d) = callFour "rgba(" a b c d := by
  refine String.toList_inj.1 ?_
  rw [lower, String.toList_ofList, toList_callFour]
  simp only [List.flatMap_append, List.flatMap_cons, ha.flatMap_lowerChar, hb.flatMap_lowerChar,
    hc.flatMap_lowerChar, hd.flatMap_lowerChar]
  rfl

theorem rgba_matchStart? : ∃ m, Form.rgba.matchStart? (callFour "rgba(" a b c d) = some m ∧
    m.get 1 = a ∧ m.get 2 = b ∧ m.get 3 = c ∧ m.group? 4 = some d := by
  have hmark : Takes (opt (lit "a")) "a".toList
      ("(".toList ++ (a.toList ++ (",".toList ++ (' ' :: b.toList ++
      (",".toList ++ (' ' :: c.toList ++ (",".toList ++ ' ' :: d.toList ++ (")".toList ++ []))))))))
        [] :=
    (takes_lit "a" _).opt (List.cons_ne_nil _ _)
  have hhead := ((opens_textStart _).seq (takes_lit "rgb" _)).seq hmark
  have hfirst := (hhead.seq (takes_lit "(" _)).seq (takes_spaced_first ha (.inl rfl) _ 1)
  have hsecond := (hfirst.seq (takes_lit "," _)).seq (takes_spaced_next hb (.inl rfl) _ 2)
  have hthird := (hsecond.seq (takes_lit "," _)).seq (takes_spaced_next hc (.inl rfl) _ 3)
  have hfourth : Takes (opt (Form.comma ++ Form.spaced 4)) (",".toList ++ ' ' :: d.toList)
      (")".toList ++ []) _ :=
    ((takes_lit "," _).seq (takes_spaced_next hd (.inr rfl) _ 4)).opt (List.cons_ne_nil _ _)
  have hopens := ((hthird.seq hfourth).seq (takes_lit ")" [])).seq_nil takes_textEnd
  refine ⟨_, matchStart?_of_opens (by simp [toList_callFour]) hopens, ?_⟩
  simp [Match.get, Match.group?, List.lookup_cons]

/-- A colour of numbers and the call that is written for it. -/
theorem settled_numbers :
    Settled (callFour "Color.fromRGBO(" a b c d) (callFour "rgba(" a b c d) := by
  have hdart := toList_callFour "Color.fromRGBO(" a b c d
  have hcss := toList_callFour "rgba(" a b c d
  refine ⟨stripConst_callFour rfl (by decide) a b c d, ?_, ?_, ?_⟩
  · have hname : colorName? (callFour "Color.fromRGBO(" a b c d) = none := by
      have hnames : ∀ e ∈ namedColors, differ e.2.toList "Color.fromRGBO(".toList = true := by
        decide
      rw [colorName?, Option.map_eq_none_iff, List.find?_eq_none]
      intro e he heq
      exact ne_of_differ hdart (hnames e he) (beq_iff_eq.1 heq).symm
    have hhex : Form.dartColor.matchStart? (callFour "Color.fromRGBO(" a b c d) = none := by
      have hrefuses : Refuses (textStart ++ "Color(") _ := refuses_head hdart (by decide)
      exact matchAt?_of_refuses ((((((hrefuses.seq _).seq _).seq _).seq _).seq _).seq _) [] 0
    obtain ⟨m, hm, rfl, rfl, rfl, rfl⟩ := fourNumbers_matchStart? "Color.fromRGBO(" ha hb hc hd
    have hm : Form.dartRgbo.matchStart? _ = some m := hm
    unfold colorBackward?
    simp only [hname, hhex, hm]
    rfl
  · refine trim_eq_self (c := 'r') ?_ (getLast?_close _) (by decide)
    rw [hcss, List.head?_append]
    rfl
  · have hnamed : namedColors.get? (callFour "rgba(" a b c d) = none := by
      have hnames : ∀ name ∈ namedColors.keys, differ name.toList "rgba(".toList = true := by decide
      exact Assoc.lookup_eq_none_of_not_mem fun hmem => ne_of_differ hcss (hnames _ hmem) rfl
    have hhex : Form.hexColor.matchStart? (callFour "rgba(" a b c d) = none := by
      have hrefuses : Refuses (textStart ++ "#") _ := refuses_head hcss (by decide)
      exact matchAt?_of_refuses ((hrefuses.seq _).seq _) [] 0
    have hlower := lower_callFour ha hb hc hd
    obtain ⟨m, hm, hone, htwo, hthree, hfour⟩ := rgba_matchStart? ha hb hc hd
    unfold colorForward
    simp only [hlower, hnamed, hhex, hm, hone, htwo, hthree, hfour, Option.getD_some]
    rfl

end Numbers

theorem keepsNumber_rgba {i : Nat} (hi : i ∈ [1, 2, 3]) : KeepsNumber i Form.rgba := by
  simp only [List.mem_cons, List.not_mem_nil, or_false] at hi
  unfold Form.rgba
  rcases hi with rfl | rfl | rfl
  all_goals
    repeat'
      first
      | exact keepsNumber_spaced _
      | apply KeepsNumber.left _ (by decide)
      | apply KeepsNumber.right

/-- The fourth number is missing or a numeral. -/
theorem rgba_opacity {s : String} {m : Match} (h : Form.rgba.matchStart? s = some m) :
    IsNumeral ((m.group? 4).getD "1.0").toList := by
  have hdefault : IsNumeral "1.0".toList :=
    ⟨[], ['1'], ['.', '0'], .inl rfl,
    ⟨List.cons_ne_nil _ _, List.forall_mem_singleton.2 (by decide)⟩,
    .inr ⟨['0'], ⟨List.cons_ne_nil _ _, List.forall_mem_singleton.2 (by decide)⟩, rfl⟩, rfl⟩
  obtain ⟨_, _, _, _, -, hgroups, h, hend⟩ := spans_of_matchStart? h
  obtain ⟨_, _, _, _, -, rfl, h, hclose⟩ := h
  obtain ⟨_, _, _, _, -, rfl, hcolor, hopacity⟩ := h
  obtain ⟨-, rfl⟩ := hend
  obtain ⟨-, rfl⟩ := spans_lit hclose
  unfold Match.group?
  rw [hgroups, List.nil_append, List.nil_append, List.lookup_append,
    lookup_eq_none_of_spans hcolor (by decide), Option.or_none]
  rcases spans_opt hopacity with ⟨-, rfl⟩ | hfour
  · exact hdefault
  · obtain ⟨ds, hlookup, hnum⟩ := (keepsNumber_spaced 4).right Form.comma _ _ hfour
    rw [hlookup]
    simpa using hnum

/-- Every colour that can be carried over is settled after one trip. -/
theorem settled_of_colorForward {s dart : String} (h : colorForward s = .ok dart) :
    ∃ css, Settled dart css := by
  unfold colorForward at h
  dsimp only at h
  split at h
  · next e he =>
    cases h
    exact settled_named (Assoc.mem_of_get? he)
  · split at h
    · next m hm =>
      cases h
      obtain ⟨ds, hds, hhex, hlen⟩ := hexColor_digits hm
      rw [hds]
      exact settled_digits hhex hlen
    · split at h
      · next m hm =>
        cases h
        have hspans := spans_of_matchStart? hm
        have hnum {i : Nat} (hi : i ∈ [1, 2, 3]) := (keepsNumber_rgba hi).isNumeral hspans
        exact ⟨_, settled_numbers (hnum (i := 1) (by decide)) (hnum (i := 2) (by decide))
          (hnum (i := 3) (by decide))
          (rgba_opacity hm)⟩
      · cases h

end WidgetBridge.Mapping
