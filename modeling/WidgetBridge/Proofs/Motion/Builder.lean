import WidgetBridge.Proofs.Motion.Colors
import WidgetBridge.Proofs.Route.Page
import WidgetBridge.Proofs.WidgetGrammar.Arguments
import WidgetBridge.Proofs.Writing.Verbatim

/-!
# Builders of colour tweens

A tween between colours is written as a builder around a child (`builderText`).  `passage_builder`
reads the builder, whatever the child is, as a call with known arguments, and `add_builder` gathers
the tween and the timing from such a call.
-/

namespace WidgetBridge.Motion

open WidgetBridge.Text WidgetBridge.Text.Pattern WidgetBridge.WidgetGrammar
open WidgetBridge.Route (readable_call phrase_named durationText reads_duration milliseconds_search)

/-! ## Tweens and timing -/

/-- A tween between colours, without keyframes. -/
structure IsColorTween (t : Tween) : Prop where
  property : t.property = "backgroundColor" ∨ t.property = "color"
  start : isEnd t.start = true
  finish : isEnd t.finish = true
  keyframes : t.keyframes = []

/-- A timing without delay whose curve has a name on both sides. -/
structure IsSteady (s : Spec) : Prop where
  duration : 0 ≤ s.duration
  delay : s.delay = 0
  easing : s.easing ∈ easings.keys

/-- The source of a tween. -/
def tweenText (t : Tween) : String :=
  "ColorTween" ++ "(" ++ join ", " ["begin" ++ ": " ++ colorText t.start,
  "end" ++ ": " ++ colorText t.finish] ++
    ")"

/-- A call whose arguments are the ends of a tween. -/
def IsTween (t : Tween) : Expr → Prop :=
  IsCall "ColorTween" [(some "begin", fun e => colorOf (some e) = t.start),
    (some "end", fun e => colorOf (some e) = t.finish)]

theorem reads_tweenText {t : Tween} (h : IsColorTween t) : Reads (tweenText t) (IsTween t) := by
  have hargs : List.Forall₂ Phrase
      ["begin" ++ ": " ++ colorText t.start, "end" ++ ": " ++ colorText t.finish]
      ([(some "begin", fun e => colorOf (some e) = t.start),
        (some "end", fun e => colorOf (some e) = t.finish)].map ReadsArg) :=
    .cons (readsArg_named (reads_colorText h.start) (by decide))
      (.cons (readsArg_named (reads_colorText h.finish) (by decide)) .nil)
  have hcall : Reads (_ ++ "" ++ ")") (IsTween t) :=
    reads_call (by decide) (listing_inline hargs) "" (by decide)
  rwa [String.append_empty] at hcall

/-! ## Carriers -/

/-- A closure that gives a call in which a carrier holds the animated value. -/
def Carries (c : Carrier) (e : Expr) : Prop :=
  ∃ r params r' typeArgs body comments held,
    e = .closure r params (some (.call r' c.callee typeArgs body comments)) none ∧
      params[1]? = some "value" ∧
      Expr.named? body c.argument = some held ∧ c.inner? held.text = some "value"

/-- The parameters of a builder. -/
def builderParams : List Piece :=
  [.word "" (.name "context"), .word "" comma, .word " " (.name "value"), .word "" comma,
    .word " " (.name "child")]

theorem paramNames_builderParams {ts : List TokenTree} (h : Matches ts builderParams)
    (follow : Option Token) :
    paramNames ⟨ts, follow⟩ = ["context", "value", "child"] := by
  obtain ⟨a, _, rfl, ha, hu₁⟩ := matches_word_cons.1 h
  obtain ⟨b, _, rfl, hb, hu₂⟩ := matches_word_cons.1 hu₁.matches
  obtain ⟨c, _, rfl, hc, hu₃⟩ := matches_word_cons.1 hu₂.matches
  obtain ⟨d, _, rfl, hd, hu₄⟩ := matches_word_cons.1 hu₃.matches
  obtain ⟨e, _, rfl, he, hu₅⟩ := matches_word_cons.1 hu₄.matches
  rw [showsAll_nil] at hu₅
  subst hu₅
  have hac : a.isPunct "," = false := ha.isPunct_eq ","
  have hbc : b.isPunct "," = true := hb.isPunct_eq ","
  have hcc : c.isPunct "," = false := hc.isPunct_eq ","
  have hdc : d.isPunct "," = true := hd.isPunct_eq ","
  have hec : e.isPunct "," = false := he.isPunct_eq ","
  simp [paramNames, Range.splitTop, Range.splitFrom, Range.tokens, TokenTree.tokensOf,
    TokenTree.tokens, hac, hbc, hcc, hdc, hec, ha.isIdent_eq, hc.isIdent_eq, he.isIdent_eq,
    ha.text_eq, hc.text_eq, he.text_eq, Word.name]

/-- The closure of a builder. -/
def builderClosure (body : String) : String := closureHead "context, value, child" ++ (" " ++ body)

theorem reads_builderClosure {body : String} {P : Expr → Prop} (h : Reads body P) :
    Reads (builderClosure body) fun e => ∃ r params b, e = .closure r params (some b) none ∧
      params[1]? = some "value" ∧ P b := by
  have hchars : "context, value, child".toList = spellAll builderParams := by decide
  have hclosure :=
    reads_closureWith hchars (soundAll_of_plainAll (by decide)) (by decide) h (g := " ")
    (by decide) (by decide) (N := fun params => params[1]? = some "value")
    fun ts hts follow => by rw [paramNames_builderParams hts]; rfl
  refine hclosure.imp fun e he => ?_
  obtain ⟨r, params, b, gap, rfl, hparams, hb, -⟩ := he
  exact ⟨r, params, b, rfl, hparams, hb⟩

/-- A call in which a carrier holds the animated value. -/
def Holds (c : Carrier) (b : Expr) : Prop :=
  ∃ r typeArgs body comments held, b = .call r c.callee typeArgs body comments ∧
    Expr.named? body c.argument = some held ∧ c.inner? held.text = some "value"

/-- The source in which a carrier holds the animated value. -/
def holderText (c : Carrier) : String :=
  c.callee ++
    ("(" ++ join ", " [c.argument ++ ": " ++ (c.before ++ "value" ++ c.after),
    "child" ++ ": " ++ "child"] ++
    "" ++ ")")

/-- The carrier of a background. -/
def backgroundCarrier : Carrier :=
  ⟨"backgroundColor", "ColoredBox", "color", "", " ?? Colors.transparent"⟩

/-- The carrier of a foreground. -/
def foregroundCarrier : Carrier :=
  ⟨"color", "DefaultTextStyle.merge", "style", "TextStyle(color: ", ")"⟩

theorem holds_of_calls {c : Carrier} {e : Expr}
    (h : Calls c.callee
      [(some c.argument, fun e => c.inner? e.text = some "value"), (some "child", fun _ => True)] []
      e) : Holds c e := by
  obtain ⟨r, typeArgs, args, rfl, hargs, -⟩ := h
  obtain ⟨held, hnamed, hheld, -⟩ := named?_of_meet hargs c.argument (by simp; rfl)
  exact ⟨r, typeArgs, args, [], held, rfl, hnamed, hheld⟩

/-- Whether an outline is that of an operation on a name. -/
def isOperation (ps : List Piece) : Bool :=
  lacks "," ps && match ps with
    | .word _ n :: .word _ m :: _ =>
      n.kind == .ident && isCallable n.text && m.kind == .punct && m.text != "." && m.text != "<"
    | _ => false

theorem readable_operation {cs : List Char} (h : isTemplate isOperation cs = true) :
    Readable (String.ofList cs) := by
  obtain ⟨ps, hps, hsound, htest⟩ := exists_outline h
  unfold isOperation at htest
  rw [Bool.and_eq_true] at htest
  obtain ⟨hl, htest⟩ := htest
  split at htest
  · next g n g' m ps =>
    simp only [Bool.and_eq_true, beq_iff_eq, bne_iff_ne] at htest
    obtain ⟨⟨⟨⟨hnk, hn⟩, hmk⟩, hdot⟩, hless⟩ := htest
    obtain ⟨hname, hconst⟩ := isCallable_iff.1 hn
    refine ⟨_, ⟨hps, hsound, List.cons_ne_nil _ _⟩, hl, fun ts hts follow fuel hf => ?_⟩
    obtain ⟨t, us, rfl, ht, hu⟩ := matches_word_cons.1 hts
    obtain ⟨u, vs, rfl, hm, hv⟩ := matches_word_cons.1 hu.matches
    simp only [TokenTree.sizeOf', TokenTree.size] at hf
    obtain ⟨fuel, rfl⟩ : ∃ n, fuel = n + 2 := ⟨fuel - 2, by omega⟩
    have hudot : u.isPunct "." = false := by simp [hm.isPunct_eq, Word.isPunct, hdot]
    have htokens : literalTokens? (.leaf t :: .leaf u :: vs) = none := by
      simp [literalTokens?, ht.kind_eq, hnk]
    have hminus : t.text ≠ "-" := by
      rw [ht.text_eq]
      rintro heq
      rw [heq] at hname
      revert hname
      decide
    have hatom : atom? (.leaf t :: .leaf u :: vs) = none := by
      cases vs with
      | nil => simp [atom?, hminus]
      | cons v vs => rfl
    have hhead : callHead? (.leaf t :: .leaf u :: vs) = none := by
      have hnames : dottedName (.leaf u :: vs) = ([], .leaf u :: vs) := by
        cases vs with
        | nil => rfl
        | cons v vs => cases v <;> simp [dottedName, hudot]
      have hangle : startsAngle (.leaf u :: vs) = false := by simp [startsAngle, hm.text_eq, hless]
      simp only [callHead?, hnames, hangle, Bool.false_eq_true, if_false]
      split_ifs <;> rfl
    have hshape : shapeOf (.leaf t :: .leaf u :: vs) = .other := by
      have hangle : startsAngle (.leaf t :: .leaf u :: vs) = false := by
        simp [startsAngle, ht.text_eq, ne_angle_of_isName hname]
      simp [shapeOf, hangle, collection?, openShape, callShape, hhead]
    refine ⟨.other ⟨_, follow⟩, ?_, rfl, trivial⟩
    rw [exprOf_succ (List.cons_ne_nil _ _)
      (Or.inl (dropConst_leaf (ht.not_const fun _ => hconst) _)), htokens,
      hatom, hshape]
    rfl
  · cases htest

theorem reads_background : Reads (holderText backgroundCarrier) (Holds backgroundCarrier) := by
  have hvalue : Reads "value ?? Colors.transparent" fun e =>
      backgroundCarrier.inner? e.text = some "value" := by
    have hread : Readable "value ?? Colors.transparent" := readable_operation (by decide +kernel)
    refine (hread.text (by decide)).imp fun e he => ?_
    rw [he.2]
    decide
  have hargs : List.Forall₂ Phrase
      ["color" ++ ": " ++ "value ?? Colors.transparent", "child" ++ ": " ++ "child"]
      ([(some "color", fun e => backgroundCarrier.inner? e.text = some "value"),
        (some "child", fun _ => True)].map ReadsArg) :=
    .cons (readsArg_named hvalue (by decide))
      (.cons (readsArg_named (reads_name (by decide)) (by decide)) .nil)
  exact (reads_callOf (single_name (by decide)).spelt rfl (fun _ => callHead_of_name (by decide))
    (listing_inline hargs) (by decide)).imp fun e => holds_of_calls (c := backgroundCarrier)

theorem reads_foreground : Reads (holderText foregroundCarrier) (Holds foregroundCarrier) := by
  have hvalue : Reads "TextStyle(color: value)" fun e =>
      foregroundCarrier.inner? e.text = some "value" := by
    have hread : Readable ("TextStyle" ++ "(" ++ join ", " ["color" ++ ": " ++ "value"] ++ ")") :=
      readable_call (by decide) (.cons (phrase_named (reads_name (by decide)) (by decide)) .nil)
    refine (hread.text (by decide)).imp fun e he => ?_
    rw [he.2]
    decide
  have hargs : List.Forall₂ Phrase
      ["style" ++ ": " ++ "TextStyle(color: value)", "child" ++ ": " ++ "child"]
      ([(some "style", fun e => foregroundCarrier.inner? e.text = some "value"),
        (some "child", fun _ => True)].map ReadsArg) :=
    .cons (readsArg_named hvalue (by decide))
      (.cons (readsArg_named (reads_name (by decide)) (by decide)) .nil)
  exact (reads_pathCall (a := "DefaultTextStyle") (b := "merge") (by decide) (by decide)
    (listing_inline hargs)
    (by decide)).imp fun e => holds_of_calls (c := foregroundCarrier)

/-- The carrier of the property of a tween between colours. -/
def carrierOf (t : Tween) : Carrier :=
  if t.property = "color" then foregroundCarrier else backgroundCarrier

theorem carrierOf?_eq {t : Tween} (h : IsColorTween t) :
    carrierOf? t.property = some (carrierOf t) := by
  unfold carrierOf
  rcases h.property with h | h <;> rw [h] <;> rfl

theorem reads_holderText {t : Tween} : Reads (holderText (carrierOf t)) (Holds (carrierOf t)) := by
  unfold carrierOf
  split_ifs
  · exact reads_foreground
  · exact reads_background

/-! ## The arguments of a builder -/

/-- A closure that holds the animated value in a carrier. -/
def IsHolder (c : Carrier) (e : Expr) : Prop :=
  ∃ r params b, e = .closure r params (some b) none ∧ params[1]? = some "value" ∧ Holds c b

/-- The arguments of the builder of a tween, whose child has a property. -/
def builderSpecs (s : Spec) (t : Tween) (P : Expr → Prop) : List ArgSpec :=
  [(some "tween", IsTween t), (some "duration", fun e => e.text = durationText s.duration),
    (some "curve", fun e => e.text = "Curves" ++ "." ++ curveOf s.easing),
    (some "builder", IsHolder (carrierOf t)), (some "child", P)]

theorem interval_matchStart? (curve : String) :
    Form.interval.matchStart? ("Curves" ++ "." ++ curve) = none := by
  have hdiffer : differ "Interval(".toList ("Curves" ++ "." ++ curve).toList = true := by
    rw [String.toList_append, String.toList_append, List.append_assoc]
    exact differ_append rfl _
  have hrefuses : Refuses Form.interval ("Curves" ++ "." ++ curve).toList :=
    (((((((((((refuses_lit hdiffer).textStart).seq _).seq _).seq _).seq _).seq _).seq _).seq _).seq
      _).seq _).seq _
  exact matchAt?_of_refuses hrefuses [] 0

theorem curve_of_mem {easing : String} (h : easing ∈ easings.keys) :
    isName (curveOf easing) = true ∧
    easingOf ("Curves" ++ "." ++ curveOf easing) = easing := by
  have key : ∀ easing ∈ easings.keys, isName (curveOf easing) = true ∧
      easingOf ("Curves" ++ "." ++ curveOf easing) = easing := by decide +kernel
  exact key easing h

/-- The timing of a motion. -/
def timingOfSpec (s : Spec) : Timing :=
  { duration := some s.duration, easing := some s.easing
    repeats := if s.repeats then some true else none }

/-- The comments after the bracket of a builder. -/
def marks (s : Spec) : List String := if s.repeats then [repeatMark] else []

theorem durationOf?_durationText {n : Int} (h : 0 ≤ n) : durationOf? (durationText n) = some n := by
  obtain ⟨m, rfl⟩ := Int.eq_ofNat_of_zero_le h
  have hsearch :
      ((Form.inMilliseconds.search? (durationText m)).bind fun r => Number.readInt? (r.get 1)) =
        some (m : Int) := milliseconds_search rfl
  obtain ⟨r, hr, hread⟩ := Option.bind_eq_some_iff.1 hsearch
  rw [durationOf?, hr]
  exact hread

theorem timingOf_builder {s : Spec} (hs : IsSteady s) {t : Tween} {P : Expr → Prop}
    {args : List (Option String × Expr)} (h : ArgsMeet (builderSpecs s t P) args) :
    timingOf args (marks s) = .ok (timingOfSpec s) := by
  obtain ⟨d, hd, hdt, -⟩ := named?_of_meet h "duration" rfl
  obtain ⟨c, hc, hct, -⟩ := named?_of_meet h "curve" rfl
  have hmarks : (if (marks s).any (fun c => occursIn repeatMark c) then some true else none) =
      if s.repeats then some true else none := by
    have hown : occursIn repeatMark repeatMark = true := by decide
    unfold marks
    cases s.repeats <;> simp [hown]
  unfold timingOf
  simp only [hd, hc, Option.bind_some, show d.text = durationText s.duration from hdt,
    show c.text = "Curves" ++ "." ++ curveOf s.easing from hct,
    durationOf?_durationText hs.duration, interval_matchStart?, (curve_of_mem hs.easing).2, hmarks]
  rfl

theorem carrierOf_property {t : Tween} (h : IsColorTween t) :
    (carrierOf t).property = t.property := by
  unfold carrierOf
  rcases h.property with h | h <;> rw [h] <;> rfl

/-- The carrier of a tween is the first one that reads the builder. -/
theorem firstReading_eq {t u : Tween} {valueName : String}
    {body tween : List (Option String × Expr)}
    (h : (carrierOf t).read valueName body tween = .ok (.tween u)) :
    firstReading valueName (carrierOf t).callee body tween carriers = .ok (some u) := by
  unfold carrierOf at h ⊢
  split_ifs at h ⊢
  · simp only [foregroundCarrier] at h ⊢
    simp [carriers, firstReading, h, bind, Except.bind, pure, Except.pure]
  · simp only [backgroundCarrier] at h ⊢
    simp [carriers, firstReading, h, bind, Except.bind, pure, Except.pure]

theorem builderTween_eq {s : Spec} {t : Tween} (ht : IsColorTween t) {P : Expr → Prop}
    {args : List (Option String × Expr)} (h : ArgsMeet (builderSpecs s t P) args) :
    builderTween args = .ok (some t) := by
  obtain ⟨b, hb, hholder, -⟩ := named?_of_meet h "builder" rfl
  obtain ⟨e, he, htween, -⟩ := named?_of_meet h "tween" rfl
  obtain ⟨r, params, _, rfl, hparams, r', typeArgs, body, comments, held, rfl, hnamed, hinner⟩ :=
    hholder
  obtain ⟨r'', ends, rfl, -, hends, -⟩ := htween
  obtain ⟨x, hx, hstart, -⟩ := named?_of_meet hends "begin" rfl
  obtain ⟨y, hy, hfinish, -⟩ := named?_of_meet hends "end" rfl
  have hcolor : colorProperties.contains t.property = true := by
    rcases ht.property with h | h <;> rw [h] <;> rfl
  have hplain : ({ property := t.property, start := t.start, finish := t.finish } : Tween) = t := by
    rw [← ht.keyframes]
  have hread : (carrierOf t).read "value" body ends = .ok (.tween t) := by
    unfold Carrier.read
    simp only [hnamed, Option.bind_some, hinner, hcolor, if_true, bne_self_eq_false,
      Bool.false_eq_true, if_false, hx, hy, carrierOf_property ht,
      show colorOf (some x) = t.start from hstart,
      show colorOf (some y) = t.finish from hfinish, hplain]
  unfold builderTween
  simp only [hb, he, hparams, Option.getD_some]
  exact firstReading_eq hread

/-- A builder adds its tween and its timing to what is known. -/
theorem add_builder {s : Spec} (hs : IsSteady s) {t : Tween} (ht : IsColorTween t) {P : Expr → Prop}
    {args : List (Option String × Expr)} (h : ArgsMeet (builderSpecs s t P) args) (c : Collected) :
    c.add "TweenAnimationBuilder" args (marks s) =
      .ok (some { c with tweens := c.tweens ++ [t], timing := c.timing.or (timingOfSpec s) }) := by
  unfold Collected.add
  simp only [builderTween_eq ht h, timingOf_builder hs h]
  rfl

/-! ## The source of a builder -/

/-- The remark and the gap before the first argument of a builder. -/
def firstHead (s : Spec) (gap : String) : String :=
  if s.repeats then repeatMark ++ (gap ++ "tween") else gap ++ "tween"

/-- The arguments of a builder after the first. -/
def laterArguments (s : Spec) (t : Tween) (child : String) : List String :=
  ["duration" ++ ": " ++ durationText s.duration,
  "curve" ++ ": " ++ ("Curves" ++ "." ++ curveOf s.easing),
  "builder" ++ ": " ++ builderClosure (holderText (carrierOf t)), "child" ++ ": " ++ child]

/-- The source of the builder of a tween around a child. -/
def builderText (s : Spec) (indent : String) (t : Tween) (child : String) : String :=
  optionalHead "TweenAnimationBuilder" "Color" ++
    ("(" ++ (firstHead s ("\n" ++ indent) ++ ": " ++ tweenText t ++ "," ++
    String.join
      ((laterArguments s t (indentTail child indent)).map fun a => "\n" ++ indent ++ a ++ ",")) ++
      "\n" ++ ")")

theorem builderParts_eq {t : Tween} (h : IsColorTween t) :
    builderParts t = ("Color?", tweenText t, "value") := by
  have hcolor : colorProperties.contains t.property = true := by
    rcases h.property with h | h <;> rw [h] <;> rfl
  have htext : "ColorTween(begin: " ++ colorText t.start ++ ", end: " ++ colorText t.finish ++ ")" =
      tweenText t := by
    unfold tweenText
    refine String.toList_inj.1 ?_
    simp [join]
  rw [builderParts, if_pos hcolor, htext]

theorem curveText_eq {s : Spec} (h : IsSteady s) :
    curveText s = .ok (s.duration, "Curves" ++ "." ++ curveOf s.easing) := by
  have hdelay : (s.delay == 0) = true := by simp [h.delay]
  unfold curveText
  rw [if_pos hdelay]
  rfl

/-- The lines of a builder. -/
theorem builderLines_eq (s : Spec) (indent : String) (t : Tween) (child : String) :
    join "\n" [
      "TweenAnimationBuilder<" ++ "Color?" ++ ">(" ++ (if s.repeats then repeatMark else ""),
      indent ++ "tween: " ++ tweenText t ++ ",",
      indent ++ "duration: const Duration(milliseconds: " ++ Number.showInt s.duration ++ "),",
      indent ++ "curve: " ++ ("Curves" ++ "." ++ curveOf s.easing) ++ ",",
      indent ++ "builder: (context, value, child) => " ++ (carrierOf t).callee ++ "(" ++
        (carrierOf t).argument ++
        ": " ++ (carrierOf t).before ++ "value" ++ (carrierOf t).after ++ ", child: child),",
      indent ++ "child: " ++ indentTail child indent ++ ",",
      ")"] = builderText s indent t child := by
  refine String.toList_inj.1 ?_
  unfold builderText firstHead laterArguments optionalHead builderClosure closureHead holderText
    durationText
  generalize carrierOf t = c
  cases s.repeats <;> simp [join]

/-- What is written around a child for a tween. -/
theorem aroundTween_eq {s : Spec} (hs : IsSteady s) {t : Tween} (ht : IsColorTween t)
    (indent : String) (w : Written) :
    aroundTween s indent t w = .ok ⟨builderText s indent t w.text, w.warnings⟩ := by
  unfold aroundTween
  rw [carrierOf?_eq ht]
  dsimp only
  rw [curveText_eq hs, ← builderLines_eq]
  simp only [bind, Except.bind, pure, Except.pure, builderParts_eq ht, ht.keyframes,
    List.isEmpty_nil, Bool.not_true, Bool.and_false, Bool.false_eq_true, if_false, List.append_nil]

theorem isRemark_repeatMark : IsRemark repeatMark := by
  refine ⟨by decide, "* animation: repeat */".toList, by decide, by decide, ?_⟩
  rfl

theorem passage_firstHead (s : Spec) {gap : String} (hg : isGap gap = true) (hne : gap ≠ "") :
    Passage (firstHead s gap) (Label "tween" (marks s)) := by
  unfold firstHead marks
  split_ifs
  · exact passage_remarked isRemark_repeatMark hg hne (by decide)
  · exact (passage_label (by decide)).lead hg

/-- The builder around a child is read as the builder of the tween. -/
theorem passage_builder {s : Spec} (hs : IsSteady s) {t : Tween} (ht : IsColorTween t)
    {indent : String} (hi : isIndent indent = true) {child : String} {P : Expr → Prop}
    (hc : Passage child (Slot (ReadsAs P))) :
    Passage (builderText s indent t child)
      (Slot (ReadsAs (Calls "TweenAnimationBuilder" (builderSpecs s t P) (marks s)))) := by
  have hgap : isGap ("\n" ++ indent) = true := isGap_append (by decide) (isGap_of_isIndent hi)
  have hne : "\n" ++ indent ≠ "" := by simp
  have hchild : Passage (indentTail child indent) (Slot (ReadsAs P)) :=
    hc.indentTail hi (Writing.toList_indentTail child indent)
  have hcurve : Reads ("Curves" ++ "." ++ curveOf s.easing) fun e =>
      e.text = "Curves" ++ "." ++ curveOf s.easing := by
    have hname := (curve_of_mem hs.easing).1
    have hinline : isInline ("Curves" ++ "." ++ curveOf s.easing) = true := by
      refine isInline_iff.2 ⟨?_, ?_⟩
      · simpa using newline_not_mem_of_isName hname
      · simp
    exact ((reads_path (by decide) hname).text hinline).imp fun e he => he.2
  have hfirst := (passage_firstHead s hgap hne).named (reads_tweenText ht).passage
  have hlater : List.Forall₂ (fun a s => Passage a (Argument s []))
      (laterArguments s t (indentTail child indent))
      (builderSpecs s t P).tail :=
    .cons ((passage_label (by decide)).named (reads_duration _).passage)
      (.cons ((passage_label (by decide)).named hcurve.passage)
        (.cons ((passage_label (by decide)).named (reads_builderClosure reads_holderText).passage)
          (.cons ((passage_label (by decide)).named hchild) .nil)))
  have hinner := passage_arguments hgap hne hlater hfirst
  exact (passage_optionalHead (by decide) (by decide)).call hinner (by decide)

end WidgetBridge.Motion
