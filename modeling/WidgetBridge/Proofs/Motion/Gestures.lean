import WidgetBridge.Motion.Emission
import WidgetBridge.Motion.Wrappers
import WidgetBridge.Proofs.Text.Pattern
import WidgetBridge.Proofs.WidgetGrammar.Arguments
import WidgetBridge.Proofs.WidgetGrammar.Template
import WidgetBridge.Proofs.Writing.Verbatim

/-!
# Detectors of gestures

Gestures are written as the arguments of a detector around a child (`detectorText`).
`passage_detector` reads the detector, whatever the child is, as a call with known arguments, and
`add_detector` gathers the gestures from such a call: each gesture is told by the name of its
argument, and rotation, which shares its argument with pinching, by the form of its handler.
-/

namespace WidgetBridge.Motion

open WidgetBridge.Text WidgetBridge.Text.Pattern WidgetBridge.WidgetGrammar

/-! ## Gestures and their arguments -/

/-- A gesture whose handler, if it has one, is a name; what is touched in one place always has a
handler. -/
inductive Gesture.IsNamed : Gesture → Prop
  | tap {h : String} (hn : isName h = true) : IsNamed { kind := "tap", handler := some h }
  | longPress {h : String} (hn : isName h = true) : IsNamed
    { kind := "longPress", handler := some h }
  | rotate {h : String} (hn : isName h = true) : IsNamed { kind := "rotate", handler := some h }
  | drag {h axis : Option String} (hn : ∀ s ∈ h, isName s = true)
      (ha : axis ∈ [none, some "x", some "y"]) :
      IsNamed { kind := "drag", handler := h, axis }
  | pinch {h : Option String} (hn : ∀ s ∈ h, isName s = true) : IsNamed
    { kind := "pinch", handler := h }

/-- The handler that does nothing. -/
def idle : String := "(_) \x7b\x7d"

/-- The handler of a rotation around a function of the angle. -/
def rotationText (h : String) : String :=
  closureHead "details" ++ (" " ++ ("(" ++ h ++ ")" ++ "(details.rotation)"))

/-- The name of the argument of a gesture. -/
def argumentName (g : Gesture) : String :=
  if g.kind = "tap" then "onTap"
  else if g.kind = "longPress" then "onLongPress"
  else if g.kind = "drag" then
    if g.axis = some "x" then "onHorizontalDragUpdate"
    else if g.axis = some "y" then "onVerticalDragUpdate"
    else "onPanUpdate"
  else "onScaleUpdate"

/-- The source of the argument of a gesture. -/
def argumentText (g : Gesture) : String :=
  if g.kind = "rotate" then rotationText (g.handler.getD idle) else g.handler.getD idle

/-- A handler that is a name stands for itself. -/
theorem orElseText_of_isName {h : String} (hn : isName h = true) (fallback : String) :
    orElseText (some h) fallback = h := by
  have hempty : h.isEmpty = false := by simpa using ne_empty_of_isName hn
  rw [orElseText, hempty, if_neg Bool.false_ne_true]

theorem orElseText_idle {h : Option String} (hn : ∀ s ∈ h, isName s = true) :
    orElseText h idle = h.getD idle := by
  cases h with
  | none => rfl
  | some s => exact orElseText_of_isName (hn s rfl) idle

/-- A gesture is written as one argument, unless it shares that with another one. -/
theorem gestureArgument_eq {g : Gesture} (h : g.IsNamed) {pinched : Bool}
    (hp : pinched = true → g.kind ≠ "rotate") :
    gestureArgument pinched g = (some (argumentName g ++ ": " ++ argumentText g), []) := by
  cases h with
  | tap hn =>
    simp only [gestureArgument, orElseText_of_isName hn]
    rfl
  | longPress hn =>
    simp only [gestureArgument, orElseText_of_isName hn]
    rfl
  | rotate hn =>
    have hpinched : pinched = false := by simpa using mt hp
    simp only [gestureArgument, orElseText_of_isName hn, hpinched, Bool.false_eq_true, if_false]
    refine congrArg (some · , []) (String.toList_inj.1 ?_)
    simp [argumentName, argumentText, rotationText, closureHead]
  | @drag h axis hn ha =>
    have htext : orElseText h "(_) \x7b\x7d" = h.getD idle := orElseText_idle hn
    simp only [List.mem_cons, List.not_mem_nil, or_false] at ha
    obtain rfl | rfl | rfl := ha <;>
      · simp only [gestureArgument, htext]
        rfl
  | @pinch h hn =>
    have htext : orElseText h "(_) \x7b\x7d" = h.getD idle := orElseText_idle hn
    simp only [gestureArgument, htext]
    rfl

/-! ## The source of a handler -/

/-- Two pairs of brackets, of which the first is round, are a closure with a block, or else they are
carried as they stand. -/
theorem readable_brackets {a b : String} {g g₁ g₂ : String} {ps qs : List Piece} {bracket : Bracket}
    (ha : Spelt a [.group g .round ps g₁]) (hb : Spelt b [.group "" bracket qs g₂]) (gap : String)
    (hg : isGap gap = true) : Readable (a ++ (gap ++ b)) := by
  have hspelt := ha.append (hb.lead hg) fun d _ => rfl
  refine ⟨_, hspelt, rfl, fun ts hts follow fuel hf => ?_⟩
  obtain ⟨o, vs, c, us, rfl, ho, hc, -, hv, hu⟩ := matches_group_cons.1 hts
  obtain ⟨o', vs', c', us', rfl, ho', hc', -, hv', hu'⟩ := matches_group_cons.1 hu.matches
  rw [showsAll_nil] at hu'
  subst hu'
  simp only [TokenTree.sizeOf', TokenTree.size] at hf
  obtain ⟨fuel, rfl⟩ : ∃ n, fuel = n + 2 := ⟨fuel - 2, by omega⟩
  have hround : o.isPunct "(" = true := ho.isPunct_eq "("
  rw [exprOf_succ (List.cons_ne_nil _ _) (Or.inl rfl)]
  by_cases hcurly : o'.isPunct "\x7b" = true
  · have hshape : shapeOf [.group o vs c, .group o' vs' c'] =
        .block ⟨vs, some c⟩ ⟨vs', some c'⟩ := by
      simp [shapeOf, startsAngle, collection?, openShape, hround, hcurly]
    simp only [literalTokens?, atom?, hshape, shapeExpr]
    exact ⟨_, rfl, rfl, trivial⟩
  · have hshape : shapeOf [.group o vs c, .group o' vs' c'] = .other := by
      simp [shapeOf, startsAngle, collection?, openShape, hcurly, callShape, callHead?]
    simp only [literalTokens?, atom?, hshape, shapeExpr]
    exact ⟨_, rfl, rfl, trivial⟩

theorem readable_idle : Readable idle := by
  have hparams : Spelt ("(" ++ "_" ++ ")") [.group "" .round [.word "" (.name "_")] ""] :=
    spelt_round rfl (single_name (by decide)).spelt.sound
  have hblock : Spelt ("" ++ "\x7b" ++ "" ++ "" ++ "\x7d") [.group "" .curly [] ""] :=
    spelt_group .curly rfl trivial rfl rfl
  exact readable_brackets hparams hblock " " rfl

theorem readable_rotationText {h : String} (hn : isName h = true) : Readable (rotationText h) := by
  have hhandler := spelt_round (single_name hn).spelt.toList_eq (single_name hn).spelt.sound
  have hangle := spelt_path (a := "details") (b := "rotation") (by decide) (by decide)
  have hbody : Readable
      ("(" ++ h ++ ")" ++ ("" ++ ("(" ++ ("details" ++ "." ++ "rotation") ++ ")"))) :=
    readable_brackets hhandler (spelt_round hangle.toList_eq hangle.sound) "" rfl
  rw [String.empty_append] at hbody
  have hparams := (single_name (s := "details") (by decide)).spelt
  exact (reads_closure ⟨_, hparams.toList_eq, hparams.sound⟩ (by decide) hbody (g := " ") rfl
    (by decide)).imp
    fun _ _ => trivial

theorem readable_handler {h : Option String} (hn : ∀ s ∈ h, isName s = true) :
    Readable (h.getD idle) := by
  cases h with
  | none => exact readable_idle
  | some s => exact reads_name (hn s rfl)

theorem isInline_handler {h : Option String} (hn : ∀ s ∈ h, isName s = true) :
    isInline (h.getD idle) = true := by
  cases h with
  | none => decide
  | some s => exact isInline_of_isName (hn s rfl)

theorem isInline_rotationText {h : String} (hn : isName h = true) :
    isInline (rotationText h) = true := by
  have hchars : (rotationText h).toList =
      "(details) => (".toList ++ (h.toList ++ ")(details.rotation)".toList) := by
    simp [rotationText, closureHead]
  rw [isInline_iff, hchars]
  refine ⟨?_, ?_⟩
  · simp only [List.mem_append, not_or]
    exact ⟨by decide, newline_not_mem_of_isName hn, by decide⟩
  · rintro d ⟨⟩
    decide

/-- The argument of a gesture keeps its source. -/
theorem reads_argumentText {g : Gesture} (h : g.IsNamed) :
    Reads (argumentText g) fun e => e.text = argumentText g := by
  have hread : Readable (argumentText g) ∧ isInline (argumentText g) = true := by
    cases h with
    | tap hn => exact ⟨reads_name hn, isInline_of_isName hn⟩
    | longPress hn => exact ⟨reads_name hn, isInline_of_isName hn⟩
    | rotate hn => exact ⟨readable_rotationText hn, isInline_rotationText hn⟩
    | drag hn ha => exact ⟨readable_handler hn, isInline_handler hn⟩
    | pinch hn => exact ⟨readable_handler hn, isInline_handler hn⟩
  exact (hread.1.text hread.2).imp fun e he => he.2

/-! ## The form of a handler -/

theorem differ_of_isName {h : String} (hn : isName h = true) (s : String) :
    differ ("(" ++ s).toList h.toList = true := by
  obtain ⟨c, cs, hcs, hc, -⟩ := isName_iff.1 hn
  have hne : '(' ≠ c := by
    rintro rfl
    exact absurd hc (by decide)
  simp [hcs, differ, hne]

theorem emptyHandler_of_isName {h : String} (hn : isName h = true) :
    Form.emptyHandler.matchesStart h = false := by
  have hrefuses : Refuses Form.emptyHandler h.toList :=
    ((((((refuses_lit (differ_of_isName hn "_)")).textStart).seq _).seq _).seq _).seq _).seq _
  rw [matchesStart, matchStart?, matchAt?_of_refuses hrefuses]
  rfl

theorem emptyHandler_idle : Form.emptyHandler.matchesStart idle = true := by decide

theorem rotationHandler_eq_none {s : String} (h : differ "(details)".toList s.toList = true) :
    Form.rotationHandler.matchStart? s = none := by
  have hrefuses : Refuses Form.rotationHandler s.toList :=
    ((((((((refuses_lit h).textStart).seq _).seq _).seq _).seq _).seq _).seq _).seq _
  exact matchAt?_of_refuses hrefuses [] 0

/-- The handler of a rotation reaches from the first bracket to the last one that can end it. -/
theorem rotationHandler_rotationText {h : String} (hn : isName h = true) :
    ∃ m, Form.rotationHandler.matchStart? (rotationText h) = some m ∧ trim (m.get 1) = h := by
  have hne : h.toList ≠ [] := by simpa using ne_empty_of_isName hn
  let tail := h.toList ++ (")(details.rotation)".toList ++ [])
  have hclose : Takes (lit ")(details.rotation)" ++ textEnd) (")(details.rotation)".toList ++ []) []
      ([] ++ []) :=
    (takes_lit _ _).seq takes_textEnd
  have hgroup : Takes (group 1 (many1 any) ++ (lit ")(details.rotation)" ++ textEnd)) tail [] _ :=
    takes_many1_last (fun _ _ => rfl) hne hclose
      (fun fs hfs => (refuses_lit_of_length_lt (by simpa using hfs)).seq _) 1
  have hround := takes_lit "(" (tail ++ [])
  have hgap₂ : Takes blanks [' '] ("(".toList ++ (tail ++ [])) [] :=
    takes_blanks_space (by simp; decide)
  have harrow := takes_lit "=>" ([' '] ++ ("(".toList ++ (tail ++ [])))
  have hgap₁ : Takes blanks [' '] ("=>".toList ++ ([' '] ++ ("(".toList ++ (tail ++ [])))) [] :=
    takes_blanks_space (by simp; decide)
  have hhead :=
    (opens_textStart _).seq
    (takes_lit "(details)" ([' '] ++ ("=>".toList ++ ([' '] ++ ("(".toList ++
    (tail ++ []))))))
  have hopens := (((((hhead.seq hgap₁).seq harrow).seq hgap₂).seq hround).seq hgroup).assoc.assoc
  have hchars : (rotationText h).toList = [] ++ "(details)".toList ++ [' '] ++ "=>".toList ++
      [' '] ++ "(".toList ++
      tail ++ [] := by
    simp [rotationText, closureHead, tail]
  refine ⟨_, matchStart?_of_opens hchars hopens, ?_⟩
  have hblank : ∀ c ∈ h.toList, isBlank c = false :=
    fun c hc => not_isBlank_of_isNameChar (isNameChar_of_isName hn hc)
  simp [Match.get, Match.group?, trim, trimChars_of_no_blank hblank]

/-- What a detector takes for the handler of an argument. -/
theorem handler_eq {h : Option String} (hn : ∀ s ∈ h, isName s = true) :
    (if Form.emptyHandler.matchesStart (h.getD idle) then none else some (h.getD idle)) = h := by
  cases h with
  | none => rw [Option.getD_none, emptyHandler_idle, if_pos rfl]
  | some s => rw [Option.getD_some, emptyHandler_of_isName (hn s rfl), if_neg Bool.false_ne_true]

theorem rotationHandler_handler {h : Option String} (hn : ∀ s ∈ h, isName s = true) :
    Form.rotationHandler.matchStart? (h.getD idle) = none := by
  cases h with
  | none => exact rotationHandler_eq_none (by decide)
  | some s => exact rotationHandler_eq_none (differ_of_isName (hn s rfl) "details)")

/-- The argument of a gesture is taken for the gesture. -/
theorem detectorGestures_cons {g : Gesture} (h : g.IsNamed) {e : Expr}
    (he : e.text = argumentText g) (args : List (Option String × Expr)) :
    detectorGestures ((some (argumentName g), e) :: args) =
      (g :: (detectorGestures args).1, (detectorGestures args).2) := by
  cases h with
  | @tap s hn =>
    have hhandler := handler_eq (h := some s) (by simpa using hn)
    have htext : e.text = (some s).getD idle := he
    change detectorGestures ((some "onTap", e) :: args) = _
    simp only [detectorGestures, htext, hhandler]
  | @longPress s hn =>
    have hhandler := handler_eq (h := some s) (by simpa using hn)
    have htext : e.text = (some s).getD idle := he
    change detectorGestures ((some "onLongPress", e) :: args) = _
    simp only [detectorGestures, htext, hhandler]
  | @rotate s hn =>
    obtain ⟨m, hm, hs⟩ := rotationHandler_rotationText hn
    have htext : e.text = rotationText s := he
    change detectorGestures ((some "onScaleUpdate", e) :: args) = _
    simp only [detectorGestures, htext, hm, hs]
  | @drag h axis hn ha =>
    have hhandler := handler_eq hn
    have htext : e.text = h.getD idle := he
    simp only [List.mem_cons, List.not_mem_nil, or_false] at ha
    rcases ha with rfl | rfl | rfl
    · change detectorGestures ((some "onPanUpdate", e) :: args) = _
      simp only [detectorGestures, htext, hhandler]
    · change detectorGestures ((some "onHorizontalDragUpdate", e) :: args) = _
      simp only [detectorGestures, htext, hhandler]
    · change detectorGestures ((some "onVerticalDragUpdate", e) :: args) = _
      simp only [detectorGestures, htext, hhandler]
  | @pinch h hn =>
    have hhandler := handler_eq hn
    have htext : e.text = h.getD idle := he
    change detectorGestures ((some "onScaleUpdate", e) :: args) = _
    simp only [detectorGestures, htext, rotationHandler_handler hn, hhandler]

/-! ## Detectors -/

/-- The arguments of a detector of gestures, whose child has a property. -/
def detectorSpecs (gs : List Gesture) (P : Expr → Prop) : List ArgSpec :=
  gs.map (fun g => ((some (argumentName g), fun e => e.text = argumentText g) : ArgSpec)) ++
    [(some "child", P)]

/-- A detector gives back its gestures, one after the other. -/
theorem detectorGestures_of_meet {gs : List Gesture} (h : ∀ g ∈ gs, g.IsNamed) {P : Expr → Prop}
    {args : List (Option String × Expr)} (hargs : ArgsMeet (detectorSpecs gs P) args) :
    detectorGestures args = (gs, []) := by
  induction gs generalizing args with
  | nil =>
    obtain ⟨⟨_, e⟩, _, ⟨rfl, -⟩, hnil, rfl⟩ := List.forall₂_cons_left_iff.1 hargs
    cases hnil
    simp [detectorGestures]
  | cons g gs ih =>
    obtain ⟨hg, hgs⟩ := List.forall_mem_cons.1 h
    obtain ⟨⟨_, e⟩, args, ⟨rfl, he⟩, hrest, rfl⟩ := List.forall₂_cons_left_iff.1 hargs
    rw [detectorGestures_cons hg he, ih hgs hrest]

theorem argumentName_ne_child (g : Gesture) : argumentName g ≠ "child" := by
  unfold argumentName
  split_ifs <;> decide

theorem isName_argumentName (g : Gesture) : isName (argumentName g) = true := by
  unfold argumentName
  split_ifs <;> decide

theorem child_of_detector {gs : List Gesture} {P : Expr → Prop} {args : List (Option String × Expr)}
    (h : ArgsMeet (detectorSpecs gs P) args) :
    ∃ e, Expr.named? args "child" = some e ∧ P e ∧ e ∈ args.map (·.2) := by
  have hspec : (detectorSpecs gs P).find? (fun s => s.1 == some "child") =
      some (some "child", P) := by
    rw [detectorSpecs, List.find?_append, List.find?_eq_none.2, Option.none_or]
    · rfl
    · rintro _ hmem
      obtain ⟨g, -, rfl⟩ := List.mem_map.1 hmem
      simpa using argumentName_ne_child g
  exact named?_of_meet h "child" hspec

/-- A detector adds its gestures to what is known. -/
theorem add_detector {gs : List Gesture} (h : ∀ g ∈ gs, g.IsNamed) {P : Expr → Prop}
    {args : List (Option String × Expr)} (hargs : ArgsMeet (detectorSpecs gs P) args)
    (c : Collected) (comments : List String) : c.add "GestureDetector" args comments =
      .ok (some { c with gestures := c.gestures ++ gs, warnings := c.warnings ++ [] }) := by
  unfold Collected.add
  simp only [detectorGestures_of_meet h hargs]
  rfl

/-- The source of the arguments of a detector. -/
def detectorArguments (gs : List Gesture) (child : String) : List String :=
  gs.map (fun g => argumentName g ++ ": " ++ argumentText g) ++ ["child" ++ ": " ++ child]

/-- The source of a detector of gestures around a child. -/
def detectorText (indent : String) (gs : List Gesture) (child : String) : String :=
  "GestureDetector" ++
      ("(" ++ String.join ((detectorArguments gs (indentTail child indent)).map fun a =>
    "\n" ++ indent ++ a ++ ",") ++ "\n" ++ ")")

/-- The lines of a detector. -/
theorem detectorLines_eq (indent : String) (gs : List Gesture) (child : String) :
    join "\n" (["GestureDetector("] ++
      (gs.map fun g => argumentName g ++ ": " ++ argumentText g).map
        (fun a => indent ++ a ++ ",") ++
      [indent ++ "child: " ++ indentTail child indent ++ ",", ")"]) =
        detectorText indent gs child := by
  have hlines := join_cons_concat "\n" "GestureDetector(" ")"
    ((detectorArguments gs (indentTail child indent)).map fun a => indent ++ a ++ ",")
  have hargs : "GestureDetector(" ::
      ((detectorArguments gs (indentTail child indent)).map fun a => indent ++ a ++ ",") ++ [")"] =
        ["GestureDetector("] ++
        (gs.map fun g => argumentName g ++ ": " ++ argumentText g).map
          (fun a => indent ++ a ++ ",") ++
        [indent ++ "child: " ++ indentTail child indent ++ ",", ")"] := by
    simp [detectorArguments, String.append_assoc]
  unfold detectorText
  rw [← hargs, hlines, List.map_map]
  refine String.toList_inj.1 ?_
  simp [Function.comp_def, String.append_assoc]

/-- What is written around a child for its gestures. -/
theorem aroundGestures_eq {gs : List Gesture} (h : ∀ g ∈ gs, g.IsNamed)
    (hp : ∀ g ∈ gs, ∀ g' ∈ gs, g.kind = "pinch" → g'.kind ≠ "rotate") (indent : String)
    (w : Written) :
    aroundGestures gs indent w = ⟨detectorText indent gs w.text, w.warnings⟩ := by
  have hargs : gs.map (gestureArgument (gs.any fun g => g.kind == "pinch")) =
      gs.map fun g => (some (argumentName g ++ ": " ++ argumentText g), []) := by
    refine List.map_congr_left fun g hg => gestureArgument_eq (h g hg) fun hany => ?_
    obtain ⟨g', hg', hkind⟩ := List.any_eq_true.1 hany
    exact hp g' hg' g hg (beq_iff_eq.1 hkind)
  have hwritten :
      (gs.map fun g => (some (argumentName g ++ ": " ++ argumentText g),
        ([] : List String))).filterMap (·.1) =
        gs.map fun g => argumentName g ++ ": " ++ argumentText g := by
    simp [List.filterMap_map]
  have hlost :
      (gs.map fun g => (some (argumentName g ++ ": " ++ argumentText g),
        ([] : List String))).flatMap (·.2) = [] := by
    simp
  simp only [aroundGestures, hargs, hwritten, hlost, detectorLines_eq, List.append_nil]

theorem passage_listed {gap : String} (hg : isGap gap = true) (hne : gap ≠ "") {as : List String}
    {specs : List ArgSpec} (hargs : as ≠ [])
    (h : List.Forall₂ (fun a s => Passage a (Argument s [])) as specs) :
    Passage (String.join (as.map fun a => gap ++ a ++ ",")) (Arguments specs []) := by
  cases h with
  | nil => exact absurd rfl hargs
  | cons ha has =>
    have hall := (passage_arguments hg hne has ha).lead hg
    rw [List.map_cons, String.join_cons]
    simpa only [String.append_assoc] using hall

/-- The detector around a child is read as the detector of the gestures. -/
theorem passage_detector {gs : List Gesture} (h : ∀ g ∈ gs, g.IsNamed) {indent : String}
    (hi : isIndent indent = true) {child : String} {P : Expr → Prop}
    (hc : Passage child (Slot (ReadsAs P))) :
    Passage (detectorText indent gs child)
      (Slot (ReadsAs (Calls "GestureDetector" (detectorSpecs gs P) []))) := by
  have hgap : isGap ("\n" ++ indent) = true := isGap_append (by decide) (isGap_of_isIndent hi)
  have hchild : Passage (indentTail child indent) (Slot (ReadsAs P)) :=
    hc.indentTail hi (Writing.toList_indentTail child indent)
  have hargs : List.Forall₂ (fun a s => Passage a (Argument s []))
      (detectorArguments gs (indentTail child indent))
      (detectorSpecs gs P) := by
    refine List.rel_append ?_ (.cons ((passage_label (by decide)).named hchild) .nil)
    refine List.forall₂_map_left_iff.2
      (List.forall₂_map_right_iff.2 (List.forall₂_same.2 fun g hg => ?_))
    exact (passage_label (isName_argumentName g)).named (reads_argumentText (h g hg)).passage
  exact (passage_callee (by decide)).call
    (passage_listed hgap (by simp) (by simp [detectorArguments]) hargs)
    (by decide)

end WidgetBridge.Motion
