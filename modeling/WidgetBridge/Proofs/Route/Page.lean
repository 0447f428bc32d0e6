import WidgetBridge.Proofs.Route.Recognition
import WidgetBridge.Proofs.WidgetGrammar.Constants
import WidgetBridge.Proofs.WidgetGrammar.Forms

/-!
# Pages of routes

The page of a route is a closure that gives its component, or a page with a transition around the
component.  Both are read as they are written (`reads_builder`, `reads_pageCall`).
-/

namespace WidgetBridge.Route

open WidgetBridge.Text WidgetBridge.Number WidgetBridge.WidgetGrammar

/-! ## Layout -/

theorem indentLines_of_inline {lead s : String} (hn : '\n' ∉ s.toList) (hne : s ≠ "") :
    indentLines lead s = lead ++ s := by
  have hs : s.toList ≠ [] := by simpa using hne
  have h := indentChars_gap_append lead.toList true [] hs hn []
  rw [← String.toList_inj, toList_indentLines, String.toList_append]
  simpa [indentGapChars, indentChars] using h

theorem trimStart_append {gap s : String} (hg : isGap gap = true)
    (hs : ∀ c ∈ s.toList.head?, isBlank c = false) : trimStart (gap ++ s) = s := by
  have hdrop : trimStartChars (gap ++ s).toList = s.toList := by
    rw [trimStartChars, String.toList_append, List.dropWhile_append_of_pos]
    · cases hcs : s.toList with
      | nil => rfl
      | cons c cs => simp [hs c (by simp [hcs])]
    · exact fun c hc => isBlank_of_isGap hg hc
  rw [trimStart, hdrop, String.ofList_toList]

/-- The indentation of written routes. -/
def step : String := "  "

theorem isIndent_step : isIndent step = true := by decide

/-! ## Components -/

/-- Whether a text is an identifier that starts with an upper-case letter. -/
def isCapitalized (s : String) : Bool := isIdentifier s && startsUpper s

section Component

variable {c : String}

theorem isCallable_of_isCapitalized (h : isCapitalized c = true) : isCallable c = true := by
  rw [isCapitalized, Bool.and_eq_true] at h
  refine isCallable_iff.2 ⟨isName_of_isIdentifier h.1, ?_, ?_⟩ <;>
    (rintro rfl; exact absurd h.2 (by decide))

theorem widgetText_eq (h : isCapitalized c = true) : widgetText c = (c ++ "()", []) := by
  have hname := (isCallable_iff.1 (isCallable_of_isCapitalized h)).1
  have hempty : c.isEmpty = false := by simpa using ne_empty_of_isName hname
  simp [widgetText, hempty, dottedName_matchesStart hname]

/-- What shows a component. -/
def Shows (c : String) (e : Expr) : Prop := shownComponent (some e) = c

theorem reads_component (h : isCapitalized c = true) : Reads (c ++ "()") (Shows c) := by
  have hnil : Listing "" (([] : List ArgSpec).map ReadsArg) := listing_nil
  have hcall := reads_call (isCallable_of_isCapitalized h) hnil "" (by decide)
  have htext : c ++ "(" ++ "" ++ "" ++ ")" = c ++ "()" := by
    simp only [String.append_empty, String.append_assoc]
    rfl
  rw [htext] at hcall
  refine hcall.imp fun e he => ?_
  obtain ⟨r, args, rfl, -⟩ := he
  rw [isCapitalized, Bool.and_eq_true] at h
  simp [Shows, shownComponent, h.2]

end Component

/-! ## Transitions -/

/-- The arguments of a call in one line. -/
theorem readable_call {callee : String} (hcallee : isCallable callee = true) {args : List String}
    {names : List String}
    (h : List.Forall₂ (fun a n => Phrase a (ReadsArg (some n, fun _ => True))) args names) :
    Readable (callee ++ "(" ++ join ", " args ++ ")") := by
  have hlisting : Listing (join ", " args)
      ((names.map fun n => ((some n, fun _ => True) : ArgSpec)).map ReadsArg) := by
    refine listing_inline ?_
    rw [List.map_map, List.forall₂_map_right_iff]
    exact h
  have hcall := reads_call hcallee hlisting "" (by decide)
  rw [String.append_empty] at hcall
  exact hcall.imp fun _ _ => trivial

/-- A named argument that is read as some expression. -/
theorem phrase_named {a name : String} (h : Readable a) (hn : isName name = true) :
    Phrase (name ++ ": " ++ a) (ReadsArg (some name, fun _ => True)) :=
  readsArg_named h hn

theorem readable_animation {curve : String} (h : isName curve = true) :
    Readable (animation curve) := by
  have hargs : List.Forall₂ (fun a n => Phrase a (ReadsArg (some n, fun _ => True)))
      ["parent" ++ ": " ++ "animation", "curve" ++ ": " ++ ("Curves" ++ "." ++ curve)]
      ["parent", "curve"] :=
    .cons (phrase_named (reads_name (by decide)) (by decide))
      (.cons (phrase_named (reads_path (by decide) h) (by decide)) .nil)
  have htext : "CurvedAnimation" ++ "(" ++ join ", " ["parent" ++ ": " ++ "animation",
      "curve" ++ ": " ++ ("Curves" ++ "." ++ curve)] ++ ")" = animation curve := by
    refine String.toList_inj.1 ?_
    unfold animation
    simp [join]
  rw [← htext]
  exact readable_call (by decide) hargs

/-- The widget that shows a transition. -/
def transitionWidget : Effect → String
  | .fade => "FadeTransition"
  | .scale => "ScaleTransition"
  | _ => "SlideTransition"

/-- The argument by which a transition is driven. -/
def transitionKey : Effect → String
  | .fade => "opacity"
  | .scale => "scale"
  | _ => "position"

/-- What drives a transition. -/
def transitionDrive (e : Effect) (curve : String) : String :=
  match e with
  | .fade => animation curve
  | .scale => animation curve
  | e => methodCall "Tween" "Offset"
      ("begin: const " ++ slideOrigin e ++ ", end: Offset.zero") "animate"
      (animation curve)

theorem transitionBody_eq (t : Transition) : transitionBody t =
    transitionWidget t.effect ++ "(" ++ join ", " [transitionKey t.effect ++ ": " ++
      transitionDrive t.effect (Motion.curveOf t.easing), "child" ++ ": " ++ "child"] ++ ")" := by
  rw [← String.toList_inj]
  cases he : t.effect
  all_goals
    simp only [transitionBody, transitionHead, transitionTail, transitionWidget, transitionKey,
      transitionDrive, methodCall, join, he, String.toList_append, List.append_assoc]
    -- each text as its list of characters, which the kernel reads faster
    repeat rw [String.toList_ofList]
    rfl

theorem outlined_slide (e : Effect) :
    Outlined ("begin: const " ++ slideOrigin e ++ ", end: Offset.zero") := by
  have hleft : "begin: const Offset(1.0, 0.0), end: Offset.zero" =
      "begin: const " ++ slideOrigin .slideLeft ++ ", end: Offset.zero" := by decide +kernel
  have hright : "begin: const Offset(-1.0, 0.0), end: Offset.zero" =
      "begin: const " ++ slideOrigin .slideRight ++ ", end: Offset.zero" := by decide +kernel
  have hup : "begin: const Offset(0.0, 1.0), end: Offset.zero" =
      "begin: const " ++ slideOrigin .slideUp ++ ", end: Offset.zero" := by decide +kernel
  have hdown : "begin: const Offset(0.0, -1.0), end: Offset.zero" =
      "begin: const " ++ slideOrigin .slideDown ++ ", end: Offset.zero" := by decide +kernel
  have hslide : "begin: const Offset(0.3, 0.0), end: Offset.zero" =
      "begin: const " ++ slideOrigin .slide ++ ", end: Offset.zero" := by decide +kernel
  cases e with
  | slideLeft => exact hleft ▸ outlined_ofList (by decide +kernel)
  | slideRight => exact hright ▸ outlined_ofList (by decide +kernel)
  | slideUp => exact hup ▸ outlined_ofList (by decide +kernel)
  | slideDown => exact hdown ▸ outlined_ofList (by decide +kernel)
  | _ => exact hslide ▸ outlined_ofList (by decide +kernel)

theorem readable_drive (e : Effect) {curve : String} (h : isName curve = true) :
    Readable (transitionDrive e curve) := by
  have hslide : Readable (methodCall "Tween" "Offset"
      ("begin: const " ++ slideOrigin e ++ ", end: Offset.zero") "animate" (animation curve)) :=
    readable_methodCall (by decide) (by decide) (by decide) (outlined_slide e)
      (readable_animation h).outlined
  cases e with
  | fade => exact readable_animation h
  | scale => exact readable_animation h
  | _ => exact hslide

theorem readable_transitionBody {t : Transition} (ht : t.Portable) :
    Readable (transitionBody t) := by
  obtain ⟨-, hname, -⟩ := easing_curve ht.easing
  have hargs : List.Forall₂ (fun a n => Phrase a (ReadsArg (some n, fun _ => True)))
      [transitionKey t.effect ++ ": " ++ transitionDrive t.effect (Motion.curveOf t.easing),
        "child" ++ ": " ++ "child"] [transitionKey t.effect, "child"] :=
    .cons (phrase_named (readable_drive t.effect hname) (by cases t.effect <;> decide))
      (.cons (phrase_named (reads_name (by decide)) (by decide)) .nil)
  rw [transitionBody_eq]
  exact readable_call (by cases t.effect <;> decide) hargs

/-! ## Pages -/

/-- The closure of a route around its page. -/
def aroundPage (page : String) : String := closureHead "context, state" ++ (" " ++ page)

theorem reads_aroundPage {page : String} {P : Expr → Prop} (h : Reads page P) :
    Reads (aroundPage page) (IsClosure (closureHead "context, state") P) :=
  reads_closure (outlined_ofList (by decide +kernel)) (by decide +kernel) h (by decide) (by decide)

/-- A closure that shows a component. -/
def IsBuilder (c : String) (e : Expr) : Prop :=
  ∃ r params body block, e = .closure r params body block ∧ shownComponent body = c

/-- A closure that gives a page with a transition around a component. -/
def IsPage (t : Transition) (c : String) (e : Expr) : Prop :=
  ∃ r params r' args comments block,
    e = .closure r params (some (.call r' "CustomTransitionPage" "" args comments)) block ∧
      pageTransition "CustomTransitionPage" args = .ok (some t) ∧
        shownComponent (Expr.named? args "child") = c

theorem reads_builder {c : String} (h : isCapitalized c = true) :
    Reads (aroundPage (c ++ "()")) (IsBuilder c) :=
  (reads_aroundPage (reads_component h)).imp fun _ ⟨r, params, body, _, he, hP, _⟩ =>
    ⟨r, params, some body, none, he, hP⟩

theorem newline_not_mem_transitionBody {t : Transition} (ht : t.Portable) :
    '\n' ∉ (transitionBody t).toList := by
  obtain ⟨-, hname, -⟩ := easing_curve ht.easing
  have hcurve := newline_not_mem_of_isName hname
  have horigin : '\n' ∉ (slideOrigin t.effect).toList := by
    cases t.effect <;> exact not_mem_ofList (by decide)
  have hhead : '\n' ∉ (transitionHead t.effect).toList := by
    by_cases hf : t.effect = .fade
    · rw [hf]
      exact not_mem_ofList (by decide)
    by_cases hs : t.effect = .scale
    · rw [hs]
      exact not_mem_ofList (by decide)
    · rw [transitionHead_slide ⟨hf, hs⟩]
      simp only [String.toList_append, List.mem_append, not_or]
      exact ⟨⟨not_mem_ofList (by decide), horigin⟩, not_mem_ofList (by decide)⟩
  have htail : '\n' ∉ (transitionTail t.effect).toList := by
    cases t.effect <;> exact not_mem_ofList (by decide)
  have hanimation : '\n' ∉ (animation (Motion.curveOf t.easing)).toList := by
    unfold animation
    simpa using hcurve
  unfold transitionBody
  simp only [String.toList_append, List.mem_append, not_or]
  exact ⟨⟨hhead, hanimation⟩, htail⟩

theorem isInline_transitionBody {t : Transition} (ht : t.Portable) :
    isInline (transitionBody t) = true := by
  refine isInline_iff.2 ⟨newline_not_mem_transitionBody ht, fun d hd => ?_⟩
  have hhead : ∀ e, ∀ d ∈ (transitionWidget e).toList.head?, d ≠ ' ' ∧ d ≠ '\n' := by
    intro e d hd
    cases e <;> (cases hd; decide)
  rw [transitionBody_eq, String.append_assoc, String.append_assoc, String.toList_append,
    List.head?_append] at hd
  cases hw : (transitionWidget t.effect).toList.head? with
  | none =>
    have hne : transitionWidget t.effect ≠ "" := by cases t.effect <;> decide
    exact absurd (by simpa using hw) hne
  | some c =>
    rw [hw] at hd
    cases hd
    exact hhead _ _ hw

/-- The length of a transition. -/
def durationText (n : Int) : String := "const Duration(milliseconds: " ++ showInt n ++ ")"

theorem reads_duration (n : Int) : Reads (durationText n) fun e => e.text = durationText n := by
  have hargs : List.Forall₂ (fun a n => Phrase a (ReadsArg (some n, fun _ => True)))
      ["milliseconds" ++ ": " ++ showInt n] ["milliseconds"] :=
    .cons (phrase_named ((reads_int n).imp fun _ _ => trivial) (by decide)) .nil
  have hcall : Readable
      ("Duration" ++ "(" ++ join ", " ["milliseconds" ++ ": " ++ showInt n] ++ ")") :=
    readable_call (by decide) hargs
  have hconst := reads_const hcall (c := 'D') (by simp) (by decide)
  have htext :
      "const " ++ ("Duration" ++ "(" ++ join ", " ["milliseconds" ++ ": " ++ showInt n] ++ ")") =
      durationText n := by
    refine String.toList_inj.1 ?_
    unfold durationText
    simp [join]
  have hinline : isInline (durationText n) = true := by
    refine isInline_iff.2 ⟨?_, ?_⟩ <;> unfold durationText
    · simpa using newline_not_mem_showInt n
    · simp
  rw [htext] at hconst
  exact (hconst.text hinline).imp fun e he => he.2

theorem reads_transition {t : Transition} (ht : t.Portable) {gap : String} (hg : isGap gap = true)
    (hne : gap ≠ "") : Reads (builderHead ++ (gap ++ transitionBody t))
      (IsClosure builderHead fun e => e.text = transitionBody t) := by
  have hhead : closureHead "context, animation, secondaryAnimation, child" = builderHead := by
    decide +kernel
  have hbody :=
    ((readable_transitionBody ht).text (isInline_transitionBody ht)).imp fun e he => he.2
  rw [← hhead]
  exact reads_closure (outlined_ofList (by decide +kernel)) (by decide +kernel) hbody hg hne

/-- The arguments of a page with a transition. -/
def pageArguments (t : Transition) (c : String) : List String :=
  ["key" ++ ": " ++ ("state" ++ "." ++ "pageKey"), "child" ++ ": " ++ (c ++ "()"),
    "transitionDuration" ++ ": " ++ durationText t.duration,
    "transitionsBuilder" ++ ": " ++ (builderHead ++ ("\n" ++ step ++ transitionBody t))]

/-- A page with a transition. -/
def pageCall (t : Transition) (c : String) : String :=
  "CustomTransitionPage" ++ "(" ++ ("\n" ++ join "\n" ((pageArguments t c).map fun a =>
    indentLines step (a ++ ","))) ++ "\n" ++ ")"

/-- What is known of the arguments of a page with a transition. -/
def pageSpecs (t : Transition) (c : String) : List ArgSpec :=
  [(some "key", fun _ => True), (some "child", Shows c),
    (some "transitionDuration", fun e => e.text = durationText t.duration),
    (some "transitionsBuilder", IsClosure builderHead fun e => e.text = transitionBody t)]

theorem phrase_pageArguments {t : Transition} (ht : t.Portable) {c : String}
    (hc : isCapitalized c = true) :
    List.Forall₂ Phrase (pageArguments t c) ((pageSpecs t c).map ReadsArg) := by
  have hpath : Readable ("state" ++ "." ++ "pageKey") := reads_path (by decide) (by decide)
  have hkey := readsArg_named hpath (by decide : isName "key" = true)
  have hchild := readsArg_named (reads_component hc) (by decide : isName "child" = true)
  have hduration := readsArg_named (reads_duration t.duration)
    (by decide : isName "transitionDuration" = true)
  have hbuilder := readsArg_named (reads_transition ht (by decide : isGap ("\n" ++ step) = true)
    (by decide)) (by decide : isName "transitionsBuilder" = true)
  exact .cons hkey (.cons hchild (.cons hduration (.cons hbuilder .nil)))

theorem isPage_of_isCall {t : Transition} (ht : t.Portable) {c : String} {e : Expr}
    (he : IsCall "CustomTransitionPage" (pageSpecs t c) e) :
    ∃ r args comments, e = .call r "CustomTransitionPage" "" args comments ∧
      pageTransition "CustomTransitionPage" args = .ok (some t) ∧
        shownComponent (Expr.named? args "child") = c := by
  obtain ⟨r, args, rfl, -, hargs, -⟩ := he
  obtain ⟨child, hchild, hshows, -⟩ := named?_of_meet hargs "child" rfl
  obtain ⟨duration, hduration, hdt, -⟩ := named?_of_meet hargs "transitionDuration" rfl
  obtain ⟨builder, hbuilder, ⟨_, _, body, gap, -, hbody, hgap, hbt⟩, -⟩ :=
    named?_of_meet hargs "transitionsBuilder" rfl
  rw [hbody] at hbt
  refine ⟨r, args, [], rfl, pageTransition_eq ht hgap hbuilder hbt hduration hdt, ?_⟩
  rw [hchild]
  exact hshows

theorem reads_pageCall {t : Transition} (ht : t.Portable) {c : String}
    (hc : isCapitalized c = true) :
    Reads (aroundPage (pageCall t c)) (IsPage t c) := by
  have hlisting := listing_lines isIndent_step (phrase_pageArguments ht hc) (List.cons_ne_nil _ _)
  have hcall : Reads (pageCall t c) (IsCall "CustomTransitionPage" (pageSpecs t c)) :=
    reads_call (by decide) hlisting "\n" (by decide)
  refine (reads_aroundPage hcall).imp fun e he => ?_
  obtain ⟨r, params, body, -, rfl, hbody, -, -⟩ := he
  obtain ⟨r', args, comments, rfl, hpage, hshown⟩ := isPage_of_isCall ht hbody
  exact ⟨r, params, r', args, comments, none, rfl, hpage, hshown⟩

theorem trimStart_transitionBuilder {t : Transition} (ht : t.Portable) :
    trimStart (indentLines step (transitionBuilder t step)) =
      builderHead ++ ("\n" ++ (step ++ (step ++ transitionBody t))) := by
  have hbody : '\n' ∉ (step ++ transitionBody t).toList := by
    rw [String.toList_append, List.mem_append, not_or]
    exact ⟨by decide, newline_not_mem_transitionBody ht⟩
  have hhead : '\n' ∉ builderHead.toList := by decide +kernel
  have hfirst : builderHead.toList.head? = some '(' := by decide +kernel
  have hblank : ∀ c ∈ (builderHead ++ ("\n" ++ (step ++ (step ++ transitionBody t)))).toList.head?,
      isBlank c = false := by
    intro c hc
    rw [head_of_append hfirst c hc]
    rfl
  rw [transitionBuilder_eq, String.append_assoc, indentLines_append_newline,
    indentLines_of_inline hhead (by decide), indentLines_of_inline hbody (by simp [step])]
  simp only [String.append_assoc]
  exact trimStart_append (by decide) hblank

theorem indentLines_inlineArgument {a : String} (h : '\n' ∉ a.toList) :
    indentLines step (a ++ ",") = step ++ (a ++ ",") :=
  indentLines_of_inline (by simpa using h) (by simp)

theorem indentLines_transition {t : Transition} (ht : t.Portable) :
    indentLines step
      ("transitionsBuilder" ++ ": " ++ (builderHead ++ ("\n" ++ step ++ transitionBody t)) ++
      ",") = step ++ ("transitionsBuilder: " ++ (builderHead ++ ("\n" ++ (step ++ (step ++
        (transitionBody t ++ ",")))))) := by
  have hbody : '\n' ∉ (step ++ transitionBody t ++ ",").toList := by
    simp only [String.toList_append, List.mem_append, not_or]
    exact ⟨⟨by decide, newline_not_mem_transitionBody ht⟩, by decide⟩
  have hhead : '\n' ∉ ("transitionsBuilder: " ++ builderHead).toList := by decide +kernel
  have htext :
      "transitionsBuilder" ++ ": " ++ (builderHead ++ ("\n" ++ step ++ transitionBody t)) ++ "," =
      ("transitionsBuilder: " ++ builderHead) ++ "\n" ++ (step ++ transitionBody t ++ ",") := by
    simp only [String.append_assoc]
    rfl
  rw [htext, indentLines_append_newline, indentLines_of_inline hhead (by decide +kernel),
    indentLines_of_inline hbody (by simp [step])]
  simp only [String.append_assoc]

set_option maxRecDepth 4000 in
theorem pageBuilder_eq {t : Transition} (ht : t.Portable) {c : String}
    (hc : isCapitalized c = true) :
    pageBuilder t (c ++ "()") step = "pageBuilder" ++ ": " ++ aroundPage (pageCall t c) ++ "," := by
  have hname := newline_not_mem_of_isName (isCallable_iff.1 (isCallable_of_isCapitalized hc)).1
  have hkey :=
    indentLines_inlineArgument (a := "key" ++ ": " ++ ("state" ++ "." ++ "pageKey")) (by decide)
  have hchild :=
    indentLines_inlineArgument (a := "child" ++ ": " ++ (c ++ "()")) (by simpa using hname)
  have hduration := indentLines_inlineArgument
    (a := "transitionDuration" ++ ": " ++ durationText t.duration) (by
      unfold durationText
      simpa using newline_not_mem_showInt t.duration)
  unfold pageBuilder aroundPage pageCall pageArguments
  rw [if_neg (by simpa using ht.effect.2), trimStart_transitionBuilder ht]
  simp only [List.map_cons, List.map_nil, hkey, hchild, hduration, indentLines_transition ht, join]
  refine String.toList_inj.1 ?_
  unfold durationText closureHead
  simp only [String.toList_append, List.append_assoc]
  repeat rw [String.toList_ofList]
  rfl

end WidgetBridge.Route
