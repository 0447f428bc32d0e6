import WidgetBridge.Proofs.Number.Numeral
import WidgetBridge.Proofs.Text.Pattern
import WidgetBridge.Proofs.WidgetGrammar.Outline
import WidgetBridge.Route.WidgetRouter

/-!
# What is recognised in written pages

The guards of a redirection and the transition of a page are found in the source of closures, by
patterns.  Here the patterns are followed through the source that is written:

* `redirectGuards_eq` gives back the names of guards;
* `pageTransition_eq` gives back the transition of a page, whatever gap stands behind the arrow.
-/

namespace WidgetBridge.Route

open WidgetBridge.Text WidgetBridge.Text.Pattern WidgetBridge.Number WidgetBridge.WidgetGrammar

/-! ## Names -/

/-- Whether a text is an identifier: ASCII letters, digits and `_`, with no digit in front. -/
def isIdentifier (s : String) : Bool := isName s && !s.toList.contains '$'

theorem isName_of_isIdentifier {s : String} (h : isIdentifier s = true) : isName s = true := by
  rw [isIdentifier, Bool.and_eq_true] at h
  exact h.1

/-- The component of a page is written as a call. -/
theorem dottedName_matchesStart {s : String} (h : isName s = true) :
    Form.dottedName.matchesStart s = true := by
  obtain ⟨c, cs, hs, hc, hcs⟩ := isName_iff.1 h
  have hrest : Takes Form.dottedRest cs [] [] := takes_many (fun d hd => by
    rw [isWord_of_isNameChar (hcs d hd)]
    rfl) (by simp)
  have hname : Takes (char isNameStart ++ (Form.dottedRest ++ textEnd)) (c :: cs) [] [] := by
    have hend : Takes (Form.dottedRest ++ textEnd) cs [] [] := by
      simpa using hrest.seq takes_textEnd
    simpa using (takes_char hc (cs ++ [])).seq hend
  have hrun := hname [] 0 [] some _ rfl
  have hstart : run Form.dottedName ⟨[], c :: cs, 0, []⟩ some =
      run (char isNameStart ++ (Form.dottedRest ++ textEnd)) ⟨[], c :: cs ++ [], 0, []⟩ some := by
    simp only [List.append_nil]
    rfl
  rw [matchesStart, matchStart?, matchAt?, hs, hstart, hrun]
  rfl

/-! ## Guards of a redirection -/

theorem escapeChar_of_isNameChar {c : Char} (h : isNameChar c = true) (hd : c ≠ '$') :
    escapeChar c = [c] := by
  have hall : ∀ d ∈ ['\\', '\'', '\n', '\r', '\t'], isNameChar d = false :=
    forall_mem_of_all (by decide)
  have hne : ∀ d ∈ ['\\', '\'', '\n', '\r', '\t'], c ≠ d := by
    rintro d hm rfl
    rw [hall c hm] at h
    cases h
  simp only [List.mem_cons, List.not_mem_nil, or_false, forall_eq_or_imp, forall_eq] at hne
  simp [escapeChar, hd, hne]

theorem string_of_isIdentifier {s : String} (h : isIdentifier s = true) :
    WidgetGrammar.string s = "'" ++ s ++ "'" := by
  have hchars : s.toList.flatMap escapeChar = s.toList := by
    rw [isIdentifier, Bool.and_eq_true] at h
    have hne : '$' ∉ s.toList := by simpa using h.2
    have hall : ∀ c ∈ s.toList, escapeChar c = [c] := fun c hc =>
      escapeChar_of_isNameChar (isNameChar_of_isName h.1 hc) (by rintro rfl; exact hne hc)
    rw [List.flatMap_congr hall]
    simp
  rw [← String.toList_inj]
  simp [WidgetGrammar.string, hchars]

theorem takes_quotedName {s : String} (h : isName s = true) (rest : List Char) :
    Takes Form.quotedName ("'" ++ s ++ "'").toList rest [(1, s.toList)] := by
  have hname : Takes (many (noneOf "'")) s.toList ("'".toList ++ rest) [] := by
    refine takes_many (fun c hc => ?_) ?_
    · have : c ≠ '\'' := by
        rintro rfl
        exact not_mem_of_isName h (by decide) hc
      simpa using this
    · intro d hd
      have hd : '\'' = d := by simpa using hd
      simp [← hd]
  have hquoted := ((takes_lit "'" _).seq (hname.group 1)).seq (takes_lit "'" rest)
  have htaken : Takes Form.quotedName ("'".toList ++ s.toList ++ "'".toList) rest
      ([] ++ ([(1, s.toList)] ++ [])) := hquoted.orElse _
  simpa using htaken

theorem passes_quotedName : Passes Form.quotedName ", ".toList := by
  refine passes_of_forall fun c hc rest => ?_
  have hdiffer : ∀ c ∈ ", ".toList, differ "'".toList [c] = true ∧ differ "\"".toList [c] = true :=
    forall_mem_of_all (by decide)
  have hc := hdiffer c hc
  have hsingle := refuses_lit (differ_append hc.1 rest)
  have hdouble := refuses_lit (differ_append hc.2 rest)
  exact ((hsingle.seq _).seq _).orElse ((hdouble.seq _).seq _)

/-- The text that a match of a quoted name stands for. -/
def quotedText (m : Match) : String := if (m.get 1).isEmpty then m.get 2 else m.get 1

theorem quotedText_eq {m : Match} {s : String} (hs : s ≠ "") (h : m.groups = [(1, s.toList)]) :
    quotedText m = s := by
  have hget : m.get 1 = s := by simp [Match.get, Match.group?, h]
  simp [quotedText, hget, hs]

theorem allFrom_quotedName {names : List String} (h : ∀ n ∈ names, isIdentifier n = true)
    {gap : List Char} (hgap : Passes Form.quotedName gap) {fuel : Nat} (hf : names.length ≤ fuel)
    (hne : names ≠ []) (before : List Char) (position : Nat) :
    (allFrom Form.quotedName fuel before position
      (gap ++ (join ", " (names.map WidgetGrammar.string)).toList)).map quotedText = names := by
  induction names generalizing gap fuel before position with
  | nil => exact absurd rfl hne
  | cons n names ih =>
    have hid := h n List.mem_cons_self
    have hn := isName_of_isIdentifier hid
    have hquoted : ("'" ++ n ++ "'").toList ≠ [] := by simp
    rw [List.length_cons] at hf
    obtain ⟨fuel, rfl⟩ : ∃ m, fuel = m + 1 := ⟨fuel - 1, by omega⟩
    cases names with
    | nil =>
      obtain ⟨before', position', hall⟩ := allFrom_cons hgap (takes_quotedName hn []) hquoted fuel
        before position
      rw [List.append_nil] at hall
      have hend : Refuses Form.quotedName [] :=
        Refuses.orElse (((refuses_nil_lit (by decide)).seq _).seq _)
          (((refuses_nil_lit (by decide)).seq _).seq _)
      rw [List.map_cons, List.map_nil, join, string_of_isIdentifier hid, hall,
        allFrom_eq_nil (passes_nil Form.quotedName) hend, List.map_cons, List.map_nil,
        quotedText_eq (ne_empty_of_isName hn) rfl]
    | cons m names =>
      obtain ⟨before', position', hall⟩ := allFrom_cons hgap (takes_quotedName hn
        (", ".toList ++ (join ", " ((m :: names).map WidgetGrammar.string)).toList)) hquoted fuel
        before position
      have hnext := ih (fun n hm => h n (List.mem_cons_of_mem _ hm)) passes_quotedName
        (by omega : (m :: names).length ≤ fuel) (List.cons_ne_nil _ _) before' position'
      have htext : (join ", " ((n :: m :: names).map WidgetGrammar.string)).toList =
          ("'" ++ n ++ "'").toList ++
            (", ".toList ++ (join ", " ((m :: names).map WidgetGrammar.string)).toList) := by
        rw [List.map_cons, List.map_cons, join_cons_cons, string_of_isIdentifier hid]
        simp only [String.toList_append, List.append_assoc]
      rw [htext, hall, List.map_cons, hnext, quotedText_eq (ne_empty_of_isName hn) rfl]

theorem length_le_length_join {names : List String} (h : ∀ n ∈ names, isIdentifier n = true) :
    names.length ≤ (join ", " (names.map WidgetGrammar.string)).toList.length := by
  induction names with
  | nil => exact Nat.zero_le _
  | cons n names ih =>
    have hn := string_of_isIdentifier (h n List.mem_cons_self)
    have ih := ih fun m hm => h m (List.mem_cons_of_mem _ hm)
    cases names with
    | nil => simp [join, hn]
    | cons m names =>
      rw [List.map_cons, List.map_cons, join_cons_cons, String.toList_append, String.toList_append,
        List.length_append, List.length_append, ← List.map_cons, List.length_cons]
      have : 2 = (", " : String).toList.length := rfl
      omega

/-- The redirection that runs guards. -/
def redirection (names : List String) : String :=
  "(context, state) => runGuards(const [" ++
    join ", " (names.map WidgetGrammar.string) ++ "], state)"

/-- Names in quotes, with commas between them, have no further characters. -/
theorem not_mem_join_names {names : List String} (h : ∀ n ∈ names, isIdentifier n = true) {c : Char}
    (hname : isNameChar c = false) (hc : c ∉ [',', ' ', '\'']) :
    c ∉ (join ", " (names.map WidgetGrammar.string)).toList := by
  simp only [List.mem_cons, List.not_mem_nil, or_false, not_or] at hc
  intro hm
  rcases mem_or_mem_of_mem_join hm with hm | ⟨s, hs, hm⟩
  · simp [hc] at hm
  · obtain ⟨n, hn, rfl⟩ := List.mem_map.1 hs
    rw [string_of_isIdentifier (h n hn)] at hm
    have hm : c ∈ n.toList := by simpa [hc] using hm
    exact not_mem_of_isName (isName_of_isIdentifier (h n hn)) hname hm

theorem takes_guardList {inner : List Char} (h : ']' ∉ inner) (rest : List Char) :
    Takes Form.guardList ("runGuards(".toList ++ ("const".toList ++ [' ']) ++ "[".toList ++
      (inner ++ "]".toList)) rest [(1, inner)] := by
  have hskip : skips "]".toList inner = true := skips_of_not_mem [] h
  have hlist : Takes (group 1 (few any) ++ lit "]") (inner ++ "]".toList) rest [(1, inner)] :=
    takes_few_until (passes_lit hskip) (takes_lit "]" rest) 1
  have hbracket := takes_lit "[" (inner ++ "]".toList ++ rest)
  have hconst : Takes (opt (lit "const" ++ blanks)) ("const".toList ++ [' '])
      ("[".toList ++ (inner ++ "]".toList ++ rest)) [] :=
    ((takes_lit "const" _).seq (takes_blanks_space (by simp; decide))).opt (by simp)
  have hopen : Takes (lit "runGuards(" ++ blanks) ("runGuards(".toList ++ [])
      ("const".toList ++ [' '] ++ ("[".toList ++ (inner ++ "]".toList ++ rest))) [] :=
    (takes_lit "runGuards(" _).seq (takes_blanks_nil (by simp; decide))
  rw [List.append_nil] at hopen
  exact ((hopen.seq hconst).seq hbracket).seq hlist

theorem toList_redirection (inner : String) :
    ("(context, state) => runGuards(const [" ++ inner ++ "], state)").toList =
      "(context, state) => ".toList ++ (("runGuards(".toList ++ ("const".toList ++ [' ']) ++
        "[".toList ++ (inner.toList ++ "]".toList)) ++ ", state)".toList) := by
  simp

/-- Guards are read from a redirection as they are written there. -/
theorem redirectGuards_eq {e : Expr} {names : List String} (h : ∀ n ∈ names, isIdentifier n = true)
    (hne : names ≠ []) (he : e.text = redirection names) : redirectGuards (some e) = names := by
  have htext := (congrArg String.toList he).trans (toList_redirection _)
  have hpass : Passes Form.guardList "(context, state) => ".toList := by
    have hlit : Passes (lit "runGuards(") "(context, state) => ".toList :=
      passes_lit (skips_ofList rfl)
    exact ((((hlit.seq _).seq _).seq _).seq _).seq _
  have hsearch :=
    search?_eq_some htext hpass (takes_guardList (not_mem_join_names h (by decide) (by decide)) _)
  have hnames := allFrom_quotedName h (passes_nil Form.quotedName)
    (Nat.le_succ_of_le (length_le_length_join h)) hne [] 0
  rw [List.nil_append, String.length_toList] at hnames
  simp only [redirectGuards, Option.bind_some, hsearch, findAll, Match.get, Match.group?,
    List.lookup_cons, beq_self_eq_true, Option.map_some, Option.getD_some, String.ofList_toList]
  exact hnames

/-! ## Transitions -/

/-- The transitions that keep everything when they are written: an effect other than those of the
platform, a length, and a known easing. -/
structure Transition.Portable (t : Transition) : Prop where
  effect : t.effect ≠ .platformDefault ∧ t.effect ≠ .none
  duration : 0 ≤ t.duration
  easing : t.easing ∈ Motion.easings.keys

/-- The parameters of the builder of a transition. -/
def builderHead : String := "(context, animation, secondaryAnimation, child) =>"

/-- The animation that a curve drives. -/
def animation (curve : String) : String :=
  "CurvedAnimation(parent: animation, curve: Curves." ++ curve ++ ")"

/-- The source of a transition before its animation. -/
def transitionHead : Effect → String
  | .fade => "FadeTransition(opacity: "
  | .scale => "ScaleTransition(scale: "
  | e => "SlideTransition(position: Tween<Offset>(begin: const " ++ slideOrigin e ++
      ", end: Offset.zero).animate("

/-- The source of a transition after its animation. -/
def transitionTail : Effect → String
  | .fade => ", child: child)"
  | .scale => ", child: child)"
  | _ => "), child: child)"

/-- The source of a transition. -/
def transitionBody (t : Transition) : String :=
  transitionHead t.effect ++ animation (Motion.curveOf t.easing) ++ transitionTail t.effect

theorem transitionBuilder_eq (t : Transition) (indent : String) :
    transitionBuilder t indent = builderHead ++ "\n" ++ indent ++ transitionBody t := by
  have hhead : "(context, animation, secondaryAnimation, child) =>\n" = builderHead ++ "\n" := by
    decide
  have hbody : transitionBuilder t indent =
      "(context, animation, secondaryAnimation, child) =>\n" ++ (indent ++ transitionBody t) := by
    obtain ⟨effect, duration, easing⟩ := t
    cases effect <;>
      dsimp only [transitionBuilder, transitionBody, transitionHead, transitionTail, animation] <;>
      simp only [String.append_assoc]
  calc transitionBuilder t indent
    _ = "(context, animation, secondaryAnimation, child) =>\n" ++ (indent ++ transitionBody t) :=
      hbody
    _ = builderHead ++ "\n" ++ (indent ++ transitionBody t) :=
      congrArg (· ++ (indent ++ transitionBody t)) hhead
    _ = builderHead ++ "\n" ++ indent ++ transitionBody t := (String.append_assoc ..).symm

/-- The source of a slide before the place where it starts. -/
def slideHead : String := "SlideTransition(position: Tween<Offset>(begin: const "

/-- The source of a slide after the place where it starts. -/
def slideRest : String := ", end: Offset.zero).animate("

theorem transitionHead_slide {e : Effect} (h : e ≠ .fade ∧ e ≠ .scale) :
    transitionHead e = slideHead ++ slideOrigin e ++ slideRest := by
  cases e <;> first | rfl | exact absurd rfl h.1 | exact absurd rfl h.2

theorem skips_slide {pat : String} (hhead : skips pat.toList slideHead.toList = true)
    (horigin : ∀ e, skips pat.toList (slideOrigin e).toList = true)
    (hrest : skips pat.toList slideRest.toList = true) {e : Effect} (h : e ≠ .fade ∧ e ≠ .scale) :
    skips pat.toList (transitionHead e).toList = true := by
  rw [transitionHead_slide h, String.toList_append, String.toList_append]
  exact skips_append (skips_append hhead (horigin e)) hrest

/-- A known easing is read from its curve, whose name is one word. -/
theorem easing_curve {easing : String} (h : easing ∈ Motion.easings.keys) :
    Motion.easingOf (Motion.curveOf easing) = easing ∧ isName (Motion.curveOf easing) = true ∧
      ∀ c ∈ (Motion.curveOf easing).toList, isWord c = true ∧ c ≠ 'F' ∧ c ≠ 'S' := by
  have hall : ∀ e ∈ Motion.easings, Motion.easingOf (Motion.curveOf e.1) = e.1 ∧
      isName (Motion.curveOf e.1) = true ∧ (Motion.curveOf e.1).toList.all
        (fun c => decide (isWord c = true ∧ c ≠ 'F' ∧ c ≠ 'S')) = true := by
    decide +kernel
  obtain ⟨e, he, rfl⟩ := List.mem_map.1 h
  obtain ⟨heasing, hname, hword⟩ := hall e he
  exact ⟨heasing, hname, forall_mem_of_all hword⟩

/-- The source of an animation up to its curve. -/
def animationHead : String := "CurvedAnimation(parent: animation, curve: "

section Builder

variable {t : Transition} {gap : String}

theorem skips_gap {c : Char} (hc : c ≠ ' ' ∧ c ≠ '\n') (cs : List Char) (hg : isGap gap = true) :
    skips (c :: cs) gap.toList = true := by
  refine skips_of_not_mem cs fun hm => ?_
  have := List.all_eq_true.1 hg c hm
  simp [hc] at this

theorem toList_builder (t : Transition) (gap : String) :
    (builderHead ++ gap ++ transitionBody t).toList = builderHead.toList ++ (gap.toList ++
      ((transitionHead t.effect).toList ++ (animationHead.toList ++ ("Curves.".toList ++
        ((Motion.curveOf t.easing).toList ++
          (")".toList ++ (transitionTail t.effect).toList)))))) := by
  have hanimation : animation (Motion.curveOf t.easing) =
      animationHead ++ "Curves." ++ Motion.curveOf t.easing ++ ")" :=
    congrArg (· ++ Motion.curveOf t.easing ++ ")") (by decide)
  rw [transitionBody, hanimation]
  simp only [String.toList_append, List.append_assoc]

/-- The names of effects stand at most in the head of a builder. -/
theorem occursIn_builder_eq_false {pat : String}
    (hpat : pat = "FadeTransition" ∨ pat = "ScaleTransition") (ht : t.Portable)
    (hg : isGap gap = true) (hhead : skips pat.toList (transitionHead t.effect).toList = true) :
    occursIn pat (builderHead ++ gap ++ transitionBody t) = false := by
  obtain ⟨-, -, hcurve⟩ := easing_curve ht.easing
  have htail : skips pat.toList (transitionTail t.effect).toList = true := by
    rcases hpat with rfl | rfl <;> cases t.effect <;> exact skips_ofList rfl
  refine occursIn_eq_false (by rcases hpat with rfl | rfl <;> decide) ?_
  rw [toList_builder]
  rcases hpat with rfl | rfl
  · exact skips_append (skips_ofList rfl) (skips_append (skips_gap (by decide) _ hg)
      (skips_append hhead (skips_append (skips_ofList rfl) (skips_append (skips_ofList rfl)
        (skips_append (skips_of_not_mem _ fun hc => (hcurve _ hc).2.1 rfl)
          (skips_append (skips_ofList rfl) htail))))))
  · exact skips_append (skips_ofList rfl) (skips_append (skips_gap (by decide) _ hg)
      (skips_append hhead (skips_append (skips_ofList rfl) (skips_append (skips_ofList rfl)
        (skips_append (skips_of_not_mem _ fun hc => (hcurve _ hc).2.2 rfl)
          (skips_append (skips_ofList rfl) htail))))))

theorem occursIn_builder (gap : String) {name rest : String}
    (h : transitionHead t.effect = name ++ rest) :
    occursIn name (builderHead ++ gap ++ transitionBody t) = true := by
  have htext : builderHead ++ gap ++ transitionBody t = (builderHead ++ gap) ++ name ++
      (rest ++ animation (Motion.curveOf t.easing) ++ transitionTail t.effect) := by
    simp only [transitionBody, h, String.append_assoc]
  rw [htext]
  exact occursIn_append _ _ _

/-- The curve of a transition is found in its builder. -/
theorem curve_search (ht : t.Portable) (hg : isGap gap = true) : ∃ m,
    Form.curve.search? (builderHead ++ gap ++ transitionBody t) = some m ∧
      Motion.easingOf (m.get 1) = t.easing := by
  obtain ⟨heasing, hname, hword⟩ := easing_curve ht.easing
  have hne := ne_empty_of_isName hname
  have hslide : ∀ e, skips "Curves.".toList (slideOrigin e).toList = true := fun e => by
    cases e <;> exact skips_ofList rfl
  have hhead : skips "Curves.".toList (transitionHead t.effect).toList = true := by
    by_cases hf : t.effect = .fade
    · rw [hf]
      exact skips_ofList rfl
    by_cases hs : t.effect = .scale
    · rw [hs]
      exact skips_ofList rfl
    · exact skips_slide (skips_ofList rfl) hslide (skips_ofList rfl) ⟨hf, hs⟩
  have hskip : skips "Curves.".toList (builderHead.toList ++ (gap.toList ++
      ((transitionHead t.effect).toList ++ animationHead.toList))) = true :=
    skips_append (skips_ofList rfl) (skips_append (skips_gap (by decide) _ hg)
      (skips_append hhead (skips_ofList rfl)))
  have hpass : Passes Form.curve _ := (passes_lit hskip).seq _
  have htaken : Takes Form.curve ("Curves.".toList ++ (Motion.curveOf t.easing).toList)
      (")".toList ++ (transitionTail t.effect).toList) [(1, (Motion.curveOf t.easing).toList)] := by
    have hwords : Takes words1 (Motion.curveOf t.easing).toList
        (")".toList ++ (transitionTail t.effect).toList) [] :=
      takes_many1 (by simpa using hne) (fun c hc => (hword c hc).1) (by simp; decide)
    exact (takes_lit "Curves." _).seq (hwords.group 1)
  refine ⟨_, search?_eq_some ?_ hpass htaken, ?_⟩
  · rw [toList_builder]
    simp only [List.append_assoc]
  · simpa [Match.get, Match.group?] using heasing

/-! ### Where a slide starts -/

/-- Whether a character is part of a number without sign. -/
def isFigure (c : Char) : Bool := isDecimal c || c == '.'

/-- Whether a text is a number without sign. -/
def isUnsigned (s : String) : Bool :=
  s.toList.head?.any (fun c => !isBlank c && c != '-') && s.toList.all isFigure

theorem isUnsigned_iff {s : String} : isUnsigned s = true ↔
    ∃ c cs, s.toList = c :: cs ∧ isBlank c = false ∧ c ≠ '-' ∧
      ∀ d ∈ s.toList, isFigure d = true := by
  rw [isUnsigned, Bool.and_eq_true, List.all_eq_true]
  cases s.toList <;> simp [and_assoc]

theorem takes_figures {s : String} (hs : isUnsigned s = true) {rest : List Char}
    (hr : ∀ d ∈ rest.head?, d = ',' ∨ d = ')') :
    Takes (many1 (char isFigure)) s.toList rest [] := by
  obtain ⟨c, cs, hcs, -, -, hall⟩ := isUnsigned_iff.1 hs
  refine takes_many1 (by simp [hcs]) hall fun d hd => ?_
  rcases hr d hd with rfl | rfl <;> decide

/-- A text that is read as a coordinate in front of a separator. -/
structure IsCoordinate (s : String) : Prop where
  head : ∀ rest : List Char, ∀ d ∈ (s.toList ++ rest).head?, isBlank d = false
  taken : ∀ rest : List Char, (∀ d ∈ rest.head?, d = ',' ∨ d = ')') →
    Takes Form.coordinate s.toList rest []

theorem isCoordinate_of_isUnsigned {s : String} (hs : isUnsigned s = true) : IsCoordinate s := by
  obtain ⟨c, cs, hcs, hblank, hsign, -⟩ := isUnsigned_iff.1 hs
  refine ⟨fun rest d hd => ?_, fun rest hr => ?_⟩
  · rw [hcs, List.cons_append, List.head?_cons, Option.mem_def, Option.some.injEq] at hd
    exact hd ▸ hblank
  · have hminus : Refuses (lit "-") (s.toList ++ rest) :=
      refuses_lit (by simp [hcs, differ, Ne.symm hsign])
    exact (takes_opt_nil hminus).seq (takes_figures hs hr)

theorem isCoordinate_negative {s : String} (hs : isUnsigned s = true) :
    IsCoordinate ("-" ++ s) := by
  refine ⟨fun rest d hd => ?_, fun rest hr => ?_⟩
  · have hd : '-' = d := by simpa using hd
    exact hd ▸ rfl
  · rw [String.toList_append]
    exact ((takes_lit "-" _).opt (by simp)).seq (takes_figures hs hr)

theorem takes_offset {x y : String} (hx : IsCoordinate x) (hy : IsCoordinate y) (rest : List Char) :
    Takes Form.offset
      ("Offset(".toList ++ x.toList ++ ",".toList ++ [' '] ++ y.toList ++ ")".toList)
      rest [(2, y.toList), (1, x.toList)] := by
  have hclose := takes_lit ")" rest
  have hgap₄ : Takes blanks [] (")".toList ++ rest) [] := takes_blanks_nil (by simp; decide)
  have hsecond := (hy.taken (")".toList ++ rest) (by simp)).group 2
  have hgap₃ : Takes blanks [' '] (y.toList ++ (")".toList ++ rest)) [] :=
    takes_blanks_space (hy.head _)
  have hcomma := takes_lit "," ([' '] ++ (y.toList ++ (")".toList ++ rest)))
  have hgap₂ : Takes blanks [] (",".toList ++ ([' '] ++ (y.toList ++ (")".toList ++ rest)))) [] :=
    takes_blanks_nil (by simp; decide)
  have hfirst :=
    (hx.taken (",".toList ++ ([' '] ++ (y.toList ++ (")".toList ++ rest)))) (by simp)).group 1
  have hgap₁ : Takes blanks []
      (x.toList ++ (",".toList ++ ([' '] ++ (y.toList ++ (")".toList ++ rest))))) [] :=
    takes_blanks_nil (hx.head _)
  exact ((((((((takes_lit "Offset(" _).seq_nil hgap₁).seq hfirst).seq_nil hgap₂).seq hcomma).seq
    hgap₃).seq hsecond).seq_nil hgap₄).seq hclose

theorem milliseconds_search {n : Nat} {s : String}
    (hs : s = "const Duration(milliseconds: " ++ showInt n ++ ")") :
    ((Form.milliseconds.search? s).bind fun m => readInt? (m.get 1)) = some (n : Int) := by
  have htext : s.toList =
      "const ".toList ++ (("Duration(".toList ++ "milliseconds:".toList ++ [' '] ++
      digitsOf n ++ ")".toList) ++ []) := by
    have hint : (showInt n).toList = digitsOf n := String.toList_ofList
    rw [hs, String.toList_append, String.toList_append, hint]
    simp
  have hskip : skips "Duration(".toList "const ".toList = true := skips_ofList rfl
  have hpass : Passes Form.milliseconds "const ".toList :=
    ((((((passes_lit hskip).seq _).seq _).seq _).seq _).seq _).seq _
  have hdigit : ∀ c ∈ digitsOf n, isDigit c = true := fun c hc => isDigit_of_mem_digitsOf hc
  have hclose := takes_lit ")" []
  have hgap₃ : Takes blanks [] (")".toList ++ []) [] := takes_blanks_nil (by simp; decide)
  have hdigits : Takes (group 1 (many1 digit)) (digitsOf n) (")".toList ++ []) [(1, digitsOf n)] :=
    (takes_many1 (digitsOf_ne_nil n) (fun c hc => isDecimal_of_isDigit (hdigit c hc))
      (by simp; decide)).group 1
  have hgap₂ : Takes blanks [' '] (digitsOf n ++ (")".toList ++ [])) [] := by
    obtain ⟨c, cs, hcs⟩ := List.exists_cons_of_ne_nil (digitsOf_ne_nil n)
    refine takes_blanks_space ?_
    rw [hcs, List.cons_append, List.head?_cons]
    intro d hd
    rw [Option.mem_def, Option.some.injEq] at hd
    subst hd
    exact not_isBlank_of_isNameChar (isNameChar_of_isDigit (hdigit _ (by simp [hcs])))
  have hunit := takes_lit "milliseconds:" ([' '] ++ (digitsOf n ++ (")".toList ++ [])))
  have hgap₁ : Takes blanks []
      ("milliseconds:".toList ++ ([' '] ++ (digitsOf n ++ (")".toList ++ [])))) [] :=
    takes_blanks_nil (by simp; decide)
  have htaken :=
    ((((((takes_lit "Duration(" _).seq_nil hgap₁).seq hunit).seq hgap₂).seq hdigits).seq_nil
    hgap₃).seq hclose
  have hsearch : Form.milliseconds.search? s = _ := search?_eq_some htext hpass htaken
  rw [hsearch, Option.bind_some]
  exact readInt?_digits n

/-- The source of an offset. -/
def offsetText (x y : String) : List Char :=
  "Offset(".toList ++ x.toList ++ ",".toList ++ [' '] ++ y.toList ++ ")".toList

/-- Of a source only its first offset counts. -/
theorem slideEffect_offset {x y : String} (hx : IsCoordinate x) (hy : IsCoordinate y) {s : String}
    {before rest : List Char} (hs : s.toList = before ++ (offsetText x y ++ rest))
    (hb : skips "Offset(".toList before = true) :
    slideEffect s = slideEffect (String.ofList (offsetText x y)) := by
  have hpass : ∀ {cs : List Char}, skips "Offset(".toList cs = true → Passes Form.offset cs :=
    fun h => ((((((((passes_lit h).seq _).seq _).seq _).seq _).seq _).seq _).seq _).seq _
  have hfound := search?_eq_some hs (hpass hb) (takes_offset hx hy rest)
  have halone : (String.ofList (offsetText x y)).toList = [] ++ (offsetText x y ++ []) := by
    rw [String.toList_ofList, List.nil_append, List.append_nil]
  have hself := search?_eq_some halone (passes_nil _) (takes_offset hx hy [])
  rw [slideEffect, slideEffect, hfound, hself]
  rfl

theorem eq_ok_of_toOption {α : Type} {x : Attempt α} {a : α} (h : x.toOption = some a) :
    x = .ok a := by
  cases x with
  | error f => cases h
  | ok b => exact congrArg Except.ok (Option.some.inj h)

theorem slideOrigin_eq {e : Effect} (h : e ≠ .fade ∧ e ≠ .scale)
    (h' : e ≠ .platformDefault ∧ e ≠ .none) : ∃ x y, IsCoordinate x ∧ IsCoordinate y ∧
      (slideOrigin e).toList = offsetText x y ∧ slideEffect (slideOrigin e) = .ok e := by
  have hone : IsCoordinate "1.0" := isCoordinate_of_isUnsigned (by decide +kernel)
  have hzero : IsCoordinate "0.0" := isCoordinate_of_isUnsigned (by decide +kernel)
  have hsome : IsCoordinate "0.3" := isCoordinate_of_isUnsigned (by decide +kernel)
  have hminus : IsCoordinate "-1.0" := isCoordinate_negative (s := "1.0") (by decide +kernel)
  cases e with
  | slideLeft => exact ⟨"1.0", "0.0", hone, hzero, by decide +kernel,
      eq_ok_of_toOption (by decide +kernel)⟩
  | slideRight => exact ⟨"-1.0", "0.0", hminus, hzero, by decide +kernel,
      eq_ok_of_toOption (by decide +kernel)⟩
  | slideUp => exact ⟨"0.0", "1.0", hzero, hone, by decide +kernel,
      eq_ok_of_toOption (by decide +kernel)⟩
  | slideDown => exact ⟨"0.0", "-1.0", hzero, hminus, by decide +kernel,
      eq_ok_of_toOption (by decide +kernel)⟩
  | slide => exact ⟨"0.3", "0.0", hsome, hzero, by decide +kernel,
      eq_ok_of_toOption (by decide +kernel)⟩
  | fade => exact absurd rfl h.1
  | scale => exact absurd rfl h.2
  | platformDefault => exact absurd rfl h'.1
  | none => exact absurd rfl h'.2

theorem slideEffect_eq (he : t.effect ≠ .fade ∧ t.effect ≠ .scale) (ht : t.Portable)
    (hg : isGap gap = true) :
    slideEffect (builderHead ++ gap ++ transitionBody t) = .ok t.effect := by
  obtain ⟨x, y, hx, hy, htext, heffect⟩ := slideOrigin_eq he ht.effect
  have hskip : skips "Offset(".toList (builderHead ++ gap ++ slideHead).toList = true := by
    rw [String.toList_append, String.toList_append]
    exact skips_append (skips_append (skips_ofList rfl) (skips_gap (by decide) _ hg))
      (skips_ofList rfl)
  have hsource : (builderHead ++ gap ++ transitionBody t).toList =
      (builderHead ++ gap ++ slideHead).toList ++ (offsetText x y ++
        (slideRest ++ animation (Motion.curveOf t.easing) ++ transitionTail t.effect).toList) := by
    rw [transitionBody, transitionHead_slide he, ← htext]
    simp only [String.toList_append, List.append_assoc]
  rw [slideEffect_offset hx hy hsource hskip, ← htext, String.ofList_toList, heffect]

/-- A transition is read from its page as it is written there. -/
theorem pageTransition_eq (ht : t.Portable) (hg : isGap gap = true)
    {args : List (Option String × Expr)} {builder duration : Expr}
    (hb : Expr.named? args "transitionsBuilder" = some builder)
    (hbt : builder.text = builderHead ++ gap ++ transitionBody t)
    (hd : Expr.named? args "transitionDuration" = some duration)
    (hdt : duration.text = "const Duration(milliseconds: " ++ showInt t.duration ++ ")") :
    pageTransition "CustomTransitionPage" args = .ok (some t) := by
  obtain ⟨m, hm, heasing⟩ := curve_search ht hg
  obtain ⟨n, hn⟩ := Int.eq_ofNat_of_zero_le ht.duration
  rw [hn] at hdt
  have hduration := milliseconds_search hdt
  have horigin : ∀ pat, pat = "FadeTransition" ∨ pat = "ScaleTransition" →
      ∀ e, skips pat.toList (slideOrigin e).toList = true := by
    rintro pat (rfl | rfl) e <;> cases e <;> exact skips_ofList rfl
  unfold pageTransition
  rw [if_neg (by decide), hb, hd]
  simp only [hbt, Option.bind_some, hduration, hm, Option.map_some, Option.getD_some, heasing, ← hn]
  by_cases hf : t.effect = .fade
  · have hname : transitionHead t.effect = "FadeTransition" ++ "(opacity: " := by
      rw [hf]
      decide
    rw [if_pos (occursIn_builder gap hname), ← hf]
    rfl
  by_cases hs : t.effect = .scale
  · have hname : transitionHead t.effect = "ScaleTransition" ++ "(scale: " := by
      rw [hs]
      decide
    have hnot : skips "FadeTransition".toList (transitionHead t.effect).toList = true := by
      rw [hs]
      exact skips_ofList rfl
    rw [if_neg (by simp [occursIn_builder_eq_false (Or.inl rfl) ht hg hnot]),
      if_pos (occursIn_builder gap hname), ← hs]
    rfl
  · have hname : transitionHead t.effect = "SlideTransition" ++
        ("(position: Tween<Offset>(begin: const " ++ slideOrigin t.effect ++ slideRest) := by
      rw [transitionHead_slide ⟨hf, hs⟩]
      exact congrArg (· ++ slideOrigin t.effect ++ slideRest)
        (by decide : slideHead = "SlideTransition" ++ "(position: Tween<Offset>(begin: const ")
    have hnotFade : skips "FadeTransition".toList (transitionHead t.effect).toList = true :=
      skips_slide (skips_ofList rfl) (horigin _ (Or.inl rfl)) (skips_ofList rfl) ⟨hf, hs⟩
    have hnotScale : skips "ScaleTransition".toList (transitionHead t.effect).toList = true :=
      skips_slide (skips_ofList rfl) (horigin _ (Or.inr rfl)) (skips_ofList rfl) ⟨hf, hs⟩
    rw [if_neg (by simp [occursIn_builder_eq_false (Or.inl rfl) ht hg hnotFade]),
      if_neg (by simp [occursIn_builder_eq_false (Or.inr rfl) ht hg hnotScale]),
      if_pos (occursIn_builder gap hname), slideEffect_eq ⟨hf, hs⟩ ht hg]
    rfl

end Builder

end WidgetBridge.Route
