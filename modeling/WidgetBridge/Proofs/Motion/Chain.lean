import WidgetBridge.Proofs.Motion.Builder
import WidgetBridge.Proofs.Motion.Gestures

/-!
# Chains of wrappers

A motion is written as one builder a tween around a child, and a detector of gestures around all of
them. Reading follows such a chain inwards.  Here the two are put together: `Peels` is one wrapper
of a chain, `Unwraps` what is gathered from a chain as a whole, and each wrapper that is written is
a `Peels` around the `Unwraps` of what it holds.

So from the source of colour tweens and gestures around a call, the motion and the source of the
call come back.
-/

namespace WidgetBridge.Motion

open WidgetBridge.Text WidgetBridge.WidgetGrammar

/-! ## Following a chain -/

/-- A wrapper that adds to what is gathered and whose child has a property. -/
def Peels (f : Collected → Collected) (P : Expr → Prop) (e : Expr) : Prop :=
  ∃ r callee typeArgs args comments inner, e = .call r callee typeArgs args comments ∧
    wrapperNames.contains callee = true ∧
      (∀ c : Collected, c.add callee args comments = .ok (some (f c))) ∧
    Expr.named? args "child" = some inner ∧ P inner ∧
    TokenTree.sizeOf' inner.range.trees < TokenTree.sizeOf' r.trees

/-- A chain that adds to what is gathered and ends at an expression with a given source. -/
def Unwraps (out : Collected → Collected) (source : String) (e : Expr) : Prop :=
  ∀ (c : Collected) (fuel : Nat), TokenTree.sizeOf' e.range.trees ≤ fuel →
    ∃ e', followWrappers fuel c e = .ok (out c, some e') ∧ e'.text = source

/-- A call that is no wrapper ends a chain. -/
theorem unwraps_of_callee {callee : String} (hc : callee ∉ wrapperNames) {e : Expr}
    (he : e.callee? = some callee) {source : String} (ht : e.text = source) :
    Unwraps id source e := by
  intro c fuel _
  refine ⟨e, ?_, ht⟩
  cases fuel with
  | zero => rfl
  | succ fuel =>
    cases e with
    | call r name typeArgs args comments =>
      obtain rfl : name = callee := Option.some.inj he
      have hnot : wrapperNames.contains name = false := by simpa using hc
      simp only [followWrappers, hnot, Bool.not_false, if_true, id_eq]
    | _ => cases he

/-- A wrapper makes a chain longer. -/
theorem Peels.unwraps {f out : Collected → Collected} {source : String} {e : Expr}
    (h : Peels f (Unwraps out source) e) : Unwraps (out ∘ f) source e := by
  obtain ⟨r, callee, typeArgs, args, comments, inner, rfl, hwrapper, hadd, hchild, hinner, hsize⟩ :=
    h
  intro c fuel hf
  have hf : TokenTree.sizeOf' r.trees ≤ fuel := hf
  obtain ⟨fuel, rfl⟩ : ∃ n, fuel = n + 1 := ⟨fuel - 1, by omega⟩
  obtain ⟨e', he', ht⟩ := hinner (f c) fuel (by omega)
  refine ⟨e', ?_, ht⟩
  simp only [followWrappers, hwrapper, hadd, hchild, he', Bool.not_true, Bool.false_eq_true,
    if_false, bind, Except.bind, Function.comp_apply]

/-- A whole chain is collapsed onto what it ends at. -/
theorem Peels.ofWrappers {f out : Collected → Collected} {source : String} {e : Expr}
    (h : Peels f (Unwraps out source) e) : ∃ e', ofWrappers e =
      .ok (some ⟨(out (f {})).spec, some e', (out (f {})).warnings⟩) ∧ e'.text = source := by
  obtain ⟨r, callee, typeArgs, args, comments, inner, rfl, hwrapper, hadd, hchild, hinner, hsize⟩ :=
    h
  obtain ⟨e', he', ht⟩ := hinner (f {}) (TokenTree.sizeOf' r.trees) (Nat.le_of_lt hsize)
  refine ⟨e', ?_, ht⟩
  simp only [Motion.ofWrappers, hwrapper, hadd, hchild, Expr.range, he', Bool.not_true,
    Bool.false_eq_true, if_false, bind, Except.bind, pure, Except.pure]

theorem sizeOf_child_lt {r : Range} {args : List (Option String × Expr)} {inner : Expr}
    (h : inner ∈ args.map (·.2))
    (hsize : sizeOfExprs (args.map (·.2)) + 2 ≤ TokenTree.sizeOf' r.trees) :
    TokenTree.sizeOf' inner.range.trees < TokenTree.sizeOf' r.trees := by
  have := sizeOf'_le_of_mem h
  omega

/-! ## The wrappers that are written -/

/-- What the builder of a tween adds. -/
def Spec.addTween (s : Spec) (c : Collected) (t : Tween) : Collected :=
  { c with tweens := c.tweens ++ [t], timing := c.timing.or (timingOfSpec s) }

/-- What a detector adds. -/
def addGestures (gs : List Gesture) (c : Collected) : Collected :=
  { c with gestures := c.gestures ++ gs, warnings := c.warnings ++ [] }

theorem peels_of_builder {s : Spec} (hs : IsSteady s) {t : Tween} (ht : IsColorTween t)
    {P : Expr → Prop} {e : Expr}
    (h : Calls "TweenAnimationBuilder" (builderSpecs s t P) (marks s) e) :
    Peels (s.addTween · t) P e := by
  obtain ⟨r, typeArgs, args, rfl, hargs, hsize⟩ := h
  obtain ⟨inner, hchild, hinner, hmem⟩ := named?_of_meet hargs "child" rfl
  exact ⟨r, _, typeArgs, args, _, inner, rfl, by decide, add_builder hs ht hargs, hchild, hinner,
    sizeOf_child_lt hmem hsize⟩

theorem peels_of_detector {gs : List Gesture} (hg : ∀ g ∈ gs, g.IsNamed)
    {P : Expr → Prop} {e : Expr} (h : Calls "GestureDetector" (detectorSpecs gs P) [] e) :
    Peels (addGestures gs) P e := by
  obtain ⟨r, typeArgs, args, rfl, hargs, hsize⟩ := h
  obtain ⟨inner, hchild, hinner, hmem⟩ := child_of_detector hargs
  exact ⟨r, _, typeArgs, args, _, inner, rfl, by decide, fun c => add_detector hg hargs c [],
    hchild, hinner, sizeOf_child_lt hmem hsize⟩

/-- The source of the builders of tweens, the first one outermost, around a child. -/
def buildersText (s : Spec) (indent : String) (ts : List Tween) (child : String) : String :=
  ts.foldr (builderText s indent) child

theorem foldlM_aroundTween {s : Spec} (hs : IsSteady s) {ts : List Tween}
    (ht : ∀ t ∈ ts, IsColorTween t) (indent : String) (w : Written) :
    ts.reverse.foldlM (fun acc t => aroundTween s indent t acc) w =
      .ok ⟨buildersText s indent ts w.text, w.warnings⟩ := by
  induction ts with
  | nil => rfl
  | cons t ts ih =>
    obtain ⟨htween, hrest⟩ := List.forall_mem_cons.1 ht
    rw [List.reverse_cons, List.foldlM_append, ih hrest]
    simp only [List.foldlM_cons, List.foldlM_nil, aroundTween_eq hs htween, buildersText,
      List.foldr_cons, bind, Except.bind, pure, Except.pure]

/-- Builders around a chain are read as a longer chain. -/
theorem passage_builders {s : Spec} (hs : IsSteady s) {indent : String}
    (hi : isIndent indent = true) {child source : String} {out : Collected → Collected}
    (hc : Passage child (Slot (ReadsAs (Unwraps out source)))) {ts : List Tween}
    (ht : ∀ t ∈ ts, IsColorTween t) :
    Passage (buildersText s indent ts child)
      (Slot (ReadsAs (Unwraps (fun c => out (ts.foldl s.addTween c)) source))) := by
  induction ts with
  | nil => exact hc
  | cons t ts ih =>
    obtain ⟨htween, hrest⟩ := List.forall_mem_cons.1 ht
    exact (passage_builder hs htween hi (ih hrest)).imp fun us hus =>
      hus.imp fun e he => (peels_of_builder hs htween he).unwraps

/-! ## What is gathered -/

/-- A timing that is stated a second time changes nothing. -/
theorem Timing.or_or_self (a b : Timing) : (a.or b).or b = a.or b := by
  have key {α : Type} (x y : Option α) : ((x.orElse fun _ => y).orElse fun _ => y) =
      x.orElse fun _ => y := by
    cases x <;> cases y <;> rfl
  simp only [Timing.or, key]

/-- The builders of tweens give back the tweens, and the timing once. -/
theorem foldl_addTween (s : Spec) (ts : List Tween) (c : Collected) : ts.foldl s.addTween c =
    { c with tweens := c.tweens ++ ts, timing := if ts = [] then c.timing
      else c.timing.or (timingOfSpec s) } := by
  induction ts generalizing c with
  | nil => simp
  | cons t ts ih =>
    rw [List.foldl_cons, ih]
    simp only [Spec.addTween, Timing.or_or_self, List.append_assoc, List.singleton_append, ite_self,
      reduceCtorEq, if_false]

/-! ## Written motion -/

/-- A motion that the widget side can state: tweens between colours, without delay, and gestures
that can be told apart. -/
structure Spec.IsPortable (s : Spec) : Prop where
  tweens_ne : s.tweens ≠ []
  tweens : ∀ t ∈ s.tweens, IsColorTween t
  steady : IsSteady s
  gestures : ∀ g ∈ s.gestures, g.IsNamed
  apart : ∀ g ∈ s.gestures, ∀ g' ∈ s.gestures, g.kind = "pinch" → g'.kind ≠ "rotate"

/-- The source of a motion around a child. -/
def wrappersText (s : Spec) (indent child : String) : String :=
  if s.gestures = [] then buildersText s indent s.tweens child
  else detectorText indent s.gestures (buildersText s indent s.tweens child)

theorem aroundWidget_eq {s : Spec} (hs : s.IsPortable) (child indent : String) :
    aroundWidget s child indent = .ok ⟨wrappersText s indent child, []⟩ := by
  unfold aroundWidget wrappersText
  rw [foldlM_aroundTween hs.steady hs.tweens]
  simp only [bind, Except.bind, pure, Except.pure, List.isEmpty_iff]
  split_ifs
  · rfl
  · rw [aroundGestures_eq hs.gestures hs.apart]

/-- What is gathered from the source of a motion. -/
def Spec.gather (s : Spec) (c : Collected) : Collected :=
  s.tweens.foldl s.addTween (addGestures s.gestures c)

theorem spec_gather {s : Spec} (hs : s.IsPortable) :
    (s.gather {}).spec = s ∧ (s.gather {}).warnings = [] := by
  have hgather : s.gather {} =
      { tweens := s.tweens, gestures := s.gestures, timing := timingOfSpec s } := by
    rw [Spec.gather, foldl_addTween, if_neg hs.tweens_ne]
    rfl
  have hrepeats : (if s.repeats then some true else none).getD false = s.repeats := by
    cases s.repeats <;> rfl
  rw [hgather]
  refine ⟨?_, rfl⟩
  simp only [Collected.spec, timingOfSpec, hrepeats, Option.getD_some, Option.getD_none,
    ← hs.steady.delay]

/-- An expression from which a motion is gathered around a given source. -/
def Collapses (s : Spec) (source : String) (e : Expr) : Prop :=
  ∃ f out, Peels f (Unwraps out source) e ∧ ∀ c, out (f c) = s.gather c

theorem passage_wrappers {s : Spec} (hs : s.IsPortable) {indent : String}
    (hi : isIndent indent = true) {child source : String}
    (hc : Passage child (Slot (ReadsAs (Unwraps id source)))) :
    Passage (wrappersText s indent child) (Slot (ReadsAs (Collapses s source))) := by
  unfold wrappersText
  split_ifs with hg
  · obtain ⟨t, ts, hts⟩ := List.exists_cons_of_ne_nil hs.tweens_ne
    obtain ⟨ht, hrest⟩ := List.forall_mem_cons.1 (hts ▸ hs.tweens)
    rw [hts]
    refine (passage_builder hs.steady ht hi (passage_builders hs.steady hi hc hrest)).imp
        fun us hus =>
      hus.imp fun e he => ⟨_, _, peels_of_builder hs.steady ht he, fun c => ?_⟩
    simp [Spec.gather, hg, hts, addGestures]
  · exact (passage_detector hs.gestures hi (passage_builders hs.steady hi hc hs.tweens)).imp
        fun us hus =>
      hus.imp fun e he => ⟨_, _, peels_of_detector hs.gestures he, fun _ => rfl⟩

/-- The motion and the child that the source of an expression states, if it is a chain of
wrappers. -/
def ofWrapperSource (text : String) : Attempt (Option Collapsed) := do
  let source ← Source.read text
  ofWrappers (← source.all.expr)

/-- A source that is read as a call by a name, as a whole. -/
structure IsCallSource (child callee : String) (source : Source) (e : Expr) : Prop where
  read : Source.read child = .ok source
  expr : source.all.expr = .ok e
  callee : e.callee? = some callee
  text : source.all.text = child

theorem IsCallSource.ne_empty {child callee : String} {source : Source} {e : Expr}
    (h : IsCallSource child callee source e) : child ≠ "" := by
  rintro rfl
  have hempty : Source.read "" = .ok ⟨[], [], []⟩ := by
    unfold Source.read Lexeme.scan
    rw [String.toList_empty, scanFrom_nil]
    rfl
  cases hempty.symm.trans h.read
  cases h.expr

/-- From the source of colour tweens and gestures around a call on one line, in which no comma
stands outside of brackets, the motion and the source of the call come back. -/
theorem ofWrapperSource_aroundWidget {s : Spec} (hs : s.IsPortable) {indent : String}
    (hi : isIndent indent = true) {child callee : String} {source : Source} {e : Expr}
    (h : IsCallSource child callee source e) (hc : callee ∉ wrapperNames)
    (hline : '\n' ∉ child.toList) (hcomma : Range.hasTop "," source.trees = false) :
    ∃ text child', aroundWidget s child indent = .ok ⟨text, []⟩ ∧
      ofWrapperSource text = .ok (some ⟨s, some child', []⟩) ∧ child'.text = child := by
  have hchild : Passage child (Slot (ReadsAs (Unwraps id child))) :=
    (passage_child h.read hline h.text h.ne_empty hcomma h.expr).imp fun us hus =>
        hus.imp fun e' he' =>
      unwraps_of_callee hc (he'.2.trans h.callee) he'.1
  obtain ⟨source', hsource', hslot⟩ := (passage_wrappers hs hi hchild).source
  obtain ⟨e', he', -, f, out, hpeels, hgather⟩ :=
    hslot.holds none (3 * TokenTree.sizeOf' source'.trees + 3) (by
    dsimp only
    omega)
  have hexpr : source'.all.expr = .ok e' := he'
  obtain ⟨child', hwrappers, htext⟩ := hpeels.ofWrappers
  obtain ⟨hspec, hwarnings⟩ := spec_gather hs
  rw [hgather, hspec, hwarnings] at hwrappers
  refine ⟨_, child', aroundWidget_eq hs child indent, ?_, htext⟩
  simp only [ofWrapperSource, hsource', hexpr, hwrappers, bind, Except.bind]

theorem exists_isCallSource {child callee : String} {test : Source → Bool}
    (h : (Source.read child).toOption.any (fun source => source.all.text == child &&
      (source.all.expr.toOption.any fun e => e.callee? == some callee) && test source) = true) :
    ∃ source e, IsCallSource child callee source e ∧ test source = true := by
  obtain ⟨source, hread, hall⟩ := exists_ok_of_any h
  rw [Bool.and_eq_true, Bool.and_eq_true, beq_iff_eq] at hall
  obtain ⟨e, he, hcallee⟩ := exists_ok_of_any hall.1.2
  exact ⟨source, e, ⟨hread, he, beq_iff_eq.1 hcallee, hall.1.1⟩, hall.2⟩

/-- A box whose two colours change over and over, and which can be tapped and dragged. -/
def pulse : Spec where
  tweens := [{ property := "color", finish := .str "#112233" },
    { property := "backgroundColor", start := .str "#aabbcc80", finish := .str "#000000" }]
  duration := 450
  easing := "circIn"
  repeats := true
  gestures := [{ kind := "tap", handler := some "open" }, { kind := "drag", axis := some "x" }]

theorem isPortable_pulse : pulse.IsPortable where
  tweens_ne := List.cons_ne_nil _ _
  tweens := by
    refine List.forall_mem_cons.2 ⟨⟨.inr rfl, rfl, by decide, rfl⟩, List.forall_mem_singleton.2 ?_⟩
    exact ⟨.inl rfl, by decide, by decide, rfl⟩
  steady := ⟨by decide, rfl, by decide⟩
  gestures :=
    List.forall_mem_cons.2 ⟨.tap (by decide), List.forall_mem_singleton.2 (.drag nofun (by decide))⟩
  apart := by simp [pulse]

theorem ofWrapperSource_aroundWidget_pulse : pulse.IsPortable ∧
    (∃ source e, IsCallSource "Box(a, f(b, [c]))" "Box" source e ∧
      Range.hasTop "," source.trees = false) ∧
    ∃ text child', aroundWidget pulse "Box(a, f(b, [c]))" "  " = .ok ⟨text, []⟩ ∧
      ofWrapperSource text = .ok (some ⟨pulse, some child', []⟩) ∧
        child'.text = "Box(a, f(b, [c]))" := by
  have hcall : ∃ source e, IsCallSource "Box(a, f(b, [c]))" "Box" source e ∧
      (fun source : Source => !Range.hasTop "," source.trees) source = true :=
    exists_isCallSource (by decide +kernel)
  obtain ⟨source, e, h, htop⟩ := hcall
  have hcomma : Range.hasTop "," source.trees = false := by simpa using htop
  exact ⟨isPortable_pulse, ⟨source, e, h, hcomma⟩,
    ofWrapperSource_aroundWidget isPortable_pulse (by decide) h (by decide) (by decide) hcomma⟩

/-- A colour that fades in. -/
def fading : Spec where
  tweens := [{ property := "color", finish := .str "#112233" }]
  easing := "linear"

theorem isPortable_fading : fading.IsPortable where
  tweens_ne := List.cons_ne_nil _ _
  tweens := by
    simp only [fading, List.mem_singleton, forall_eq]
    exact ⟨.inr rfl, rfl, by decide, rfl⟩
  steady := ⟨by decide, rfl, by decide⟩
  gestures := nofun
  apart := nofun

/-- A comma between type arguments is taken for the end of the argument that holds the child, so
that only the source up to the comma comes back. -/
theorem ofWrapperSource_typeArguments : fading.IsPortable ∧
    (∃ source e, IsCallSource "Pair<int, int>()" "Pair" source e) ∧ "Pair" ∉ wrapperNames ∧
    ∃ text collapsed child', aroundWidget fading "Pair<int, int>()" "  " = .ok ⟨text, []⟩ ∧
      ofWrapperSource text = .ok (some collapsed) ∧ collapsed.child = some child' ∧
        child'.text = "Pair<int" := by
  have hcut : (ofWrapperSource (wrappersText fading "  " "Pair<int, int>()")).toOption.any (fun c =>
      (c.bind (·.child)).any fun e => e.text == "Pair<int") = true := by
    -- the characters of short parts are told much faster than those of the whole text
    unfold ofWrapperSource Source.read Lexeme.scan
    simp only [wrappersText, fading, buildersText, builderText, List.foldr_cons,
      List.foldr_nil, if_true, laterArguments, List.map_cons, List.map_nil, String.join,
      List.foldl_cons, List.foldl_nil, tweenText, builderClosure, optionalHead,
      String.toList_append]
    decide +kernel
  have hcall : ∃ source e, IsCallSource "Pair<int, int>()" "Pair" source e ∧
      (fun _ => true) source = true :=
    exists_isCallSource (by decide +kernel)
  obtain ⟨source, e, h, -⟩ := hcall
  obtain ⟨found, hfound, htest⟩ := exists_ok_of_any hcut
  rcases found with _ | ⟨spec, _ | child', warnings⟩
  · cases htest
  · cases htest
  · exact ⟨isPortable_fading, ⟨source, e, h⟩, by decide, _, _, child',
      aroundWidget_eq isPortable_fading "Pair<int, int>()" "  ", hfound, rfl, beq_iff_eq.1 htest⟩

end WidgetBridge.Motion
