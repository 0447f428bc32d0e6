import WidgetBridge.Proofs.Mapping.Backward

/-!
# Carrying props across

A transform gives a value or refuses the one that it was given; a literal of its own kind makes
nothing else go wrong (`answers_apply`).  A refusal becomes an issue, and the prop passes with the
value that it had, so that a prop is always carried across, with one issue at most
(`carryProp_issues`).
-/

namespace WidgetBridge.Mapping

open WidgetBridge.Text

/-! ## Transforms -/

/-- A transform that gives a value or refuses the one that it was given. -/
inductive Answers {α : Type} : Attempt α → Prop
  | gives (w : α) : Answers (.ok w)
  | refuses (message : String) : Answers (.error (.transform message))

theorem Answers.map {α β : Type} {x : Attempt α} (h : Answers x) (f : α → β) :
    Answers (do return f (← x)) := by
  cases h with
  | gives w => exact .gives (f w)
  | refuses message => exact .refuses message

theorem answers_colorForward (css : String) : Answers (colorForward css) := by
  unfold colorForward
  dsimp only
  split
  · exact .gives _
  · split
    · exact .gives _
    · split
      · exact .gives _
      · exact .refuses _

/-- Only an array is gone through, and a value that is tagged as one is a list. -/
theorem answers_insetsForward {kind : LiteralKind} {v : Value} (h : v.kind = kind) :
    Answers (insetsForward kind v) := by
  unfold insetsForward
  dsimp only
  split_ifs with hnumber hkind
  · exact .gives _
  · exact .refuses _
  · have harray : v.kind = .array := by rw [h]; simpa using hkind
    obtain ⟨items, rfl⟩ : ∃ items, v = .list items := by
      cases v with
      | list items => exact ⟨items, rfl⟩
      | null | bool | int | float | str | map => cases harray
    dsimp only [members?]
    split_ifs
    · exact .refuses _
    · split
      · exact .gives _
      · exact .gives _
      · exact .gives _
      · exact .refuses _

theorem answers_uriOf {v : Value} (h : v.kind = .object) : Answers (uriOf v) := by
  obtain ⟨es, rfl⟩ : ∃ es, v = .map es := by
    cases v with
    | map es => exact ⟨es, rfl⟩
    | null | bool | int | float | str | list => cases h
  unfold uriOf
  dsimp only
  split
  · exact .gives _
  · exact .refuses _

theorem answers_applyColor {kind : LiteralKind} {v : Value} (h : v.kind = kind) :
    Answers (applyColor .forward (.lit kind v)) := by
  unfold applyColor
  dsimp only
  split_ifs with hkind
  · exact .refuses _
  · have hstring : v.kind = .string := by rw [h]; simpa using hkind
    cases v with
    | str s => exact (answers_colorForward (trim s)).map _
    | null | bool | int | float | list | map => cases hstring

theorem answers_applyImage {kind : LiteralKind} {v : Value} (h : v.kind = kind) :
    Answers (applyImage .forward (.lit kind v)) := by
  cases kind with
  | string => exact .gives _
  | object => exact answers_uriOf h
  | number | boolean | null | array => exact .refuses _

theorem answers_forward (t : Transform) (values : Assoc String) {v : PropValue}
    (h : v.matchesKind = true) :
    Answers (t.apply .forward values v) := by
  cases v with
  | expr s =>
    cases t with
    | imageSource =>
      dsimp only [Transform.apply, applyImage]
      split <;> exact .gives _
    | identity | event | color | edgeInsets | borderRadius | enum => exact .gives _
  | lit kind v =>
    have hkind : v.kind = kind := by simpa [PropValue.matchesKind] using h
    cases t with
    | identity | event => exact .gives _
    | color => exact answers_applyColor hkind
    | edgeInsets => exact (answers_insetsForward hkind).map _
    | borderRadius =>
      dsimp only [Transform.apply, applyRadius]
      split_ifs
      · exact .gives _
      · exact .refuses _
    | enum =>
      dsimp only [Transform.apply, applyKeyword]
      split
      · exact .gives _
      · exact .refuses _
    | imageSource => exact answers_applyImage hkind

theorem answers_apply (t : Transform) (d : Direction) (values : Assoc String) {v : PropValue}
    (h : v.matchesKind = true) : Answers (t.apply d values v) := by
  cases d with
  | forward => exact answers_forward t values h
  | backward =>
    obtain ⟨w, hw⟩ := exists_apply_backward t values v
    rw [hw]
    exact .gives w

/-! ## Props -/

/-- The rule of a prop, by its name on the side that it comes from. -/
def Entry.ruleFor? (e : Entry) (name : String) : Direction → Option PropRule
  | .forward => e.findProp? name
  | .backward => e.findTarget? name

/-- The name of a prop on the side that it goes to. -/
def PropRule.nameAfter (r : PropRule) : Direction → String
  | .forward => r.target
  | .backward => r.name

/-- A prop that is carried across without a word: its rule has a form for its value, or every widget
takes it. -/
def Entry.Carries (e : Entry) (name : String) (v : PropValue) (d : Direction) : Prop :=
  (∃ r, e.ruleFor? name d = some r ∧ ∃ w, r.transform.apply d r.values v = .ok w) ∨
    (e.ruleFor? name d = none ∧ name ∈ Entry.commonProps)

variable {e : Entry} {name : String} {v : PropValue} {d : Direction}

theorem carryProp_of_no_rule (h : e.ruleFor? name d = none) (path : String) :
    e.carryProp name v d path = .ok ((name, v), if Entry.commonProps.contains name then []
      else [.validation .unresolvedProp path
        (e.source ++ " has no mapping for prop '" ++ name ++ "'")
        "<memory>"]) := by
  unfold Entry.carryProp
  cases d with
  | forward | backward =>
    dsimp only [Entry.ruleFor?] at h ⊢
    rw [h]

theorem carryProp_of_gives {r : PropRule} (h : e.ruleFor? name d = some r) {w : PropValue}
    (hw : r.transform.apply d r.values v = .ok w) (path : String) :
    e.carryProp name v d path = .ok ((r.nameAfter d, w), []) := by
  unfold Entry.carryProp
  cases d with
  | forward | backward =>
    dsimp only [Entry.ruleFor?] at h ⊢
    rw [h]
    dsimp only
    rw [hw]
    rfl

theorem carryProp_of_refuses {r : PropRule} (h : e.ruleFor? name d = some r) {message : String}
    (hm : r.transform.apply d r.values v = .error (.transform message)) (path : String) :
    e.carryProp name v d path = .ok ((r.nameAfter d, v),
      [.validation .unresolvedProp path (e.source ++ "." ++ r.name ++ ": " ++ message)
        "<memory>"]) := by
  unfold Entry.carryProp
  cases d with
  | forward | backward =>
    dsimp only [Entry.ruleFor?] at h ⊢
    rw [h]
    dsimp only
    rw [hm]
    rfl

/-- A prop is carried across whatever its name and its value, if a literal is of its kind.  There is
no issue exactly if it is carried without a word, and else there is one, about the prop: then the
value is the old one, under the name of the other side if there is a rule, and under the old name if
there is none. -/
theorem carryProp_issues (e : Entry) (name : String) {v : PropValue} (hv : v.matchesKind = true)
    (d : Direction) (path : String) :
    ∃ out w issues, e.carryProp name v d path = .ok ((out, w), issues) ∧
      issues.length ≤ 1 ∧ (issues = [] ↔ e.Carries name v d) ∧
      (∀ i ∈ issues, ∃ message, i = .validation .unresolvedProp path message "<memory>") ∧
      (issues ≠ [] → w = v ∧ out = ((e.ruleFor? name d).map fun r => r.nameAfter d).getD name) := by
  cases hr : e.ruleFor? name d with
  | none =>
    refine ⟨_, _, _, carryProp_of_no_rule hr path, ?_⟩
    have hcarries : e.Carries name v d ↔ Entry.commonProps.contains name = true := by
      simp [Entry.Carries, hr]
    rw [hcarries]
    cases Entry.commonProps.contains name <;> simp
  | some r =>
    have hcarries : e.Carries name v d ↔ ∃ w, r.transform.apply d r.values v = .ok w := by
      simp [Entry.Carries, hr]
    rw [hcarries]
    generalize hx : r.transform.apply d r.values v = x
    have hanswers := answers_apply r.transform d r.values hv
    rw [hx] at hanswers
    cases hanswers with
    | gives w => exact ⟨_, _, _, carryProp_of_gives hr hx path, by simp⟩
    | refuses message => exact ⟨_, _, _, carryProp_of_refuses hr hx path, by simp⟩

/-- Three insets have no form in widget source, and so they pass as they are, under the new name. -/
theorem carryProp_issues_three :
    let box : Entry :=
      { source := "View", target := "Container"
        props := [{ name := "inset", target := "padding", transform := .edgeInsets }] }
    let three : PropValue := .literal (.list [.int 1, .int 2, .int 3])
    three.matchesKind = true ∧ ∃ i, box.carryProp "inset" three .forward "root" =
      .ok (("padding", three), [i]) := by
  intro box three
  have hkind : three.matchesKind = true := rfl
  have hrefused : ¬ box.Carries "inset" three .forward := by
    rintro (⟨r, hr, w, hw⟩ | ⟨hr, -⟩)
    · cases hr
      cases hw
    · cases hr
  obtain ⟨out, w, issues, hcarry, hlen, hnone, -, hsome⟩ :=
    carryProp_issues box "inset" hkind .forward "root"
  have hne : issues ≠ [] := fun h => hrefused (hnone.1 h)
  obtain ⟨rfl, rfl⟩ := hsome hne
  obtain ⟨i, rfl⟩ : ∃ i, issues = [i] := by
    refine List.length_eq_one_iff.1 ?_
    have hpos := List.length_pos_iff.2 hne
    omega
  exact ⟨hkind, i, hcarry⟩

end WidgetBridge.Mapping
