import WidgetBridge.Proofs.Number.Numeral
import WidgetBridge.Proofs.Text.Layout
import WidgetBridge.Proofs.Writing.Draft
import WidgetBridge.Writing.Component
import WidgetBridge.Writing.Widget

/-!
# Failures of writing

An element that gets a number of children it does not take is refused with a message about them
(`ArityMessage`).  All other steps of writing fail for other reasons: transforms refuse values
(`errsAs_apply`), motion refuses gestures and lengths (`errsAs_around`), and state refuses idioms
(`errsAs_expandAll`).  Their messages are told apart by their ends.
-/

namespace WidgetBridge.Writing

open WidgetBridge.Text WidgetBridge.Mapping WidgetBridge.Number WidgetBridge.Config

/-! ## The failures -/

/-- The messages about the number of children. -/
def ArityMessage (message : String) : Prop :=
  ∃ source, message = source ++ " cannot have children" ∨
    ∃ n : Nat, message = source ++ " takes a single child, got " ++ showInt n

/-- The failure of an element at a path because of the number of its children. -/
def IsArity (path : String) (f : Failure) : Prop :=
  ∃ message, f = .generation message path ∧ ArityMessage message

/-- A failure for any other reason. -/
def NotArity (f : Failure) : Prop := ∀ path, ¬IsArity path f

/-- Whether the end of a text tells it from the messages about the number of children. -/
def endsApart (tail : String) : Bool :=
  differ tail.toList.reverse " cannot have children".toList.reverse &&
    (tail.toList.getLast?.map fun c => !isDigit c).getD false

theorem not_arityMessage {tail : String} (h : endsApart tail = true) (head : String) :
    ¬ArityMessage (head ++ tail) := by
  obtain ⟨hdiffer, hdigit⟩ := Bool.and_eq_true_iff.1 h
  rintro ⟨source, heq | ⟨n, heq⟩⟩
  · have hrev := congrArg (fun s => s.toList.reverse) heq
    simp only [String.toList_append, List.reverse_append] at hrev
    exact append_ne_of_differ hdiffer _ _ hrev
  · have hlast := congrArg (fun s => s.toList.getLast?) heq
    have hne : (showInt n).toList ≠ [] := by simpa [showInt] using digitsOf_ne_nil n
    obtain ⟨c, hc⟩ := Option.isSome_iff_exists.1 (List.getLast?_isSome.2 hne)
    have hmem : isDigit c = true := by
      refine isDigit_of_mem_digitsOf (n := n) ?_
      simpa [showInt] using List.mem_of_getLast? hc
    cases ht : tail.toList.getLast? with
    | none => simp [ht] at hdigit
    | some d =>
      simp only [String.toList_append, List.getLast?_append, ht, hc, Option.some_or,
        Option.some.injEq] at hlast
      simp [ht, hlast, hmem] at hdigit

theorem notArity_generation {tail : String} (h : endsApart tail = true) (head path : String) :
    NotArity (.generation (head ++ tail) path) := by
  rintro _ ⟨message, heq, hmessage⟩
  cases heq
  exact not_arityMessage h head hmessage

/-- Whether a failure is about the writing of a node. -/
def isGeneration : Failure → Bool
  | .generation _ _ => true
  | _ => false

theorem notArity_of_not_isGeneration {f : Failure} (h : isGeneration f = false) : NotArity f := by
  rintro path ⟨message, rfl, -⟩
  cases h

/-! ## Failures for other reasons -/

theorem errsAs_plain {α : Type} {f : Failure} (h : isGeneration f = false) :
    ErrsAs (.error f : Attempt α) NotArity := errsAs_error (notArity_of_not_isGeneration h)

theorem errsAs_colorForward (css : String) : ErrsAs (colorForward css) NotArity := by
  unfold colorForward
  dsimp only
  split
  · exact errsAs_ok _
  · split
    · exact errsAs_ok _
    · split
      · exact errsAs_ok _
      · exact errsAs_plain rfl

theorem errsAs_insetsForward (kind : LiteralKind) (v : Value) :
    ErrsAs (insetsForward kind v) NotArity := by
  unfold insetsForward
  dsimp only
  split_ifs
  · exact errsAs_ok _
  · exact errsAs_plain rfl
  · split
    · exact errsAs_plain rfl
    · split_ifs
      · exact errsAs_plain rfl
      · split
        · exact errsAs_ok _
        · exact errsAs_ok _
        · exact errsAs_ok _
        · exact errsAs_plain rfl

theorem errsAs_uriOf (v : Value) : ErrsAs (uriOf v) NotArity := by
  unfold uriOf
  dsimp only
  split
  · split
    · exact errsAs_ok _
    · exact errsAs_plain rfl
  · split_ifs <;> exact errsAs_plain rfl
  · split_ifs <;> exact errsAs_plain rfl
  · exact errsAs_plain rfl

/-- The forward transforms refuse values, not children. -/
theorem errsAs_apply (t : Transform) (values : Assoc String) (v : PropValue) :
    ErrsAs (t.apply .forward values v) NotArity := by
  unfold Transform.apply
  cases t with
  | identity => exact errsAs_ok _
  | event => exact errsAs_ok _
  | color =>
    unfold applyColor
    cases v with
    | expr source => exact errsAs_ok _
    | lit kind v =>
      dsimp only
      split_ifs
      · exact errsAs_plain rfl
      · split
        · exact (errsAs_colorForward _).bind fun _ => errsAs_ok _
        · exact errsAs_plain rfl
  | edgeInsets =>
    unfold applyInsets
    cases v with
    | expr source => exact errsAs_ok _
    | lit kind v => exact (errsAs_insetsForward kind v).bind fun _ => errsAs_ok _
  | borderRadius =>
    unfold applyRadius
    cases v with
    | expr source => exact errsAs_ok _
    | lit kind v =>
      dsimp only
      split_ifs
      · exact errsAs_ok _
      · exact errsAs_plain rfl
  | enum =>
    unfold applyKeyword
    cases v with
    | expr source => exact errsAs_ok _
    | lit kind v =>
      dsimp only
      split
      · exact errsAs_ok _
      · exact errsAs_plain rfl
  | imageSource =>
    dsimp only
    unfold applyImage
    split
    · split <;> exact errsAs_ok _
    · exact errsAs_ok _
    · exact errsAs_uriOf _
    · exact errsAs_plain rfl
    · exact errsAs_ok _
    · exact errsAs_ok _

theorem errsAs_carryProp (entry : Entry) (name : String) (v : PropValue) (path : String) :
    ErrsAs (entry.carryProp name v .forward path) NotArity := by
  unfold Entry.carryProp
  dsimp only
  split
  · exact errsAs_ok _
  · rename_i rule _
    have happly := errsAs_apply rule.transform rule.values v
    split
    · exact errsAs_ok _
    · exact errsAs_ok _
    · rename_i other _ hother
      exact errsAs_error (happly other hother)

theorem errsAs_add (a : Arguments) (entry : Entry) (target : String) (v : PropValue) :
    ErrsAs (a.add entry target v) NotArity := by
  unfold Arguments.add
  dsimp only
  split_ifs
  · exact errsAs_ok _
  · split
    · exact errsAs_ok _
    · exact errsAs_plain rfl
  · exact errsAs_ok _
  · exact errsAs_ok _
  · split
    · split_ifs <;> exact errsAs_ok _
    · exact errsAs_ok _

theorem errsAs_childArgument (entry : Entry) (a : Arguments) (indent : String)
    (items : List String) : ErrsAs (childArgument entry a indent items) NotArity := by
  unfold childArgument
  dsimp only
  split
  · exact errsAs_ok _
  · split
    · exact errsAs_ok _
    · split
      · split
        · exact errsAs_ok _
        · exact errsAs_plain rfl
      · rcases items with _ | ⟨item, _ | ⟨_, _⟩⟩ <;> exact errsAs_ok _

theorem errsAs_around (framework : Framework) (m : Motion.Spec) (child indent : String) :
    ErrsAs (Motion.around framework m child indent) NotArity := by
  have hgesture : ∀ g : Motion.Gesture, ErrsAs g.attributes NotArity := by
    intro g
    unfold Motion.Gesture.attributes
    split
    · exact errsAs_plain rfl
    · exact errsAs_ok _
  have hcurve : ErrsAs (Motion.curveText m) NotArity := by
    unfold Motion.curveText
    dsimp only
    split_ifs
    · exact errsAs_ok _
    · exact errsAs_plain rfl
    · exact errsAs_ok _
  have htween : ∀ w t, ErrsAs (Motion.aroundTween m indent t w) NotArity := by
    intro w t
    unfold Motion.aroundTween
    split
    · exact errsAs_ok _
    · exact hcurve.bind fun _ => errsAs_ok _
  cases framework with
  | component =>
    exact ((errsAs_mapM hgesture _).bind fun _ => errsAs_ok _).bind fun _ => errsAs_ok _
  | widget => exact (errsAs_foldlM htween _ _).bind fun _ => errsAs_ok _

theorem errsAs_expandAll (settings : Settings) (framework : Framework) (bs : List State.Binding) :
    ErrsAs (State.expandAll settings framework.name bs) NotArity := by
  have hends : endsApart framework.name = true := by cases framework <;> decide
  refine errsAs_mapM (fun b => ErrsAs.bind ?_ fun name => ?_) bs
  · unfold State.configuredIdiom
    split
    · exact errsAs_ok _
    · exact errsAs_error (notArity_generation hends _ _)
  · have hrefused : NotArity (State.expandFor.refused framework.name name) :=
      notArity_generation hends _ _
    split
    · split_ifs
      · exact errsAs_ok _
      · exact errsAs_error hrefused
    · exact errsAs_error hrefused

end WidgetBridge.Writing
