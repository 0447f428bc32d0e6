import Mathlib.Data.List.Basic
import WidgetBridge.Schema.Document

/-!
# Documents and their schemas

A schema is plain data, so a document comes back from its schema in its plain form `Document.plain`:
attached routes have become data, and a placeholder that stands for the empty name stands for none.
All else is kept, whatever its payloads are.

* `Binding.ofSchema_toSchema` and `Spec.ofSchema_toSchema` read state and motion back;
* `PropValue.ofSchema_toSchema` reads a prop back, with a payload of any kind;
* `Node.ofSchema_toSchema` is the step from an element to its tree, by recursion on the tree;
* `Document.ofSchema_toSchema_eq_iff` says which documents come back as they are.
-/

namespace WidgetBridge

open WidgetBridge.Schema

variable {σ : Type}

/-! ## Fields and lists -/

namespace Schema

/-- A step after one that went well. -/
@[simp] theorem ok_bind {α β : Type} (a : α) (f : α → Attempt β) : (Except.ok a >>= f) = f a := rfl

theorem lookup_cons_eq_ite (k : String) (v : Value) (es : List (String × Value)) (key : String) :
    List.lookup key ((k, v) :: es) = if key = k then some v else es.lookup key := by
  by_cases h : key = k
  · simp [h]
  · rw [List.lookup_cons, beq_eq_false_iff_ne.2 h, if_neg h]

@[simp] theorem field_cons (k : String) (v : Value) (es : List (String × Value)) (key : String) :
    field (.map ((k, v) :: es)) key = if key = k then .ok v else field (.map es) key := by
  by_cases h : key = k <;> simp [field, Assoc.get?, lookup_cons_eq_ite, h]

@[simp] theorem fieldOr_cons (k : String) (v : Value) (es : List (String × Value)) (key : String)
    (fallback : Value) : fieldOr (.map ((k, v) :: es)) key fallback =
      if key = k then .ok v else fieldOr (.map es) key fallback := by
  by_cases h : key = k <;> simp [fieldOr, field?, Assoc.get?, lookup_cons_eq_ite, h]

@[simp] theorem fieldOr_nil (key : String) (fallback : Value) :
    fieldOr (.map []) key fallback = .ok fallback := rfl

theorem asOptionalText_ofOptionalText (o : Option String) :
    asOptionalText (ofOptionalText o) = .ok o := by
  cases o <;> rfl

/-- A list is read back if each of its members is. -/
theorem mapM_map_eq_self {α β : Type} {f : α → β} {g : β → Attempt α} (h : ∀ a, g (f a) = .ok a)
    (as : List α) : (as.map f).mapM g = .ok as := by
  induction as with
  | nil => rfl
  | cons a as ih =>
    rw [List.map_cons, List.mapM_cons, h, ih]
    rfl

theorem asTexts_str (ss : List String) : asTexts (.list (ss.map .str)) = .ok ss :=
  mapM_map_eq_self (f := Value.str) (g := asText) (fun _ => rfl) ss

end Schema

theorem PropValue.ofSchema_toSchema [Payload σ] (v : PropValue σ) :
    PropValue.ofSchema v.toSchema = .ok v := by
  cases v with
  | lit kind v => cases kind <;> rfl
  | expr s => simp [PropValue.ofSchema, PropValue.toSchema, Payload.ofValue_toValue]

/-! ## State -/

namespace State

theorem Kind.ofName?_name (k : Kind) : Kind.ofName? k.name = some k := by
  cases k <;> rfl

theorem Transition.ofSchema_toSchema (t : Transition) : Transition.ofSchema t.toSchema = .ok t :=
  rfl

theorem initialOf_toSchema (o : Option PropValue) :
    initialOf ((o.map PropValue.toSchema).getD .null) = .ok o := by
  cases o with
  | none => rfl
  | some v =>
    have hpresent : v.toSchema.truthy = true := by cases v <;> rfl
    simp only [initialOf, Option.map_some, Option.getD_some, hpresent, if_true,
      PropValue.ofSchema_toSchema]
    rfl

theorem Binding.ofSchema_toSchema (b : Binding) : Binding.ofSchema b.toSchema = .ok b := by
  have htransitions := mapM_map_eq_self Transition.ofSchema_toSchema b.transitions
  simp [Binding.ofSchema, Binding.toSchema, asText, asList, Kind.ofName?_name, htransitions,
    initialOf_toSchema, asOptionalText_ofOptionalText]

end State

/-! ## Motion -/

namespace Motion

theorem Keyframe.ofSchema_toSchema (k : Keyframe) : Keyframe.ofSchema k.toSchema = .ok k := by
  obtain ⟨offset, value, easing⟩ := k
  cases easing <;> rfl

theorem Tween.ofSchema_toSchema (t : Tween) : Tween.ofSchema t.toSchema = .ok t := by
  have hframes := mapM_map_eq_self Keyframe.ofSchema_toSchema t.keyframes
  simp [Tween.ofSchema, Tween.toSchema, asText, asList, hframes]

theorem Gesture.ofSchema_toSchema (g : Gesture) : Gesture.ofSchema g.toSchema = .ok g := by
  obtain ⟨kind, handler, axis, threshold⟩ := g
  cases handler <;> cases axis <;> cases threshold <;> rfl

theorem Spec.ofSchema_toSchema (s : Spec) : Spec.ofSchema s.toSchema = .ok s := by
  have htweens := mapM_map_eq_self Tween.ofSchema_toSchema s.tweens
  have hgestures := mapM_map_eq_self Gesture.ofSchema_toSchema s.gestures
  simp [Spec.ofSchema, Spec.toSchema, asText, asList, asInt, Value.truthy, htweens, hgestures]

end Motion

/-! ## Elements -/

/-- An element as it comes back from plain data. -/
def Element.plain (e : Element σ) : Element σ :=
  { e with
    standsFor := e.standsFor.filter (!·.isEmpty)
    attached := e.attached.map fun a => (a.1, .data a.2.toValue) }

namespace Element

@[simp] theorem fieldOr_fieldUnless_append (absent : Bool) (k : String) (v : Value)
    (es : List (String × Value)) (key : String) (fallback : Value) :
    fieldOr (.map (fieldUnless absent k v ++ es)) key fallback =
      if key = k ∧ absent = false then .ok v else fieldOr (.map es) key fallback := by
  cases absent <;> simp [fieldUnless]

@[simp] theorem fieldOr_fieldUnless (absent : Bool) (k : String) (v : Value) (key : String)
    (fallback : Value) : fieldOr (.map (fieldUnless absent k v)) key fallback =
      if key = k ∧ absent = false then .ok v else .ok fallback := by
  cases absent <;> simp [fieldUnless]

theorem optionalFields_eq (e : Element σ) : e.optionalFields =
    fieldUnless ((e.standsFor.getD "").isEmpty) "originalType" (ofOptionalText e.standsFor) ++
      (fieldUnless e.bindings.isEmpty "stateBindings"
          (.list (e.bindings.map State.Binding.toSchema)) ++
        (fieldUnless e.motion.isNone "animation" ((e.motion.map Motion.Spec.toSchema).getD .null) ++
          fieldUnless e.attached.isEmpty "metadata"
            (.map (e.attached.map fun a => (a.1, a.2.toValue))))) := by
  unfold optionalFields
  cases e.motion <;> simp [fieldUnless]

theorem fieldOr_originalType (e : Element σ) :
    fieldOr (.map e.optionalFields) "originalType" .null =
      .ok (ofOptionalText e.plain.standsFor) := by
  rw [optionalFields_eq]
  unfold plain
  rcases e.standsFor with _ | name
  · simp [ofOptionalText]
  · by_cases h : name = "" <;> simp [ofOptionalText, h, Option.filter]

theorem fieldOr_stateBindings (e : Element σ) :
    fieldOr (.map e.optionalFields) "stateBindings" (.list []) =
      .ok (.list (e.bindings.map State.Binding.toSchema)) := by
  rw [optionalFields_eq]
  cases e.bindings <;> simp

theorem fieldOr_animation (e : Element σ) : fieldOr (.map e.optionalFields) "animation" .null =
    .ok ((e.motion.map Motion.Spec.toSchema).getD .null) := by
  rw [optionalFields_eq]
  cases e.motion <;> simp

theorem fieldOr_metadata (e : Element σ) : fieldOr (.map e.optionalFields) "metadata" (.map []) =
    .ok (.map (e.attached.map fun a => (a.1, a.2.toValue))) := by
  rw [optionalFields_eq]
  cases e.attached <;> simp

end Element

namespace Node

mutual

/-- A node as it comes back from plain data. -/
def plain : Node σ → Node σ
  | .element e cs => .element e.plain (plainAll cs)
  | .text v => .text v
  | .slot s => .slot s

/-- Nodes as they come back from plain data. -/
def plainAll : List (Node σ) → List (Node σ)
  | [] => []
  | n :: ns => n.plain :: plainAll ns

end

section Fields

variable [Payload σ]

/-- The fields of an element. -/
def fieldsOf (e : Element σ) (cs : List (Node σ)) : List (String × Value) :=
  [("type", .str "element"), ("widgetType", .str e.widget),
    ("props", .map (e.props.map fun p => (p.1, p.2.toSchema))),
    ("children", .list (toSchemas cs))] ++ e.optionalFields

variable (e : Element σ) (cs : List (Node σ))

theorem motionOf_fieldsOf : motionOf (.map (fieldsOf e cs)) = .ok e.motion := by
  have hfield : fieldOr (.map (fieldsOf e cs)) "animation" .null =
      .ok ((e.motion.map Motion.Spec.toSchema).getD .null) := by
    simpa [fieldsOf] using e.fieldOr_animation
  rw [motionOf, hfield]
  cases e.motion with
  | none => rfl
  | some spec =>
    have hpresent : spec.toSchema.truthy = true := rfl
    simp [hpresent, Motion.Spec.ofSchema_toSchema]

theorem propsOf_fieldsOf : propsOf (.map (fieldsOf e cs)) = .ok e.props := by
  simp only [propsOf, fieldsOf, List.cons_append, fieldOr_cons]
  exact mapM_map_eq_self (fun p => by simp [PropValue.ofSchema_toSchema]) e.props

theorem childrenOf_fieldsOf : (childrenOf (fieldsOf e cs) : Attempt (List (Node σ))) =
    ofSchemas (toSchemas cs) := by
  simp [fieldsOf, childrenOf, nodesOf]

theorem attachedOf_fieldsOf : attachedOf (.map (fieldsOf e cs)) = .ok e.plain.attached := by
  have hfield : fieldOr (.map (fieldsOf e cs)) "metadata" (.map []) =
      .ok (.map (e.attached.map fun a => (a.1, a.2.toValue))) := by
    simpa [fieldsOf] using e.fieldOr_metadata
  rw [attachedOf, hfield]
  simp only [ok_bind, Element.plain, List.map_map]
  rfl

end Fields

mutual

theorem ofSchema_toSchema [Payload σ] : (n : Node σ) → ofSchema n.toSchema = .ok n.plain
  | .text v => by simp [toSchema, ofSchema, Assoc.get?, Payload.ofValue_toValue, plain]
  | .slot s => by simp [toSchema, ofSchema, Assoc.get?, Payload.ofValue_toValue, plain]
  | .element e cs => by
    have htype : (Assoc.get? (fieldsOf e cs) "type").getD .null = .str "element" := rfl
    have hwidget : field (.map (fieldsOf e cs)) "widgetType" = .ok (.str e.widget) := rfl
    have hbindings : fieldOr (.map (fieldsOf e cs)) "stateBindings" (.list []) =
        .ok (.list (e.bindings.map State.Binding.toSchema)) := by
      simpa [fieldsOf] using e.fieldOr_stateBindings
    have hstands : fieldOr (.map (fieldsOf e cs)) "originalType" .null =
        .ok (ofOptionalText e.plain.standsFor) := by
      simpa [fieldsOf] using e.fieldOr_originalType
    change ofSchema (.map (fieldsOf e cs)) = _
    simp only [ofSchema, htype, motionOf_fieldsOf, hwidget, propsOf_fieldsOf, childrenOf_fieldsOf,
      ofSchemas_toSchemas cs, hbindings, hstands, attachedOf_fieldsOf, ok_bind, asText, asList,
      mapM_map_eq_self State.Binding.ofSchema_toSchema, asOptionalText_ofOptionalText]
    rfl

theorem ofSchemas_toSchemas [Payload σ] :
    (ns : List (Node σ)) → ofSchemas (toSchemas ns) = .ok (plainAll ns)
  | [] => rfl
  | n :: ns => by
    rw [toSchemas, ofSchemas, ofSchema_toSchema n, ofSchemas_toSchemas ns]
    rfl

end

end Node

/-! ## Documents -/

/-- A document as it comes back from plain data. -/
def Document.plain (d : Document σ) : Document σ := { d with root := d.root.map Node.plain }

theorem Document.rootOf_toSchema [Payload σ] (n : Node σ) :
    rootOf n.toSchema = .ok (some n.plain) := by
  have hsome : rootOf n.toSchema =
      (do return some (← (Node.ofSchema n.toSchema : Attempt (Node σ)))) := by
    cases n <;> rfl
  rw [hsome, Node.ofSchema_toSchema]
  rfl

theorem Document.ofSchema_toSchema [Payload σ] (d : Document σ) :
    Document.ofSchema d.toSchema = .ok d.plain := by
  have hroot : rootOf ((d.root.map Node.toSchema).getD .null) = .ok (d.root.map Node.plain) := by
    cases d.root with
    | none => rfl
    | some n => exact rootOf_toSchema n
  simp [Document.ofSchema, Document.toSchema, asText, asTexts_str, asOptionalText_ofOptionalText,
    hroot, Document.plain]

/-! ## Documents that come back as they are -/

/-- An element that carries plain data only, and does not stand for the empty name. -/
structure Element.IsPlain (e : Element σ) : Prop where
  attached : ∀ a ∈ e.attached, ∃ v, a.2 = .data v
  standsFor : e.standsFor ≠ some ""

theorem Element.plain_eq_self_iff {e : Element σ} : e.plain = e ↔ e.IsPlain := by
  have hattached : (e.attached.map fun a => (a.1, Attachment.data a.2.toValue)) = e.attached ↔
      ∀ a ∈ e.attached, ∃ v, a.2 = .data v := by
    nth_rewrite 2 [← List.map_id e.attached]
    refine List.map_inj_left.trans (forall₂_congr fun a _ => ?_)
    obtain ⟨key, v | s⟩ := a <;> simp [Attachment.toValue]
  have hstands : e.standsFor.filter (!·.isEmpty) = e.standsFor ↔ e.standsFor ≠ some "" := by
    cases e.standsFor <;> simp [Option.filter]
  rw [plain]
  constructor
  · intro h
    exact ⟨hattached.1 (congrArg Element.attached h), hstands.1 (congrArg Element.standsFor h)⟩
  · intro h
    rw [hattached.2 h.attached, hstands.2 h.standsFor]

namespace Node

mutual

theorem plain_eq_self_iff (path : String) : (n : Node σ) → (n.plain = n ↔
    ∀ place e cs, (place, Node.element e cs) ∈ n.walk path → e.IsPlain)
  | .text _ => by simp [plain, walk]
  | .slot _ => by simp [plain, walk]
  | .element e cs => by
    simp only [plain, walk, Node.element.injEq, Element.plain_eq_self_iff,
      plainAll_eq_self_iff path 0 cs, List.mem_cons, Prod.mk.injEq]
    constructor
    · rintro ⟨he, hcs⟩ place e' cs' (⟨-, rfl, -⟩ | hmem)
      · exact he
      · exact hcs place e' cs' hmem
    · intro h
      exact ⟨h path e cs (.inl ⟨rfl, rfl, rfl⟩), fun place e' cs' hmem =>
        h place e' cs' (.inr hmem)⟩

theorem plainAll_eq_self_iff (path : String) (index : Nat) :
    (ns : List (Node σ)) → (plainAll ns = ns ↔
    ∀ place e cs, (place, Node.element e cs) ∈ walkAll path index ns → e.IsPlain)
  | [] => by simp [plainAll, walkAll]
  | n :: ns => by
    simp only [plainAll, walkAll, List.cons.injEq, plain_eq_self_iff (childPath path index) n,
      plainAll_eq_self_iff path (index + 1) ns, List.mem_append]
    constructor
    · rintro ⟨hn, hns⟩ place e cs (hmem | hmem)
      · exact hn place e cs hmem
      · exact hns place e cs hmem
    · intro h
      exact ⟨fun place e cs hmem => h place e cs (.inl hmem),
        fun place e cs hmem => h place e cs (.inr hmem)⟩

end

end Node

/-- A document comes back from its schema as it is if all its elements carry plain data only and
none stands for the empty name, and only then. -/
theorem Document.ofSchema_toSchema_eq_iff [Payload σ] (d : Document σ) :
    Document.ofSchema d.toSchema = .ok d ↔ ∀ n ∈ d.root, ∀ path e cs,
      (path, Node.element e cs) ∈ n.walk "root" → e.IsPlain := by
  have hroot : d.plain = d ↔ ∀ n ∈ d.root, n.plain = n := by
    obtain ⟨_, _, _, _, _, _, _, _, root⟩ := d
    cases root <;> simp [plain]
  rw [ofSchema_toSchema, Except.ok.injEq, hroot]
  exact forall₂_congr fun n _ => Node.plain_eq_self_iff "root" n

end WidgetBridge
