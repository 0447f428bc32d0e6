import WidgetBridge.ComponentGrammar.Literal
import WidgetBridge.Motion.Easing
import WidgetBridge.Motion.Keyframes

/-!
# Motion in component props

The component side states motion in props: `initial`, `animate` and `transition` for tweens, and
one prop a gesture. `Motion.ofProps` reads them where they are constant.
-/

namespace WidgetBridge.Motion

open WidgetBridge.Text WidgetBridge.Number

/-- The gestures with their props. -/
def gestureProps : Assoc String :=
  [("onTap", "tap"), ("onLongPress", "longPress"), ("onDrag", "drag"), ("onPinch", "pinch"),
    ("onRotate", "rotate")]

/-- The props that state motion. -/
def motionProps : List String :=
  ["initial", "animate", "transition", "onTap", "onLongPress", "onDrag", "drag", "dragThreshold",
    "onPinch", "onRotate"]

/-- Props that state motion, and the others. -/
def splitProps (props : Props) : Props × Props :=
  props.partition fun p => motionProps.contains p.1

/-- A number, or the number that a text writes. -/
def doubleOf : Value → Attempt Float
  | .str s =>
    match readFloat? s with
    | some x => .ok x
    | none => .error .badText
  | v =>
    match v.toFloat? with
    | some x => .ok x
    | none => .error .wrongKind

/-- The nearest whole number. -/
def nearest (x : Float) : Attempt Int :=
  match roundFloat? x with
  | some i => .ok i
  | none => .error (if x.isNaN then .badText else .tooLarge)

/-- Seconds as milliseconds. -/
def milliseconds (seconds : Value) : Attempt Int := do nearest ((← doubleOf seconds) * 1000.0)

/-- What a prop holds as an object: nothing for an absent prop, `none` if it is no object. -/
def objectOf? : Option PropValue → Option Value
  | none => some (.map [])
  | some (.lit .object .null) => none
  | some (.lit .object v) => some v
  | some _ => none

/-- An entry that is given as a pair. -/
def pairOf : Value → Attempt (String × Value)
  | .list [.str key, v] => .ok (key, v)
  | .list [_, _] => .error .wrongKind
  | .list _ => .error .badText
  | .str s =>
    match s.toList with
    | [key, v] => .ok (String.singleton key, .str (String.singleton v))
    | _ => .error .badText
  | .map [(key, _), (v, _)] => .ok (key, .str v)
  | .map _ => .error .badText
  | _ => .error .wrongKind

/-- The entries of an object, which may be given as a list of pairs. -/
def objectEntries : Value → Attempt (Assoc Value)
  | .map es => .ok es
  | .list pairs => Assoc.ofPairs <$> pairs.mapM pairOf
  | .str s => if s.isEmpty then .ok [] else .error .badText
  | _ => .error .wrongKind

/-- The number of members of a value. -/
def lengthOf : Value → Attempt Nat
  | .list vs => .ok vs.length
  | .map es => .ok es.length
  | .str s => .ok s.length
  | _ => .error .wrongKind

/-- The members of a value. -/
def itemsOf : Value → List Value
  | .list vs => vs
  | .map es => es.map fun e => .str e.1
  | .str s => s.toList.map fun c => .str (String.singleton c)
  | _ => []

/-- The offsets of keyframes: the given ones if there is one for each value. -/
def offsetsOf (count : Nat) (times : Value) : Attempt (List Float) :=
  match times with
  | .null => .ok (evenOffsets count)
  | times => do
    if (← lengthOf times) != count then return evenOffsets count
    (itemsOf times).mapM doubleOf

private def easingName (v : Value) : Option String :=
  match v with
  | .str "linear" => none
  | v => some v.text

/-- The easings of keyframes: the first has none, and each further one the next that is given. -/
def easingsOf (count : Nat) (ease : Value) : Attempt (List (Option String)) :=
  match ease with
  | .list names =>
    if count == 0 then if names.length ≤ 1 then .ok [] else .error .pastEnd
    else
      let given := (names.take (count - 1)).map easingName
      .ok (none :: given ++ List.replicate (count - 1 - given.length) none)
  | _ => .ok (List.replicate count none)

/-- Keyframes of values. -/
def keyframesOf (values : List Value) (times ease : Value) : Attempt (List Keyframe) := do
  let offsets ← offsetsOf values.length times
  let easings ← easingsOf values.length ease
  return (offsets.zip (values.zip easings)).map fun (o, v, e) =>
    { offset := o, value := v, easing := e }

/-- The tween of one property. -/
def tweenOf (initial : Value) (transition : Assoc Value) (property : String) (target : Value) :
    Attempt Tween :=
  match target with
  | .list values => do
    let own := match transition.get? property with
      | some (.map es) => es
      | _ => []
    let pick := fun key =>
      ((Assoc.get? own key).orElse fun _ => transition.get? key).getD .null
    let frames ← keyframesOf values (pick "times") (pick "ease")
    return { property, start := (frames.head?.map (·.value)).getD .null
             finish := (frames.getLast?.map (·.value)).getD .null, keyframes := frames }
  | target =>
    match initial with
    | .map es => .ok { property, start := (Assoc.get? es property).getD .null, finish := target }
    | _ => .error .unsupported

/-- A prop as handler source. -/
def handlerOf : PropValue → String
  | .expr s => s
  | .lit _ v => ComponentGrammar.ofValue v

/-- The gestures that props state. -/
def gesturesOf (props : Props) : List Gesture :=
  let drag := props.get? "drag"
  let axis := match drag with
    | some (.lit _ (.str s)) => if s == "x" || s == "y" then some s else none
    | _ => none
  let threshold := match props.get? "dragThreshold" with
    | some (.lit _ v) => v.toFloat?
    | _ => none
  let stated := gestureProps.filterMap fun (prop, kind) =>
    (props.get? prop).map fun v =>
      if kind == "drag" then Gesture.mk kind (some (handlerOf v)) axis threshold
      else { kind, handler := some (handlerOf v) }
  if drag.isSome && !props.has "onDrag" then
    stated ++ [⟨"drag", none, axis, threshold⟩]
  else stated

/-- Whether a value asks for repetition. -/
def repeats : Value → Bool
  | .bool b => b
  | .int i => i > 0
  | .float x => x > 0.0
  | _ => false

/-- Moves a transition inside the target into the transition. -/
def foldTransition (animate transition : Assoc Value) : Assoc Value × Assoc Value :=
  match animate.get? "transition" with
  | some (.map own) =>
    (animate.erase "transition", own.foldl (fun acc e => Assoc.put acc e.1 e.2) transition)
  | _ => (animate, transition)

/-- The motion that props state, if they are constant and state any. -/
def ofProps (props : Props) : Attempt (Option Spec) := do
  match objectOf? (props.get? "initial"), objectOf? (props.get? "animate") with
  | some initial, some animate =>
    let animate ← objectEntries animate
    match objectOf? (props.get? "transition") with
    | none => return none
    | some transition =>
      let transition ← objectEntries transition
      let (animate, transition) := foldTransition animate transition
      let tweens ← animate.mapM fun e => tweenOf initial transition e.1 e.2
      let gestures := gesturesOf props
      if tweens.isEmpty && gestures.isEmpty then return none
      let pick := fun key fallback => (transition.get? key).getD fallback
      let duration ← milliseconds (pick "duration" (.float 0.3))
      let delay ← milliseconds (pick "delay" (.int 0))
      let easing := ((pick "ease" (.str "easeInOut")).str?).getD "easeInOut"
      return some { tweens, duration, delay, easing, gestures
                    repeats := repeats (pick "repeat" (.int 0)) }
  | _, _ => return none

end WidgetBridge.Motion
