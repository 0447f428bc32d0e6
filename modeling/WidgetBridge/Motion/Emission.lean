import WidgetBridge.Framework
import WidgetBridge.Mapping.Transform
import WidgetBridge.Motion.Easing
import WidgetBridge.Motion.Keyframes
import WidgetBridge.Motion.Props
import WidgetBridge.WidgetGrammar.Literal

/-!
# Writing motion

The motion of an element is written around the source of the element: as one wrapper with props on
the component side, and as one builder a tween and one detector of gestures on the widget side.
-/

namespace WidgetBridge.Motion

open WidgetBridge.Text WidgetBridge.Number

/-- Source together with what got lost while writing it. -/
structure Written where
  text : String
  warnings : List String := []
  deriving Inhabited

/-! ## Component side -/

/-- Milliseconds as seconds: a whole number where there is one. -/
def secondsOf (ms : Int) : Value :=
  if ms % 1000 = 0 then .int (ms / 1000) else .float (Float.ofInt ms / 1000.0)

/-- An object of keys and source. -/
def objectText (items : List (String × String)) : String :=
  if items.isEmpty then "\x7b\x7d"
  else "\x7b " ++ join ", " (items.map fun i => ComponentGrammar.key i.1 ++ ": " ++ i.2) ++ " \x7d"

/-- Memberwise equality of numbers. -/
def sameOffsets : List Float → List Float → Bool
  | [], [] => true
  | a :: as, b :: bs => a == b && sameOffsets as bs
  | _, _ => false

/-- Whether a keyframe has an easing of its own. -/
def Keyframe.isEased (k : Keyframe) : Bool := !(k.easing.getD "").isEmpty

/-- The offsets that all tweens through keyframes share, if there are such tweens and none of
their keyframes has an easing of its own. -/
def sharedOffsets? (tweens : List Tween) : Option (List Float) :=
  let keyed := tweens.filter fun t => !t.keyframes.isEmpty
  match keyed.map fun t => t.keyframes.map (·.offset) with
  | [] => none
  | os :: rest =>
    if rest.all (sameOffsets os) && !keyed.any fun t => t.keyframes.any Keyframe.isEased then
      some os
    else none

/-- The timing of one tween through keyframes. -/
def ownTiming (t : Tween) : String :=
  let times := [("times",
    ComponentGrammar.ofValue (.list (t.keyframes.map fun k => .float k.offset)))]
  let eases := (t.keyframes.drop 1).map fun k =>
    if k.isEased then k.easing.getD "linear" else "linear"
  objectText (if eases.any (· != "linear") then
    times ++ [("ease", ComponentGrammar.ofValue (.list (eases.map .str)))] else times)

/-- The props of the tweens of a motion. -/
def tweenAttributes (s : Spec) : List String :=
  let shared := sharedOffsets? s.tweens
  let timing :=
    [("duration", ComponentGrammar.ofValue (secondsOf s.duration))] ++
    (if s.delay != 0 then [("delay", ComponentGrammar.ofValue (secondsOf s.delay))] else []) ++
    [("ease", ComponentGrammar.ofValue (.str s.easing))] ++
    (if s.repeats then [("repeat", "Infinity")] else []) ++
    (match shared with
      | some os =>
        if sameOffsets os (evenOffsets os.length) then []
        else [("times", ComponentGrammar.ofValue (.list (os.map .float)))]
      | none => [])
  let isNull := fun (v : Value) => match v with
    | .null => true
    | _ => false
  let initial := s.tweens.filterMap fun t =>
    if t.keyframes.isEmpty && !isNull t.start
    then some (t.property, ComponentGrammar.ofValue t.start)
    else none
  let animate := s.tweens.map fun t =>
    if t.keyframes.isEmpty then (t.property, ComponentGrammar.ofValue t.finish)
    else (t.property, ComponentGrammar.ofValue (.list (t.keyframes.map (·.value))))
  let own := s.tweens.filterMap fun t =>
    if shared.isNone && !t.keyframes.isEmpty then some (t.property, ownTiming t) else none
  let prop := fun name items => name ++ "=\x7b" ++ objectText items ++ "\x7d"
  (if initial.isEmpty then [] else [prop "initial" initial]) ++
    (if animate.isEmpty then [] else [prop "animate" animate]) ++
    (if s.tweens.isEmpty then [] else [prop "transition" (timing ++ own)])

/-- The props of a gesture. -/
def Gesture.attributes (g : Gesture) : Attempt (List String) :=
  match gestureProps.find? fun e => e.2 == g.kind with
  | none => .error .noChoice
  | some (prop, kind) =>
    let drag := if kind == "drag" then
        [if (g.axis.getD "").isEmpty then "drag" else "drag=\"" ++ g.axis.getD "" ++ "\""] ++
        (match g.threshold with
          | some x => ["dragThreshold=\x7b" ++ formatFloat x ++ "\x7d"]
          | none => [])
      else []
    let handler := match g.handler with
      | some h => [prop ++ "=\x7b" ++ h ++ "\x7d"]
      | none => []
    .ok (drag ++ handler)

/-- The component that carries motion. -/
def wrapperTag : String := "motion.div"

/-- Writes motion around a component. -/
def aroundComponent (s : Spec) (child indent : String) : Attempt String := do
  let gestures ← s.gestures.mapM Gesture.attributes
  let attributes := join " " (tweenAttributes s ++ gestures.flatten)
  return "<" ++ wrapperTag ++ " " ++ attributes ++ ">\n" ++ indentLines indent child ++ "\n</" ++
    wrapperTag ++ ">"

/-! ## Widget side -/

/-- A number as a double; other data as it is. -/
def doubleText (v : Value) : String :=
  match v with
  | .int i => WidgetGrammar.ofValue (.float (Float.ofInt i))
  | v => WidgetGrammar.ofValue v

/-- A colour; nothing where it has no widget form. -/
def colorText (v : Value) : String :=
  match v with
  | .null => "null"
  | v =>
    match Mapping.applyColor .forward (.literal v) with
    | .ok (.expr s) => s
    | .ok (.lit _ _) => WidgetGrammar.ofValue v
    | .error _ => "null"

/-- The whole length of a motion and its curve, which covers a part of it if there is a delay. -/
def curveText (s : Spec) : Attempt (Int × String) :=
  let curve := "Curves." ++ curveOf s.easing
  if s.delay == 0 then .ok (s.duration, curve)
  else
    let total := s.delay + s.duration
    if total == 0 then .error .divisionByZero
    else
      let start := roundPlaces (Float.ofInt s.delay / Float.ofInt total) 6
      .ok (total, "Interval(" ++ formatFloat start ++ ", 1.0, curve: " ++ curve ++ ")")

/-- One segment of a sequence. -/
def segmentText (g : Segment) : String :=
  let tween := "Tween<double>(begin: " ++ doubleText g.start ++ ", end: " ++
    doubleText g.finish ++ ")"
  let tween := if g.curve == "linear" then tween
    else tween ++ ".chain(CurveTween(curve: Curves." ++ curveOf g.curve ++ "))"
  "TweenSequenceItem(tween: " ++ tween ++ ", weight: " ++ formatFloat g.weight ++ ")"

/-- Keyframes as a sequence. -/
def sequenceText (frames : List Keyframe) : String :=
  "TweenSequence<double>([" ++ join ", " ((lowerKeyframes frames).map segmentText) ++ "])"

/-- Indents every line but the first, which continues a line. -/
def indentTail (s indent : String) : String :=
  match lines s with
  | [] => ""
  | l :: ls => join "\n" (l :: ls.map fun m => if m.isEmpty then m else indent ++ m)

/-- The type, the tween and the animated value of a builder. -/
def builderParts (t : Tween) : String × String × String :=
  if colorProperties.contains t.property then
    ("Color?", "ColorTween(begin: " ++ colorText t.start ++ ", end: " ++ colorText t.finish ++ ")",
      "value")
  else if !t.keyframes.isEmpty then
    ("double", "Tween<double>(begin: 0.0, end: 1.0)",
      sequenceText t.keyframes ++ ".transform(value)")
  else
    let start := match t.start with
      | .null => t.finish
      | v => v
    ("double", "Tween<double>(begin: " ++ doubleText start ++ ", end: " ++ doubleText t.finish ++
      ")", "value")

/-- Writes one tween around a widget. A property without carrier is left out. -/
def aroundTween (s : Spec) (indent : String) (t : Tween) (child : Written) :
    Attempt Written := do
  match carrierOf? t.property with
  | none =>
    return { child with warnings := child.warnings ++
      ["animated property '" ++ t.property ++ "' has no widget-tree equivalent; dropped"] }
  | some c =>
    let (total, curve) ← curveText s
    let lost := if colorProperties.contains t.property && !t.keyframes.isEmpty then
        ["color keyframes on '" ++ t.property ++ "' reduced to first and last values"]
      else []
    let (type, tween, animated) := builderParts t
    let text := join "\n" [
      "TweenAnimationBuilder<" ++ type ++ ">(" ++ (if s.repeats then repeatMark else ""),
      indent ++ "tween: " ++ tween ++ ",",
      indent ++ "duration: const Duration(milliseconds: " ++ showInt total ++ "),",
      indent ++ "curve: " ++ curve ++ ",",
      indent ++ "builder: (context, value, child) => " ++ c.callee ++ "(" ++ c.argument ++ ": " ++
        c.before ++ animated ++ c.after ++ ", child: child),",
      indent ++ "child: " ++ indentTail child.text indent ++ ",",
      ")"]
    return { text, warnings := child.warnings ++ lost }

/-- A handler, or what stands for it where there is none. -/
def orElseText (h : Option String) (fallback : String) : String :=
  match h with
  | some s => if s.isEmpty then fallback else s
  | none => fallback

/-- The argument of a gesture, if it has one, and what got lost. -/
def gestureArgument (pinched : Bool) (g : Gesture) : Option String × List String :=
  let nothing := "(_) \x7b\x7d"
  match g.kind with
  | "tap" => (some ("onTap: " ++ orElseText g.handler "() \x7b\x7d"), [])
  | "longPress" => (some ("onLongPress: " ++ orElseText g.handler "() \x7b\x7d"), [])
  | "drag" =>
    let name := match g.axis.getD "" with
      | "x" => "onHorizontalDragUpdate"
      | "y" => "onVerticalDragUpdate"
      | _ => "onPanUpdate"
    (some (name ++ ": " ++ orElseText g.handler nothing), match g.threshold with
      | some x => ["drag threshold " ++ formatFloat x ++ " dropped"]
      | none => [])
  | "pinch" => (some ("onScaleUpdate: " ++ orElseText g.handler nothing), [])
  | "rotate" =>
    if pinched then (none, ["rotate gesture shares onScaleUpdate with pinch; dropped"])
    else (some ("onScaleUpdate: (details) => (" ++ orElseText g.handler nothing ++
      ")(details.rotation)"), [])
  | _ => (none, [])

/-- Writes a detector of gestures around a widget. -/
def aroundGestures (gestures : List Gesture) (indent : String) (child : Written) : Written :=
  let pinched := gestures.any fun g => g.kind == "pinch"
  let arguments := gestures.map (gestureArgument pinched)
  { text := join "\n" (["GestureDetector("] ++
      (arguments.filterMap (·.1)).map (fun a => indent ++ a ++ ",") ++
      [indent ++ "child: " ++ indentTail child.text indent ++ ",", ")"])
    warnings := child.warnings ++ arguments.flatMap (·.2) }

/-- Writes motion around a widget: the first tween outermost, and the gestures around all. -/
def aroundWidget (s : Spec) (child indent : String) : Attempt Written := do
  let text ← s.tweens.reverse.foldlM (fun acc t => aroundTween s indent t acc) ⟨child, []⟩
  return if s.gestures.isEmpty then text else aroundGestures s.gestures indent text

/-- Writes motion around an element. -/
def around (framework : Framework) (s : Spec) (child indent : String) : Attempt Written :=
  match framework with
  | .component => do return ⟨← aroundComponent s child indent, []⟩
  | .widget => aroundWidget s child indent

end WidgetBridge.Motion
