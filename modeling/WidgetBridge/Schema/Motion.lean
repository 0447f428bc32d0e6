import WidgetBridge.Motion.Spec
import WidgetBridge.Schema.Field

/-!
# Schemas of motion

A motion as plain data, and back.
-/

namespace WidgetBridge.Motion

open WidgetBridge.Schema

/-- A keyframe as plain data. -/
def Keyframe.toSchema (k : Keyframe) : Value :=
  .map [("offset", .float k.offset), ("value", k.value), ("easing", ofOptionalText k.easing)]

/-- Reads a keyframe from plain data. -/
def Keyframe.ofSchema (v : Value) : Attempt Keyframe := do
  let es ← record ["offset", "value"] ["offset", "value", "easing"] v
  return { offset := ← asFloat ((es.get? "offset").getD .null)
           value := (es.get? "value").getD .null
           easing := ← asOptionalText ((es.get? "easing").getD .null) }

/-- A tween as plain data. -/
def Tween.toSchema (t : Tween) : Value :=
  .map [("property", .str t.property), ("begin", t.start), ("end", t.finish),
    ("keyframes", .list (t.keyframes.map Keyframe.toSchema))]

/-- Reads a tween from plain data. -/
def Tween.ofSchema (v : Value) : Attempt Tween := do
  let property ← asText (← field v "property")
  let start ← fieldOr v "begin" .null
  let finish ← fieldOr v "end" .null
  let keyframes ← (← asList (← fieldOr v "keyframes" (.list []))).mapM Keyframe.ofSchema
  return { property, start, finish, keyframes }

/-- A gesture as plain data. -/
def Gesture.toSchema (g : Gesture) : Value :=
  .map [("kind", .str g.kind), ("handler", ofOptionalText g.handler),
    ("axis", ofOptionalText g.axis),
    ("threshold", (g.threshold.map Value.float).getD .null)]

/-- Reads an optional double. -/
def thresholdOf : Value → Attempt (Option Float)
  | .null => .ok none
  | v => do return some (← asFloat v)

/-- Reads a gesture from plain data. -/
def Gesture.ofSchema (v : Value) : Attempt Gesture := do
  let es ← record ["kind"] ["kind", "handler", "axis", "threshold"] v
  return { kind := ← asText ((es.get? "kind").getD .null)
           handler := ← asOptionalText ((es.get? "handler").getD .null)
           axis := ← asOptionalText ((es.get? "axis").getD .null)
           threshold := ← thresholdOf ((es.get? "threshold").getD .null) }

/-- A motion as plain data. -/
def Spec.toSchema (s : Spec) : Value :=
  .map [("tweens", .list (s.tweens.map Tween.toSchema)), ("duration_ms", .int s.duration),
    ("delay_ms", .int s.delay), ("easing", .str s.easing), ("repeat", .bool s.repeats),
    ("gestures", .list (s.gestures.map Gesture.toSchema))]

/-- Reads a motion from plain data. -/
def Spec.ofSchema (v : Value) : Attempt Spec := do
  let tweens ← (← asList (← fieldOr v "tweens" (.list []))).mapM Tween.ofSchema
  let duration ← asInt (← fieldOr v "duration_ms" (.int 300))
  let delay ← asInt (← fieldOr v "delay_ms" (.int 0))
  let easing ← asText (← fieldOr v "easing" (.str "easeInOut"))
  let repeats := (← fieldOr v "repeat" (.bool false)).truthy
  let gestures ← (← asList (← fieldOr v "gestures" (.list []))).mapM Gesture.ofSchema
  return { tweens, duration, delay, easing, repeats, gestures }

end WidgetBridge.Motion
