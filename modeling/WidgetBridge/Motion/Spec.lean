import WidgetBridge.Value

/-!
# Motion

What moves in an element: tweens of its properties, from a begin to an end or through keyframes,
with a common timing, and the gestures it answers to.
-/

namespace WidgetBridge.Motion

/-- A value at a share of the duration, from zero to one. -/
structure Keyframe where
  offset : Float
  value : Value := .null
  easing : Option String := none
  deriving Inhabited

/-- The motion of one property. -/
structure Tween where
  property : String
  start : Value := .null
  finish : Value := .null
  keyframes : List Keyframe := []
  deriving Inhabited

/-- A gesture: its kind, the source text of its handler and its constraints. -/
structure Gesture where
  kind : String
  handler : Option String := none
  axis : Option String := none
  threshold : Option Float := none
  deriving Inhabited

/-- All motion of an element. Times are milliseconds. -/
structure Spec where
  tweens : List Tween := []
  duration : Int := 300
  delay : Int := 0
  easing : String := "easeInOut"
  repeats : Bool := false
  gestures : List Gesture := []
  deriving Inhabited

/-- One piece of a sequence of tweens, with its share of the whole. -/
structure Segment where
  start : Value
  finish : Value
  weight : Float
  curve : String := "linear"
  deriving Inhabited

end WidgetBridge.Motion
