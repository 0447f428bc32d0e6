import WidgetBridge.Failure
import WidgetBridge.Motion.Spec

/-!
# Keyframes and segments

A tween through keyframes is the same as a sequence of weighted segments. The weight of a segment
is the gap between its two keyframes in percent, rounded to six places.
-/

namespace WidgetBridge.Motion

open WidgetBridge.Number

/-- Offsets that divide the duration evenly. -/
def evenOffsets (count : Nat) : List Float :=
  if count ≤ 1 then List.replicate count 0.0
  else (List.range count).map fun i => Float.ofNat i / Float.ofNat (count - 1)

/-- The segment between two keyframes, unless it has no weight. -/
def segmentBetween? (a b : Keyframe) : Option Segment :=
  let weight := roundPlaces ((b.offset - a.offset) * 100.0) 6
  if weight ≤ 0.0 then none
  else
    let curve := match b.easing with
      | some e => if e.isEmpty then "linear" else e
      | none => "linear"
    some ⟨a.value, b.value, weight, curve⟩

/-- The segments between keyframes in the order of their offsets. -/
def lowerKeyframes (frames : List Keyframe) : List Segment :=
  let ordered := frames.mergeSort fun a b => a.offset ≤ b.offset
  (ordered.zip (ordered.drop 1)).filterMap fun (a, b) => segmentBetween? a b

/-- The keyframes at the ends of segments, after a weight that has passed. -/
def framesFrom (total passed : Float) : List Segment → List Keyframe
  | [] => []
  | s :: ss =>
    let passed := passed + s.weight
    { offset := roundPlaces (passed / total) 6, value := s.finish
      easing := if s.curve == "linear" then none else some s.curve } ::
      framesFrom total passed ss

/-- The keyframes that segments run between. -/
def raiseSegments : List Segment → Attempt (List Keyframe)
  | [] => .ok []
  | s :: ss =>
    let total := (s :: ss).foldl (fun acc t => acc + t.weight) 0.0
    if total == 0.0 then .error .divisionByZero
    else .ok ({ offset := 0.0, value := s.start } :: framesFrom total 0.0 (s :: ss))

end WidgetBridge.Motion
