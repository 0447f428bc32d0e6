import WidgetBridge.Mapping.Transform
import WidgetBridge.Motion.Easing
import WidgetBridge.Motion.Keyframes
import WidgetBridge.Motion.Props
import WidgetBridge.WidgetGrammar.Expr

/-!
# Motion in widget wrappers

The widget side states motion by wrapping a widget: a builder a tween, implicit animations, and a
detector of gestures. `Motion.ofWrappers` collapses such a chain onto the widget inside it.
-/

namespace WidgetBridge.Motion

open WidgetBridge.Text WidgetBridge.Number WidgetBridge.WidgetGrammar

namespace Form

open Pattern

private def places : Pattern := many1 (char fun c => isDecimal c || c == '.')
private def digits : Pattern := many1 digit

/-- A length in milliseconds. -/
def inMilliseconds : Pattern :=
  lit "Duration(" ++ blanks ++ lit "milliseconds:" ++ blanks ++ group 1 digits ++ blanks ++ lit ")"

/-- A length in seconds. -/
def inSeconds : Pattern :=
  lit "Duration(" ++ blanks ++ lit "seconds:" ++ blanks ++ group 1 digits ++ blanks ++ lit ")"

/-- A part of the duration, with an optional curve. -/
def interval : Pattern :=
  textStart ++ lit "Interval(" ++ blanks ++ group 1 places ++ blanks ++ lit "," ++ blanks ++
    group 2 places ++ blanks ++
    opt (lit "," ++ blanks ++ lit "curve:" ++ blanks ++ group 3 (lit "Curves." ++ words1) ++
      blanks) ++ lit ")" ++ textEnd

/-- One segment of a sequence. -/
def sequenceItem : Pattern :=
  lit "TweenSequenceItem(" ++ blanks ++ lit "tween:" ++ blanks ++ lit "Tween<double>(" ++
    blanks ++ lit "begin:" ++ blanks ++ group 1 (opt (lit "-") ++ places) ++ blanks ++
    lit "," ++ blanks ++ lit "end:" ++ blanks ++ group 2 (opt (lit "-") ++ places) ++ blanks ++
    lit ")" ++
    opt (lit ".chain(" ++ blanks ++ lit "CurveTween(" ++ blanks ++ lit "curve:" ++ blanks ++
      lit "Curves." ++ group 3 words1 ++ blanks ++ lit ")" ++ blanks ++ lit ")") ++
    blanks ++ lit "," ++ blanks ++ lit "weight:" ++ blanks ++ group 4 places ++ blanks ++ lit ")"

/-- A handler that gets the rotation only. -/
def rotationHandler : Pattern :=
  textStart ++ lit "(details)" ++ blanks ++ lit "=>" ++ blanks ++ lit "(" ++
    group 1 (many1 any) ++ lit ")(details.rotation)" ++ textEnd

/-- A handler that does nothing. -/
def emptyHandler : Pattern :=
  textStart ++ lit "(_)" ++ blanks ++ lit "\x7b" ++ blanks ++ lit "\x7d" ++ textEnd

end Form

/-- The constructors that wrap. -/
def wrapperNames : List String :=
  ["TweenAnimationBuilder", "AnimatedOpacity", "AnimatedScale", "AnimatedRotation",
    "AnimatedSlide", "GestureDetector"]

/-- What a wrapper says about timing. -/
structure Timing where
  duration : Option Int := none
  delay : Option Int := none
  easing : Option String := none
  repeats : Option Bool := none

/-- Two timings together: the first one has precedence. -/
def Timing.or (a b : Timing) : Timing :=
  { duration := a.duration.orElse fun _ => b.duration
    delay := a.delay.orElse fun _ => b.delay
    easing := a.easing.orElse fun _ => b.easing
    repeats := a.repeats.orElse fun _ => b.repeats }

/-- The length that an expression states. -/
def durationOf? (source : String) : Option Int :=
  match Form.inMilliseconds.search? source with
  | some m => readInt? (m.get 1)
  | none => (Form.inSeconds.search? source).bind fun m => (readInt? (m.get 1)).map (· * 1000)

/-- The number that a text writes. -/
def readDouble (s : String) : Attempt Float :=
  match readFloat? s with
  | some x => .ok x
  | none => .error .badText

/-- The timing of a wrapper. -/
def timingOf (args : List (Option String × Expr)) (comments : List String) : Attempt Timing := do
  let duration := (Expr.named? args "duration").bind fun e => durationOf? e.text
  let repeats := if comments.any fun c => occursIn repeatMark c then some true else none
  match Expr.named? args "curve" with
  | none => return { duration, repeats }
  | some curve =>
    match Form.interval.matchStart? curve.text with
    | some m =>
      let total := duration.getD 300
      let delay ← nearest ((← readDouble (m.get 1)) * Float.ofInt total)
      return { duration := some (total - delay), delay := some delay
               easing := (m.group? 3).map easingOf, repeats }
    | none => return { duration, easing := some (easingOf curve.text), repeats }

/-- The constant that an argument holds. -/
def constantOf (e : Option Expr) : Value := (e.bind WidgetGrammar.constant?).getD .null

/-- The colour that an argument holds, as component data. -/
def colorOf (e : Option Expr) : Value :=
  match e with
  | none => .null
  | some e =>
    match Mapping.applyColor .backward e.toProp with
    | .ok (.lit _ v) => v
    | _ => .null

/-- The segments of a sequence. -/
def segmentsOf (source : String) : Attempt (List Segment) :=
  (Form.sequenceItem.findAll source).mapM fun m => do
    return { start := .float (← readDouble (m.get 1)), finish := .float (← readDouble (m.get 2))
             weight := ← readDouble (m.get 4), curve := (m.group? 3).getD "linear" }

/-- The animated value inside the argument of a carrier. -/
def Carrier.inner? (c : Carrier) (source : String) : Option String :=
  match dropHead? c.before.toList source.toList with
  | none => none
  | some rest =>
    match dropHead? c.after.toList.reverse rest.reverse with
    | none => none
    | some middle => if middle.isEmpty then none else some (trim (String.ofList middle.reverse))

/-- What a carrier tells: nothing, that the builder cannot be read, or a tween. -/
inductive Reading where
  | passed
  | unreadable
  | tween (t : Tween)

/-- Reads a builder as the animation of one carrier. -/
def Carrier.read (c : Carrier) (valueName : String) (body tween : List (Option String × Expr)) :
    Attempt Reading :=
  match (Expr.named? body c.argument).bind fun e => c.inner? e.text with
  | none => .ok .passed
  | some inner =>
    let start := Expr.named? tween "begin"
    let finish := Expr.named? tween "end"
    if colorProperties.contains c.property then
      if inner != valueName then .ok .passed
      else .ok (.tween { property := c.property, start := colorOf start, finish := colorOf finish })
    else if inner == valueName then
      .ok (.tween { property := c.property, start := constantOf start
                    finish := constantOf finish })
    else if hasHead inner "TweenSequence" && hasTail inner (".transform(" ++ valueName ++ ")")
    then do
      let frames ← raiseSegments (← segmentsOf inner)
      let frames := frames.map fun k => { k with easing := k.easing.map easingOf }
      if frames.isEmpty then return .unreadable
      return .tween { property := c.property, start := (frames.head?.map (·.value)).getD .null
                      finish := (frames.getLast?.map (·.value)).getD .null, keyframes := frames }
    else .ok .passed

/-- The first tween that one of some carriers reads. -/
def firstReading (valueName callee : String) (body tween : List (Option String × Expr)) :
    List Carrier → Attempt (Option Tween)
  | [] => .ok none
  | c :: cs =>
    if c.callee != callee then firstReading valueName callee body tween cs
    else do
      match ← c.read valueName body tween with
      | .passed => firstReading valueName callee body tween cs
      | .unreadable => return none
      | .tween t => return some t

/-- The tween of a builder, if it can be read. -/
def builderTween (args : List (Option String × Expr)) : Attempt (Option Tween) :=
  match Expr.named? args "builder", Expr.named? args "tween" with
  | some (.closure _ params (some (.call _ callee _ body _)) _), some (.call _ _ _ tween _) =>
    firstReading ((params[1]?).getD "value") callee body tween carriers
  | _, _ => .ok none

private def turned : Value → Value
  | .int i => .int (i * 360)
  | .bool b => .int (if b then 360 else 0)
  | .float x => .float (x * 360.0)
  | _ => .null

/-- The tweens of an implicit animation, if it can be read. -/
def implicitTweens (callee : String) (args : List (Option String × Expr)) :
    Option (List Tween) :=
  let target := fun property v => ({ property, finish := v } : Tween)
  match callee with
  | "AnimatedOpacity" => some [target "opacity" (constantOf (Expr.named? args "opacity"))]
  | "AnimatedScale" => some [target "scale" (constantOf (Expr.named? args "scale"))]
  | "AnimatedRotation" =>
    some [target "rotate" (turned (constantOf (Expr.named? args "turns")))]
  | "AnimatedSlide" =>
    match Expr.named? args "offset" with
    | some (.call _ _ _ offset _) =>
      match Expr.positional offset with
      | [x, y] => some [target "x" (constantOf (some x)), target "y" (constantOf (some y))]
      | _ => none
    | _ => none
  | _ => none

/-- The gestures of a detector, and what it holds beside them. -/
def detectorGestures : List (Option String × Expr) → List Gesture × List String
  | [] => ([], [])
  | (none, _) :: args => detectorGestures args
  | (some name, e) :: args =>
    let (gestures, warnings) := detectorGestures args
    let source := e.text
    let handler := if Form.emptyHandler.matchesStart source then none else some source
    match name with
    | "child" => (gestures, warnings)
    | "onTap" => ({ kind := "tap", handler } :: gestures, warnings)
    | "onLongPress" => ({ kind := "longPress", handler } :: gestures, warnings)
    | "onPanUpdate" => ({ kind := "drag", handler } :: gestures, warnings)
    | "onHorizontalDragUpdate" =>
      ({ kind := "drag", handler, axis := some "x" } :: gestures, warnings)
    | "onVerticalDragUpdate" =>
      ({ kind := "drag", handler, axis := some "y" } :: gestures, warnings)
    | "onScaleUpdate" =>
      match Form.rotationHandler.matchStart? source with
      | some m => ({ kind := "rotate", handler := some (trim (m.get 1)) } :: gestures, warnings)
      | none => ({ kind := "pinch", handler } :: gestures, warnings)
    | other =>
      (gestures,
        ("GestureDetector." ++ other ++ " has no gesture equivalent; dropped") :: warnings)

/-- What a chain of wrappers states so far. -/
structure Collected where
  tweens : List Tween := []
  gestures : List Gesture := []
  timing : Timing := {}
  warnings : List String := []

/-- The motion of what was collected. -/
def Collected.spec (c : Collected) : Spec :=
  { tweens := c.tweens, duration := c.timing.duration.getD 300, delay := c.timing.delay.getD 0
    easing := c.timing.easing.getD "easeInOut", repeats := c.timing.repeats.getD false
    gestures := c.gestures }

/-- One wrapper on top of what was collected; `none` if it cannot be read. -/
def Collected.add (c : Collected) (callee : String) (args : List (Option String × Expr))
    (comments : List String) : Attempt (Option Collected) := do
  if callee == "GestureDetector" then
    let (gestures, warnings) := detectorGestures args
    return some { c with
      gestures := c.gestures ++ gestures, warnings := c.warnings ++ warnings }
  else
    let tweens ←
      if callee == "TweenAnimationBuilder" then
        (builderTween args).map fun t => t.map fun t => [t]
      else pure (implicitTweens callee args)
    match tweens with
    | none => return none
    | some ts =>
      let timing ← timingOf args comments
      return some { c with tweens := c.tweens ++ ts, timing := c.timing.or timing }

/-- Follows a chain of wrappers inwards. The second part is what the chain ends at. -/
def followWrappers : (fuel : Nat) → Collected → Expr → Attempt (Collected × Option Expr)
  | 0, c, e => .ok (c, some e)
  | fuel + 1, c, e =>
    match e with
    | .call _ callee _ args comments =>
      if !wrapperNames.contains callee then .ok (c, some e)
      else do
        match ← c.add callee args comments with
        | none => return (c, some e)
        | some c' =>
          match Expr.named? args "child" with
          | some child => followWrappers fuel c' child
          | none => return (c', none)
    | e => .ok (c, some e)

/-- A collapsed chain of wrappers: its motion, the widget inside, and what got lost. -/
structure Collapsed where
  spec : Spec
  child : Option Expr
  warnings : List String

/-- Collapses a chain of wrappers; `none` if the expression is no wrapper that can be read. -/
def ofWrappers (e : Expr) : Attempt (Option Collapsed) :=
  match e with
  | .call _ callee _ args comments => do
    if !wrapperNames.contains callee then return none
    match ← Collected.add {} callee args comments with
    | none => return none
    | some c =>
      match Expr.named? args "child" with
      | none => return some ⟨c.spec, none, c.warnings⟩
      | some child =>
        let (c, rest) ← followWrappers (TokenTree.sizeOf' e.range.trees) c child
        return some ⟨c.spec, rest, c.warnings⟩
  | _ => .ok none

end WidgetBridge.Motion
