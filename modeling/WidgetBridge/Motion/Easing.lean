import WidgetBridge.Value

/-!
# Easings

Easings are kept under their component names. The widget side knows them as curves; a name outside
the table is the same on both sides.
-/

namespace WidgetBridge.Motion

open WidgetBridge.Text

/-- The easings whose names are known on both sides: component name and curve. -/
def easings : Assoc String :=
  [("linear", "linear"), ("easeIn", "easeIn"), ("easeOut", "easeOut"),
    ("easeInOut", "easeInOut"), ("circIn", "easeInCirc"), ("circOut", "easeOutCirc"),
    ("circInOut", "easeInOutCirc"), ("backIn", "easeInBack"), ("backOut", "easeOutBack"),
    ("backInOut", "easeInOutBack")]

/-- The curve of an easing. -/
def curveOf (easing : String) : String := (easings.get? easing).getD easing

/-- The easing of a curve, written with or without its class. -/
def easingOf (curve : String) : String :=
  let name := dropHead (trim curve) "Curves."
  ((easings.find? fun e => e.2 == name).map (·.1)).getD name

/-- The properties that have colours for values. -/
def colorProperties : List String := ["backgroundColor", "color"]

/-- The widget that carries an animated value: which property it stands for, its constructor, the
argument for the value, and the source around the value. -/
structure Carrier where
  property : String
  callee : String
  argument : String
  before : String
  after : String

/-- The carriers of all properties that the widget side can animate. -/
def carriers : List Carrier :=
  [⟨"opacity", "Opacity", "opacity", "", ""⟩,
   ⟨"scale", "Transform.scale", "scale", "", ""⟩,
   ⟨"rotate", "Transform.rotate", "angle", "", " * 0.017453292519943295"⟩,
   ⟨"x", "Transform.translate", "offset", "Offset(", ", 0.0)"⟩,
   ⟨"y", "Transform.translate", "offset", "Offset(0.0, ", ")"⟩,
   ⟨"width", "SizedBox", "width", "", ""⟩,
   ⟨"height", "SizedBox", "height", "", ""⟩,
   ⟨"backgroundColor", "ColoredBox", "color", "", " ?? Colors.transparent"⟩,
   ⟨"color", "DefaultTextStyle.merge", "style", "TextStyle(color: ", ")"⟩]

/-- The carrier of a property. -/
def carrierOf? (property : String) : Option Carrier :=
  carriers.find? fun c => c.property == property

/-- The comment that marks an animation as repeating. -/
def repeatMark : String := "/* animation: repeat */"

end WidgetBridge.Motion
