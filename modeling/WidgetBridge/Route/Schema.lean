import WidgetBridge.Value

/-!
# Route schemas

A route schema is the navigation of an application: a tree of routes, the guards that run around a
navigation, and how one screen gives way to the next.
-/

namespace WidgetBridge.Route

/-- How one screen gives way to the next. -/
inductive Effect where
  | fade
  | slide
  | slideLeft
  | slideRight
  | slideUp
  | slideDown
  | scale
  | platformDefault
  | none
  deriving Repr, DecidableEq, Inhabited

namespace Effect

/-- The name of an effect. -/
def name : Effect → String
  | .fade => "fade"
  | .slide => "slide"
  | .slideLeft => "slideLeft"
  | .slideRight => "slideRight"
  | .slideUp => "slideUp"
  | .slideDown => "slideDown"
  | .scale => "scale"
  | .platformDefault => "platformDefault"
  | .none => "none"

/-- All effects. -/
def all : List Effect :=
  [.fade, .slide, .slideLeft, .slideRight, .slideUp, .slideDown, .scale, .platformDefault, .none]

/-- The effect of a name; an unknown name stands for the default of the platform. -/
def ofName (s : String) : Effect := (all.find? fun e => e.name == s).getD .platformDefault

/-- Every effect is found under its own name. -/
@[simp] theorem ofName_name (e : Effect) : ofName e.name = e := by
  cases e <;> decide

end Effect

/-- When a guard runs. -/
inductive Phase where
  | before
  | after
  deriving Repr, DecidableEq, Inhabited

/-- The name of a phase. -/
def Phase.name : Phase → String
  | .before => "before"
  | .after => "after"

/-- The phase of a name. -/
def Phase.ofName? : String → Option Phase
  | "before" => some .before
  | "after" => some .after
  | _ => .none

/-- A parameter of a path. -/
structure Param where
  name : String
  type : String := "string"
  required : Bool := true
  deriving Repr, DecidableEq, Inhabited

/-- How a screen appears: the effect, its length in milliseconds, and its easing. -/
structure Transition where
  effect : Effect := .platformDefault
  duration : Int := 300
  easing : String := "easeInOut"
  deriving Repr, DecidableEq, Inhabited

/-- A named check around a navigation. Its handler is source text. -/
structure Guard where
  name : String
  handler : String := ""
  phase : Phase := .before
  routes : List String := []
  priority : Int := 0
  deriving Repr, DecidableEq, Inhabited

end Route

/-- A route and the routes below it. -/
inductive Route where
  | mk (name path component : String) (params : List Route.Param) (children : List Route)
    (info : Assoc Value) (transition : Option Route.Transition) (guards : List String)
  deriving Inhabited

namespace Route

/-- The name of a route. -/
def name : Route → String
  | .mk n _ _ _ _ _ _ _ => n

/-- The path of a route. -/
def path : Route → String
  | .mk _ p _ _ _ _ _ _ => p

/-- The component that a route shows. -/
def component : Route → String
  | .mk _ _ c _ _ _ _ _ => c

/-- The parameters in the path of a route. -/
def params : Route → List Param
  | .mk _ _ _ ps _ _ _ _ => ps

/-- The routes below a route. -/
def children : Route → List Route
  | .mk _ _ _ _ cs _ _ _ => cs

/-- The further data of a route. -/
def info : Route → Assoc Value
  | .mk _ _ _ _ _ i _ _ => i

/-- The transition of a route. -/
def transition : Route → Option Transition
  | .mk _ _ _ _ _ _ t _ => t

/-- The names of the guards of a route. -/
def guards : Route → List String
  | .mk _ _ _ _ _ _ _ gs => gs

mutual

/-- A route and all routes below it, parents before children. -/
def flat : Route → List Route
  | .mk n p c ps cs i t g => .mk n p c ps cs i t g :: flatAll cs

/-- All routes of a list and below them. -/
def flatAll : List Route → List Route
  | [] => []
  | r :: rs => r.flat ++ flatAll rs

end

/-- The navigation of an application. -/
structure Schema where
  routes : List Route
  initial : String := "/"
  guards : List Guard := []
  transition : Option Transition := Option.none
  warnings : List String := []
  deriving Inhabited

/-- All routes of a schema, parents before children. -/
def Schema.flatten (s : Schema) : List Route := flatAll s.routes

/-! ## As plain data -/

private def optionalValue {α : Type} (f : α → Value) : Option α → Value
  | some a => f a
  | Option.none => .null

/-- A transition as plain data. -/
def Transition.toValue (t : Transition) : Value :=
  .map [("type", .str t.effect.name), ("duration", .int t.duration), ("easing", .str t.easing)]

/-- A parameter as plain data. -/
def Param.toValue (p : Param) : Value :=
  .map [("name", .str p.name), ("type", .str p.type), ("required", .bool p.required)]

/-- A guard as plain data. -/
def Guard.toValue (g : Guard) : Value :=
  .map [("name", .str g.name), ("handler", .str g.handler), ("type", .str g.phase.name),
    ("routes", .list (g.routes.map .str)), ("priority", .int g.priority)]

mutual

/-- A route as plain data. -/
def toValue : Route → Value
  | .mk n p c ps cs i t g =>
    .map [("name", .str n), ("path", .str p), ("component", .str c),
      ("params", .list (ps.map Param.toValue)), ("children", .list (toValues cs)),
      ("meta", .map i), ("transition", optionalValue Transition.toValue t),
      ("guards", .list (g.map .str))]

/-- Routes as plain data. -/
def toValues : List Route → List Value
  | [] => []
  | r :: rs => r.toValue :: toValues rs

end

/-- A schema as plain data. -/
def Schema.toValue (s : Schema) : Value :=
  .map [("routes", .list (toValues s.routes)), ("initial_route", .str s.initial),
    ("guards", .list (s.guards.map Guard.toValue)),
    ("transition", optionalValue Transition.toValue s.transition),
    ("warnings", .list (s.warnings.map .str))]

end Route

end WidgetBridge
