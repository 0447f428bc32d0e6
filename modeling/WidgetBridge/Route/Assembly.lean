import WidgetBridge.Failure
import WidgetBridge.Route.Path

/-!
# Assembling route schemas

Both frameworks state guards and transitions as data and routes as trees. Here the data become
guards and transitions, and the parts of a router become a schema: a guard that covers a route
anyway is not repeated on the route, and names that several routes share are reported.
-/

namespace WidgetBridge.Route

open WidgetBridge.Text WidgetBridge.Number

/-- The whole part of a number; the fallback if there is none. -/
def wholeOr (fallback : Int) : Option Value → Attempt Int
  | some (.int i) => .ok i
  | some (.bool b) => .ok (if b then 1 else 0)
  | some (.float x) =>
    match truncate? x with
    | some i => .ok i
    | Option.none => .error .tooLarge
  | _ => .ok fallback

/-- The guard that some fields describe; it needs a name. -/
def Guard.ofFields (fields : Assoc Value) (handler : String) : Attempt (Option Guard) :=
  match fields.get? "name" with
  | some (.str name) => do
    let routes := match fields.get? "routes" with
      | some (.list vs) => vs.map Value.text
      | _ => []
    let phase := match fields.get? "type" with
      | some (.str "after") => Phase.after
      | _ => .before
    return some { name, handler, phase, routes, priority := ← wholeOr 0 (fields.get? "priority") }
  | _ => .ok Option.none

/-- The transition that a value describes: the name of an effect, or fields. -/
def Transition.ofValue : Value → Attempt (Option Transition)
  | .str effect => .ok (some { effect := .ofName effect })
  | .map fields => do
    let effect := match Assoc.get? fields "type" with
      | some (.str s) => Effect.ofName s
      | _ => .platformDefault
    return some { effect, duration := ← wholeOr 300 (Assoc.get? fields "duration")
                  easing := ((Assoc.get? fields "easing").map Value.text).getD "easeInOut" }
  | _ => .ok Option.none

/-- Whether a guard covers a route of a name and path by its own list. -/
def Guard.covers (g : Guard) (name path : String) : Bool :=
  g.routes.isEmpty || g.routes.contains name || g.routes.contains path

mutual

/-- A route without the guards that cover it anyway. -/
def pruned (guards : List Guard) : Route → Route
  | .mk n p c ps cs i t gs =>
    .mk n p c ps (prunedAll guards cs) i t
      (gs.filter fun name => !guards.any fun g => g.name == name && g.covers n p)

/-- Routes without the guards that cover them anyway. -/
def prunedAll (guards : List Guard) : List Route → List Route
  | [] => []
  | r :: rs => pruned guards r :: prunedAll guards rs

end

/-- One warning for each name that several routes have, in the order of the first of them. -/
def collisions (routes : List Route) : List String :=
  ((routes.map Route.name).eraseDups).filterMap fun name =>
    match routes.filter fun r => r.name == name with
    | r :: s :: rest =>
      let same := r :: s :: rest
      let paths := join ", " (same.map fun r => if r.path.isEmpty then "(index)" else r.path)
      some ("route name '" ++ name ++ "' is used by " ++ showInt same.length ++ " routes (" ++
        paths ++ ")")
    | _ => Option.none

/-- The schema of the parts of a router. -/
def Schema.assemble (routes : List Route) (initial : String) (guards : List Guard) : Schema :=
  let s : Schema := { routes := prunedAll guards routes, initial, guards }
  { s with warnings := collisions s.flatten }

/-- The name of a route: the given one, or else the one that its full path gives. -/
def routeName (given : Option String) (fullPath : String) : String :=
  match given with
  | some name => if name.isEmpty then nameOfPath fullPath else name
  | Option.none => nameOfPath fullPath

end WidgetBridge.Route
