import WidgetBridge.Route.Schema

/-!
# Guards

Guards run in order of descending priority, those of equal priority in the order in which they
were declared. The first one that rejects ends the navigation.
-/

namespace WidgetBridge.Route

/-- Guards in the order in which they run. -/
def orderGuards (guards : List Guard) : List Guard :=
  guards.mergeSort fun a b => b.priority ≤ a.priority

/-- Whether a guard applies to a route: it names no routes, or this one, or the route names it. -/
def Guard.appliesTo (g : Guard) (r : Route) : Bool :=
  g.routes.isEmpty || g.routes.contains r.name || g.routes.contains r.path ||
    r.guards.contains g.name

/-- The guards of a phase that apply to a route, in the order in which they run. -/
def guardsFor (guards : List Guard) (r : Route) (phase : Phase) : List Guard :=
  orderGuards (guards.filter fun g => g.phase == phase && g.appliesTo r)

/-- How a navigation went. -/
structure Passage where
  allowed : Bool
  redirect : Option String := none
  /-- The guards that ran. -/
  executed : List String := []
  rejectedBy : Option String := none
  /-- The handlers that were asked. -/
  asked : List String := []
  deriving Repr, DecidableEq, Inhabited

/-- A handler: whether a navigation to one address from another is allowed. -/
abbrev Handler := String → String → Bool

/-- Runs guards one after the other. A guard without handler rejects. -/
def runGuards (handlers : String → Option Handler) (unauthorized target origin : String) :
    List Guard → Passage
  | [] => { allowed := true }
  | g :: gs =>
    match handlers g.handler with
    | none =>
      { allowed := false, redirect := some unauthorized, executed := [g.name]
        rejectedBy := some g.name }
    | some handler =>
      if handler target origin then
        let p := runGuards handlers unauthorized target origin gs
        { p with executed := g.name :: p.executed, asked := g.handler :: p.asked }
      else
        { allowed := false, redirect := some unauthorized, executed := [g.name]
          rejectedBy := some g.name, asked := [g.handler] }

/-- Runs the guards of a navigation in their order. -/
def navigate (guards : List Guard) (handlers : String → Option Handler)
    (unauthorized target origin : String) : Passage :=
  runGuards handlers unauthorized target origin (orderGuards guards)

end WidgetBridge.Route
