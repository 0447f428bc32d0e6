import WidgetBridge.ComponentGrammar.Literal
import WidgetBridge.Config.Settings
import WidgetBridge.Framework
import WidgetBridge.Imports
import WidgetBridge.Motion.Easing
import WidgetBridge.Route.Guard
import WidgetBridge.WidgetGrammar.Literal

/-!
# Writing routes

A route schema is written as a tree of route elements on the component side and as a router
configuration on the widget side. Guards become a table and a function that runs them in their
order and stops at the first rejection.
-/

namespace WidgetBridge.Route

open WidgetBridge.Text WidgetBridge.Number

/-- Written routes with what they need around them, and what got lost. -/
structure Fragment where
  markup : String
  declarations : List String := []
  imports : ModuleNames := []
  warnings : List String := []
  deriving Inhabited

/-- The component that runs guards around an element. -/
def guardWrapper : String := "GuardedRoute"

/-- The variable that holds the guards. -/
def guardsVariable : String := "routeGuards"

namespace Form

open Pattern

/-- What follows the first character of a dotted name. -/
def dottedRest : Pattern := many (char fun c => isWord c || c == '$' || c == '.')

/-- A dotted name. -/
def dottedName : Pattern := textStart ++ char isNameStart ++ dottedRest ++ textEnd

/-- The tag that an element starts with. -/
def leadingTag : Pattern :=
  textStart ++ lit "<" ++ blanks ++ group 1 (char isNameStart ++ dottedRest)

/-- The constructor that a call starts with. -/
def leadingCall : Pattern :=
  textStart ++ opt ((lit "const" ++ blanks1) <|> (lit "new" ++ blanks1)) ++
    group 1 (char (fun c => 'A' ≤ c && c ≤ 'Z') ++ dottedRest) ++ blanks ++ lit "("

end Form

/-- The transition of a route: its own, or that of the schema. -/
def Schema.transitionOf (s : Schema) (r : Route) : Option Transition :=
  r.transition.orElse fun _ => s.transition

/-- The guards that run before a route is shown. -/
def Schema.guardNames (s : Schema) (r : Route) : List String :=
  (guardsFor s.guards r .before).map fun g => g.name

/-! ## Component side -/

/-- A component as an element, and what got lost. -/
def elementText (component : String) : String × List String :=
  if component.isEmpty then ("null", [])
  else if Form.dottedName.matchesStart component then ("<" ++ component ++ " />", [])
  else if hasHead component "<" then (component, [])
  else match Form.leadingCall.matchStart? component with
    | some m =>
      let element := "<" ++ m.get 1 ++ " />"
      (element, ["route component '" ++ component ++ "' reduced to " ++ element])
    | none => (component, [])

private def braced (s : String) : String := "\x7b" ++ s ++ "\x7d"

/-- The opening of a route element, without its end, and what got lost. -/
def routeHead (s : Schema) (r : Route) : String × List String :=
  let (element, warnings) := elementText r.component
  let guards := s.guardNames r
  let element := if guards.isEmpty then element
    else "<" ++ guardWrapper ++ " guards=" ++
      braced (ComponentGrammar.ofValue (.list (guards.map .str))) ++
      ">" ++ element ++ "</" ++ guardWrapper ++ ">"
  let path := if !r.path.isEmpty then ["path=" ++ ComponentGrammar.string r.path]
    else if r.children.isEmpty then ["index"] else []
  let data := match s.transitionOf r with
    | some t => r.info.put "transition" t.toValue
    | none => r.info
  let handle := if data.isEmpty then []
    else ["handle=" ++ braced (ComponentGrammar.ofValue (.map data))]
  ("<Route " ++ join " " (path ++ ["element=" ++ braced element] ++ handle), warnings)

mutual

/-- A route element with the routes below it, and what got lost. -/
def routeElement (s : Schema) (indent : String) : Route → String × List String
  | .mk n p c ps cs i t g =>
    let (head, warnings) := routeHead s (.mk n p c ps cs i t g)
    match cs with
    | [] => (head ++ " />", warnings)
    | cs =>
      let inner := routeElements s indent cs
      (head ++ ">\n" ++ join "\n" (inner.map fun e => indentLines indent e.1) ++ "\n</Route>",
        warnings ++ inner.flatMap (·.2))

/-- The elements of several routes. -/
def routeElements (s : Schema) (indent : String) : List Route → List (String × List String)
  | [] => []
  | r :: rs => routeElement s indent r :: routeElements s indent rs

end

/-- A text, or a fallback if it is empty. -/
def orText (s fallback : String) : String := if s.isEmpty then fallback else s

/-- A text several times over. -/
def times (n : Nat) (s : String) : String := String.join (List.replicate n s)

/-- One guard of the table on the component side. -/
def guardObject (g : Guard) : String :=
  let items := ["name: " ++ ComponentGrammar.string g.name,
    "type: " ++ ComponentGrammar.string g.phase.name,
      "handler: " ++ orText g.handler "() => true"] ++
    (if g.routes.isEmpty then []
      else ["routes: " ++ ComponentGrammar.ofValue (.list (g.routes.map .str))]) ++
    ["priority: " ++ showInt g.priority]
  "\x7b " ++ join ", " items ++ " \x7d"

/-- The table of guards and the component that runs them. -/
def componentGuards (s : Schema) (unauthorized indent : String) : List String :=
  let i1 := indent
  let i2 := times 2 indent
  let i3 := times 3 indent
  let table := join "\n" (["const " ++ guardsVariable ++ " = ["] ++
    s.guards.map (fun g => indent ++ guardObject g ++ ",") ++ ["];"])
  let runner := join "\n" [
    "function " ++ guardWrapper ++ "(\x7b guards, children \x7d) \x7b",
    i1 ++ "const location = useLocation();",
    i1 ++ "const active = " ++ guardsVariable,
    i2 ++ ".filter((guard) => guard.type === 'before' && guards.includes(guard.name))",
    i2 ++ ".sort((a, b) => b.priority - a.priority);",
    i1 ++ "for (const guard of active) \x7b",
    i2 ++ "if (!guard.handler(location.pathname, null)) \x7b",
    i3 ++ "return <Navigate to=" ++ ComponentGrammar.string unauthorized ++ " replace />;",
    i2 ++ "\x7d",
    i1 ++ "\x7d",
    i1 ++ "return children;",
    "\x7d"]
  [table, runner]

/-- The module of the router on the component side. -/
def routerModule : String := "react-router-dom"

/-- Routes as a tree of elements. -/
def toComponent (s : Schema) (unauthorized indent : String) : Fragment :=
  let atRoot := s.initial.isEmpty || s.initial == "/"
  let router := if atRoot then "BrowserRouter" else "MemoryRouter"
  let entries := if atRoot then ""
    else " initialEntries=" ++ braced (ComponentGrammar.ofValue (.list [.str s.initial]))
  let elements := routeElements s indent s.routes
  let routes := join "\n" (elements.map fun e => indentLines (times 2 indent) e.1)
  let markup := join "\n" (["<" ++ router ++ entries ++ ">", indent ++ "<Routes>"] ++
    (if routes.isEmpty then [] else [routes]) ++ [indent ++ "</Routes>", "</" ++ router ++ ">"])
  let guarded := !s.guards.isEmpty
  { markup
    declarations := if guarded then componentGuards s unauthorized indent else []
    imports := [(routerModule, ["Route", "Routes", router] ++
      (if guarded then ["Navigate", "useLocation"] else []))]
    warnings := elements.flatMap (·.2) }

/-! ## Widget side -/

/-- A component as a constructor call, and what got lost. -/
def widgetText (component : String) : String × List String :=
  if component.isEmpty then ("const SizedBox.shrink()", [])
  else if Form.dottedName.matchesStart component then (component ++ "()", [])
  else match Form.leadingTag.matchStart? component with
    | some m =>
      let call := m.get 1 ++ "()"
      (call, ["route component '" ++ component ++ "' reduced to " ++ call])
    | none => (component, [])

/-- Where a sliding screen comes from. -/
def slideOrigin : Effect → String
  | .slideLeft => "Offset(1.0, 0.0)"
  | .slideRight => "Offset(-1.0, 0.0)"
  | .slideUp => "Offset(0.0, 1.0)"
  | .slideDown => "Offset(0.0, -1.0)"
  | _ => "Offset(0.3, 0.0)"

/-- The function that builds a transition. -/
def transitionBuilder (t : Transition) (indent : String) : String :=
  let animation := "CurvedAnimation(parent: animation, curve: Curves." ++
    Motion.curveOf t.easing ++ ")"
  let body := match t.effect with
    | .fade => "FadeTransition(opacity: " ++ animation ++ ", child: child)"
    | .scale => "ScaleTransition(scale: " ++ animation ++ ", child: child)"
    | e => "SlideTransition(position: Tween<Offset>(begin: const " ++ slideOrigin e ++
        ", end: Offset.zero).animate(" ++ animation ++ "), child: child)"
  "(context, animation, secondaryAnimation, child) =>\n" ++ indent ++ body

/-- The page of a route with a transition. -/
def pageBuilder (t : Transition) (widget indent : String) : String :=
  if t.effect == .none then
    "pageBuilder: (context, state) => NoTransitionPage(key: state.pageKey, child: " ++ widget ++
      "),"
  else join "\n" [
    "pageBuilder: (context, state) => CustomTransitionPage(",
    indent ++ "key: state.pageKey,",
    indent ++ "child: " ++ widget ++ ",",
    indent ++ "transitionDuration: const Duration(milliseconds: " ++ showInt t.duration ++ "),",
    indent ++ "transitionsBuilder: " ++
      trimStart (indentLines indent (transitionBuilder t indent)) ++ ",",
    "),"]

/-- The arguments of a route, without the routes below it, and what got lost. -/
def routeArguments (s : Schema) (indent : String) (r : Route) : List String × List String :=
  let (widget, warnings) := widgetText r.component
  let page := match s.transitionOf r with
    | Option.none => "builder: (context, state) => " ++ widget ++ ","
    | some t =>
      if t.effect == .platformDefault then "builder: (context, state) => " ++ widget ++ ","
      else pageBuilder t widget indent
  let guards := s.guardNames r
  let redirect := if guards.isEmpty then []
    else ["redirect: (context, state) => runGuards(const [" ++
      join ", " (guards.map WidgetGrammar.string) ++ "], state),"]
  let lost := if r.info.isEmpty then []
    else ["route '" ++ r.name ++ "' metadata dropped: " ++
      (Value.list ((sortTexts r.info.keys).map .str)).quoted]
  (["path: " ++ WidgetGrammar.string r.path ++ ",",
    "name: " ++ WidgetGrammar.string r.name ++ ",", page] ++
    redirect, warnings ++ lost)

mutual

/-- A route as a constructor call, and what got lost. -/
def routeCall (s : Schema) (indent : String) : Route → String × List String
  | .mk n p c ps cs i t g =>
    let (own, warnings) := routeArguments s indent (.mk n p c ps cs i t g)
    let inner := routeCalls s indent cs
    let children := if inner.isEmpty then []
      else ["routes: [\n" ++ join "\n" (inner.map fun e => indentLines indent e.1) ++ "\n],"]
    ("GoRoute(\n" ++ indentLines indent (join "\n" (own ++ children)) ++ "\n),",
      warnings ++ inner.flatMap (·.2))

/-- Several routes as constructor calls. -/
def routeCalls (s : Schema) (indent : String) : List Route → List (String × List String)
  | [] => []
  | r :: rs => routeCall s indent r :: routeCalls s indent rs

end

/-- The router of a schema, and what got lost. -/
def routerCall (s : Schema) (indent : String) : String × List String :=
  let calls := routeCalls s indent s.routes
  let routes := join "\n" (calls.map fun e => indentLines indent e.1)
  let body := join "\n" ["initialLocation: " ++ WidgetGrammar.string (orText s.initial "/") ++ ",",
    "routes: [\n" ++ routes ++ "\n],"]
  ("GoRouter(\n" ++ indentLines indent body ++ "\n)", calls.flatMap (·.2))

/-- One guard of the table on the widget side. -/
def guardCall (g : Guard) : String :=
  let arguments := ["name: " ++ WidgetGrammar.string g.name, "type: GuardType." ++ g.phase.name,
      "handler: " ++ orText g.handler "(to, from) => true"] ++
    (if g.routes.isEmpty then []
      else ["routes: const [" ++ join ", " (g.routes.map WidgetGrammar.string) ++ "]"]) ++
    ["priority: " ++ showInt g.priority]
  "NavigationGuard(" ++ join ", " arguments ++ ")"

/-- The classes and the table of guards, and the function that runs them. -/
def widgetGuards (s : Schema) (unauthorized indent : String) : List String :=
  let i1 := indent
  let i2 := times 2 indent
  let i3 := times 3 indent
  let guardClass := join "\n" [
    "class NavigationGuard \x7b",
    i1 ++ "const NavigationGuard(\x7b",
    i2 ++ "required this.name,",
    i2 ++ "required this.type,",
    i2 ++ "required this.handler,",
    i2 ++ "this.routes = const [],",
    i2 ++ "this.priority = 0,",
    i1 ++ "\x7d);",
    "",
    i1 ++ "final String name;",
    i1 ++ "final GuardType type;",
    i1 ++ "final bool Function(String to, String? from) handler;",
    i1 ++ "final List<String> routes;",
    i1 ++ "final int priority;",
    "\x7d"]
  let table := join "\n" (["final " ++ guardsVariable ++ " = <NavigationGuard>["] ++
    s.guards.map (fun g => i1 ++ guardCall g ++ ",") ++ ["];"])
  let runner := join "\n" [
    "String? runGuards(List<String> names, GoRouterState state) \x7b",
    i1 ++ "final active = " ++ guardsVariable,
    i2 ++ ".where((guard) => guard.type == GuardType.before && names.contains(guard.name))",
    i2 ++ ".toList();",
    i1 ++ "mergeSort(active, compare: (a, b) => b.priority.compareTo(a.priority));",
    i1 ++ "for (final guard in active) \x7b",
    i2 ++ "if (!guard.handler(state.matchedLocation, null)) \x7b",
    i3 ++ "return " ++ WidgetGrammar.string unauthorized ++ ";",
    i2 ++ "\x7d",
    i1 ++ "\x7d",
    i1 ++ "return null;",
    "\x7d"]
  [guardClass, "enum GuardType \x7b before, after \x7d", table, runner]

/-- The module of the router on the widget side. -/
def routerPackage : String := "package:go_router/go_router.dart"

/-- The module of the stable sort. -/
def sortPackage : String := "package:collection/collection.dart"

/-- Routes as a router configuration. -/
def toWidget (s : Schema) (unauthorized indent : String) : Fragment :=
  let (router, warnings) := routerCall s indent
  let guarded := !s.guards.isEmpty
  { markup := "MaterialApp.router(\n" ++ indentLines indent ("routerConfig: " ++ router ++ ",") ++
      "\n)"
    declarations := if guarded then widgetGuards s unauthorized indent else []
    imports := (routerPackage, []) :: (if guarded then [(sortPackage, [])] else [])
    warnings }

/-! ## Modules -/

/-- Writes routes for a framework. -/
def emit (framework : Framework) (s : Schema) (unauthorized indent : String) : Fragment :=
  match framework with
  | .component => toComponent s unauthorized indent
  | .widget => toWidget s unauthorized indent

/-- A module of its own with the router of a schema. -/
def moduleOf (framework : Framework) (s : Schema) (unauthorized indent : String) : String :=
  let f := emit framework s unauthorized indent
  let (imports, body) := match framework with
    | .component =>
      (f.imports.map fun e => "import \x7b " ++ join ", " (sortTexts e.2) ++ " \x7d from " ++
          ComponentGrammar.string e.1 ++ ";",
        join "\n" [
          "export default function AppRouter() \x7b",
          indent ++ "return (",
          indentLines (times 2 indent) f.markup,
          indent ++ ");",
          "\x7d"])
    | .widget =>
      ((sortTexts (addTexts f.imports.keys ["package:flutter/material.dart"])).map fun m =>
          "import " ++ WidgetGrammar.string m ++ ";",
        "final appRouter = " ++ (routerCall s indent).1 ++ ";")
  join "\n\n" ([join "\n" imports] ++ f.declarations ++ [body]) ++ "\n"

end WidgetBridge.Route
