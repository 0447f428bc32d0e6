import WidgetBridge.Motion.Easing
import WidgetBridge.Route.Assembly
import WidgetBridge.Route.Emission
import WidgetBridge.WidgetGrammar.Member

/-!
# Routers in widget source

A widget source states its navigation as a `GoRouter` with nested routes, or as a `MaterialApp`
with a table of routes. `ofWidgetCall` reads such a call, with the guards and the router that
are declared beside it; `ofWidgetSource` finds the call in a source.
-/

namespace WidgetBridge.Route

open WidgetBridge.Text WidgetBridge.Number WidgetBridge.WidgetGrammar

namespace Form

open Pattern

/-- A number of an offset. -/
def coordinate : Pattern :=
  opt (lit "-") ++ many1 (char fun c => isDecimal c || c == '.')

/-- A length in milliseconds. -/
def milliseconds : Pattern :=
  lit "Duration(" ++ blanks ++ lit "milliseconds:" ++ blanks ++ group 1 (many1 digit) ++
    blanks ++ lit ")"

/-- A named curve. -/
def curve : Pattern := lit "Curves." ++ group 1 words1

/-- An offset of two numbers. -/
def offset : Pattern :=
  lit "Offset(" ++ blanks ++ group 1 coordinate ++ blanks ++ lit "," ++ blanks ++
    group 2 coordinate ++ blanks ++ lit ")"

/-- The list of guards that a redirection runs. -/
def guardList : Pattern :=
  lit "runGuards(" ++ blanks ++ opt (lit "const" ++ blanks) ++ lit "[" ++ group 1 (few any) ++
    lit "]"

/-- A quoted name. -/
def quotedName : Pattern :=
  (lit "'" ++ group 1 (many (noneOf "'")) ++ lit "'") <|>
    (lit "\"" ++ group 2 (many (noneOf "\"")) ++ lit "\"")

end Form

/-- The plain text that an expression writes. -/
def plainString? : Option Expr → Option String
  | some (.string _ parts) => if hasHole parts then Option.none else some (plainText parts)
  | _ => Option.none

/-- What a builder shows: the constructor, or else the source. -/
def shownComponent : Option Expr → String
  | some e =>
    match e with
    | .call _ callee _ _ _ => if startsUpper callee then callee else e.text
    | _ => e.text
  | Option.none => ""

/-- The number of a coordinate. -/
def readCoordinate (s : String) : Attempt Float :=
  match readFloat? s with
  | some x => .ok x
  | Option.none => .error .badText

/-- The effect of a slide, by where it starts. -/
def slideEffect (source : String) : Attempt Effect :=
  match Form.offset.search? source with
  | Option.none => .ok .slide
  | some m => do
    let x ← readCoordinate (m.get 1)
    let y ← readCoordinate (m.get 2)
    return if x == 1.0 && y == 0.0 then .slideLeft
      else if x == -1.0 && y == 0.0 then .slideRight
      else if x == 0.0 && y == 1.0 then .slideUp
      else if x == 0.0 && y == -1.0 then .slideDown
      else .slide

/-- The transition of a page. -/
def pageTransition (callee : String) (args : List (Option String × Expr)) :
    Attempt (Option Transition) :=
  if callee == "NoTransitionPage" then .ok (some { effect := .none, duration := 0 })
  else
    match Expr.named? args "transitionsBuilder" with
    | Option.none => .ok Option.none
    | some builder => do
      let source := builder.text
      let duration := (((Expr.named? args "transitionDuration").bind fun e =>
        Form.milliseconds.search? e.text).bind fun m => readInt? (m.get 1)).getD 300
      let easing := ((Form.curve.search? source).map fun m =>
        Motion.easingOf (m.get 1)).getD "easeInOut"
      let effect ←
        if occursIn "FadeTransition" source then pure Effect.fade
        else if occursIn "ScaleTransition" source then pure Effect.scale
        else if occursIn "SlideTransition" source then slideEffect source
        else pure Effect.platformDefault
      return some { effect, duration, easing }

/-- The names of the guards that a redirection runs. -/
def redirectGuards (redirect : Option Expr) : List String :=
  match redirect.bind fun e => Form.guardList.search? e.text with
  | Option.none => []
  | some m => (Form.quotedName.findAll (m.get 1)).map fun q =>
    if (q.get 1).isEmpty then q.get 2 else q.get 1

/-- The arguments of the calls of a constructor among expressions. -/
def callsOf (callee : String) (es : List Expr) : List (List (Option String × Expr)) :=
  es.filterMap fun e =>
    match e with
    | .call _ c _ args _ => if c == callee then some args else Option.none
    | _ => Option.none

mutual

/-- The route of one call, below a path. -/
def goRoute : (fuel : Nat) → (parent : String) → List (Option String × Expr) → Attempt Route
  | 0, _, _ => .ok default
  | fuel + 1, parent, args => do
    let path := (plainString? (Expr.named? args "path")).getD ""
    let fullPath := if path.isEmpty then parent else joinPaths parent path
    let (transition, component) ←
      match Expr.named? args "builder", Expr.named? args "pageBuilder" with
      | some (.closure _ _ body _), _ => pure (Option.none, shownComponent body)
      | _, some (.closure _ _ (some (.call _ callee _ page _)) _) => do
        pure (← pageTransition callee page, shownComponent (Expr.named? page "child"))
      | _, _ => pure (Option.none, "")
    let children ← match Expr.named? args "routes" with
      | some (.list _ items) => goRoutes fuel fullPath (callsOf "GoRoute" items)
      | _ => pure []
    let name := routeName (plainString? (Expr.named? args "name")) fullPath
    return .mk name path component (paramsOf path) children [] transition
      (redirectGuards (Expr.named? args "redirect"))

/-- The routes of several calls, below a path. -/
def goRoutes : (fuel : Nat) → (parent : String) → List (List (Option String × Expr)) →
    Attempt (List Route)
  | 0, _, _ => .ok []
  | _ + 1, _, [] => .ok []
  | fuel + 1, parent, args :: rest => do
    let r ← goRoute fuel parent args
    return r :: (← goRoutes fuel parent rest)

end

/-- The routes of a table from paths to builders. -/
def tableRoutes (entries : List (Expr × Expr)) : List Route :=
  entries.filterMap fun (key, shown) =>
    (plainString? (some key)).map fun path =>
      let body := match shown with
        | .closure _ _ body _ => body
        | e => some e
      .mk (nameOfPath (joinPaths "/" path)) path (shownComponent body) (paramsOf path) [] []
        Option.none []

/-- The guard of one call. -/
def guardOfCall (args : List (Option String × Expr)) : Attempt (Option Guard) :=
  let fields := args.filterMap fun (name, e) =>
    match name with
    | Option.none | some "handler" => Option.none
    | some "type" =>
      some ("type", Value.str (((cutLast? e.text ".").map (·.2)).getD e.text))
    | some field => (constant? e).map fun v => (field, v)
  Guard.ofFields (Assoc.ofPairs fields) (((Expr.named? args "handler").map Expr.text).getD "")

/-- The guards that a declaration lists. -/
def guardsOfMember (m : Member) : Attempt (List Guard) :=
  match m.initializer with
  | Option.none => .ok []
  | some r => do
    match ← r.expr with
    | .list _ items => (callsOf "NavigationGuard" items).filterMapM guardOfCall
    | _ => return []

/-- The declarations of a source by name; of several with one name the last counts. -/
def membersByName (ms : List Member) : Assoc Member :=
  Assoc.ofPairs (ms.map fun m => (m.name, m))

/-- A schema with the names of the declarations that went into it. -/
structure Reading where
  schema : Schema
  consumed : List String

/-- The router that an argument states: a call, or the name of a declaration that holds one. The
second part is the name of that declaration. -/
def resolveRouter (top : Assoc Member) : Option Expr → Attempt (Option Expr × List String)
  | Option.none => .ok (Option.none, [])
  | some (.call r c t args cs) => .ok (some (.call r c t args cs), [])
  | some e =>
    match top.get? (trim e.text) with
    | Option.none => .ok (some e, [])
    | some m =>
      match m.initializer with
      | Option.none => .ok (some e, [])
      | some r => do
        match ← r.expr with
        | .call r c t args cs => return (some (.call r c t args cs), [m.name])
        | _ => return (some e, [])

/-- A path, or else that of the root. -/
def orRoot (s : Option String) : String :=
  match s with
  | some p => if p.isEmpty then "/" else p
  | Option.none => "/"

/-- The schema of the call of a router or an application, with the declarations beside it. -/
def ofWidgetCall (call : Expr) (callee : String) (args : List (Option String × Expr))
    (declarations : List Member) : Attempt Reading := do
  let top := membersByName declarations
  let (guards, used) ← match top.get? guardsVariable with
    | some m => (guardsOfMember m).map fun gs => (gs, [guardsVariable])
    | Option.none => pure ([], [])
  let (router, resolved) ←
    resolveRouter top (if callee == "GoRouter" then some call else Expr.named? args "routerConfig")
  let fallback : Unit → List Route × String := fun _ =>
    let routes := match Expr.named? args "routes" with
      | some (.map _ entries) => tableRoutes entries
      | _ => []
    let initial := orRoot (plainString? (Expr.named? args "initialRoute"))
    match Expr.named? args "home" with
    | some home =>
      if routes.any fun r => r.path == "/" then (routes, initial)
      else (.mk (nameOfPath "/") "/" (shownComponent (some home)) [] [] [] Option.none [] :: routes,
        initial)
    | Option.none => (routes, initial)
  let (routes, initial) ← match router with
    | some (.call r "GoRouter" _ inner _) => do
      let initial := orRoot (plainString? (Expr.named? inner "initialLocation"))
      match Expr.named? inner "routes" with
      | some (.list _ items) =>
        pure (← goRoutes (2 * TokenTree.sizeOf' r.trees + 2) "/" (callsOf "GoRoute" items), initial)
      | _ => pure ([], initial)
    | _ => pure (fallback ())
  return ⟨.assemble routes initial guards, used ++ resolved⟩

/-- The source of a call at the start of a forest: its name with dots, up to its arguments. -/
def callTrees? (name : String) : List TokenTree → Option (List TokenTree)
  | .leaf t :: ts =>
    if t.isName name then
      let (dots, rest) := dotted ts
      match rest with
      | .group o inner c :: _ =>
        if o.isPunct "(" then some (.leaf t :: dots ++ [.group o inner c]) else Option.none
      | _ => Option.none
    else Option.none
  | _ => Option.none

/-- The first call of a constructor that a test accepts, in the order of the source. -/
def findCall (name : String) (accepts : List (Option String × Expr) → Bool) :
    List (List TokenTree) → Attempt (Option (Expr × String × List (Option String × Expr)))
  | [] => .ok Option.none
  | ts :: rest =>
    match callTrees? name ts with
    | Option.none => findCall name accepts rest
    | some trees => do
      match ← (Range.mk trees Option.none).expr with
      | .call r callee t args cs =>
        if accepts args then return some (.call r callee t args cs, callee, args)
        else findCall name accepts rest
      | _ => findCall name accepts rest

/-- The schema of the first router in a source; without router it is empty. -/
def ofWidgetSource (source : String) : Attempt Schema := do
  let s ← Source.read source
  let declarations ← s.members
  let places := TokenTree.positions s.trees
  let found ← match ← findCall "GoRouter" (fun _ => true) places with
    | some hit => pure (some hit)
    | Option.none =>
      findCall "MaterialApp" (fun args =>
        (Expr.named? args "routes").isSome || (Expr.named? args "routerConfig").isSome) places
  match found with
  | some (call, callee, args) => return (← ofWidgetCall call callee args declarations).schema
  | Option.none => return { routes := [] }

/-- The names of the declarations that a written widget router brings with it. -/
def widgetHelpers : List String := ["NavigationGuard", "GuardType", guardsVariable, "runGuards"]

end WidgetBridge.Route
