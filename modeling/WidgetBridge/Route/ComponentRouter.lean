import WidgetBridge.ComponentGrammar.Constant
import WidgetBridge.ComponentGrammar.Source
import WidgetBridge.Route.Assembly
import WidgetBridge.Route.Emission

/-!
# Routers in component source

A router is an element around route elements, which nest. A route states its path, the element
that it shows, perhaps inside a guard, and constant data about it. Guards are a list of objects
under a known name.
-/

namespace WidgetBridge.Route

open WidgetBridge.Text WidgetBridge.ComponentGrammar

/-- The tags of routers. -/
def routerTags : List String := ["BrowserRouter", "HashRouter", "MemoryRouter", "Routes"]

/-- The names of the declarations that a written component router brings with it. -/
def componentHelpers : List String := [guardWrapper, guardsVariable]

/-! ## Attributes -/

/-- What an attribute states. -/
inductive Stated where
  /-- The attribute is there. -/
  | flag
  /-- A quoted text, as written. -/
  | quoted (text : String)
  /-- An expression. -/
  | tree (t : SyntaxTree)
  /-- Braces with nothing in them. -/
  | nothing

/-- What the attributes of an element state, by name; spread ones state nothing. -/
def statedBy (element : SyntaxTree) : Assoc Stated :=
  Assoc.ofPairs (element.attributes.filterMap fun a =>
    match a with
    | .node (.attr name) _ parts =>
      some (name, match parts with
        | [] => .flag
        | .node .string span _ :: _ => .quoted (unquoted span.text)
        | .node .container span inner :: _ =>
          match (SyntaxTree.node .container span inner).contained? with
          | some t => .tree t
          | Option.none => .nothing
        | t :: _ => .tree t)
    | _ => Option.none)

/-- The constant that an attribute states as an expression. -/
def statedConstant (attrs : Assoc Stated) (name : String) : Attempt (Option Value) :=
  match attrs.get? name with
  | some (.tree t) => t.constant?
  | _ => .ok Option.none

/-! ## Routes -/

mutual

/-- The component that an expression shows, and the guards around it. -/
def shownBy : SyntaxTree → Attempt (String × List String)
  | .node shape span parts =>
    let t := SyntaxTree.node shape span parts
    match t.tagName? with
    | some tag => do
      if tag == guardWrapper then
        let guards := match ← statedConstant (statedBy t) "guards" with
          | some (.list vs) => vs.map Value.text
          | _ => []
        return ((← firstShown parts).getD "", guards)
      if t.isSelfClosing && t.attributes.isEmpty then return (tag, [])
      return (span.text, [])
    | Option.none => .ok (span.text, [])

/-- The component that the first element among some nodes shows. -/
def firstShown : List SyntaxTree → Attempt (Option String)
  | [] => .ok Option.none
  | t :: ts =>
    if t.isElement then do return some (← shownBy t).1 else firstShown ts

end

/-- The path that a route states. Braces with nothing in them give none. -/
def statedPath (attrs : Assoc Stated) : Attempt (Option String) :=
  match attrs.get? "index" with
  | some .flag => (givenPath attrs).map fun _ => some ""
  | _ => do
    match attrs.get? "path" with
    | some .flag => throw .unsupported
    | _ => givenPath attrs
where
  givenPath (attrs : Assoc Stated) : Attempt (Option String) :=
    match attrs.get? "path" with
    | some (.quoted p) => .ok (some p)
    | some (.tree t) => do
      match ← t.constant? with
      | some (.str p) => return some p
      | _ => return some t.text
    | some .nothing => .ok Option.none
    | _ => .ok (some "")

/-- The data that a route states, and its transition. -/
def statedData (attrs : Assoc Stated) : Attempt (Assoc Value × Option Transition) := do
  match ← statedConstant attrs "handle" with
  | some (.map fields) =>
    let transition ← match Assoc.get? fields "transition" with
      | some v => Transition.ofValue v
      | Option.none => pure Option.none
    return (Assoc.erase fields "transition", transition)
  | _ => return ([], Option.none)

mutual

/-- The route of a route element under a path. -/
def ofRouteElement (parent : String) : SyntaxTree → Attempt Route
  | .node shape span parts => do
    let attrs := statedBy (.node shape span parts)
    let path ← statedPath attrs
    let fullPath := match path.getD "" with
      | "" => if parent.isEmpty then "/" else parent
      | p => joinPaths parent p
    let (component, guards) ← match attrs.get? "element" with
      | some (.tree t) => shownBy t.bare
      | _ => pure ("", [])
    let (info, transition) ← statedData attrs
    let children ← ofRouteElements fullPath parts
    let some path := path | throw .unsupported
    return .mk (nameOfPath fullPath) path component (paramsOf path) children info transition guards

/-- The routes of the route elements among some nodes. -/
def ofRouteElements (parent : String) : List SyntaxTree → Attempt (List Route)
  | [] => .ok []
  | t :: ts => do
    if t.tagName? == some "Route" then
      let r ← ofRouteElement parent t
      return r :: (← ofRouteElements parent ts)
    else ofRouteElements parent ts

end

/-! ## Guards -/

/-- A text without quotes around it. -/
def withoutQuotes (s : String) : String :=
  let isQuote : Char → Bool := fun c => c == '\'' || c == '"'
  String.ofList (dropEndWhile isQuote (s.toList.dropWhile isQuote))

/-- The constant entries of an object that describes a guard, and the source of its handler. -/
def guardEntries : List SyntaxTree → Attempt (List (String × Value) × String)
  | [] => .ok ([], "")
  | .node .pair _ [key, value] :: ts => do
    if withoutQuotes key.text == "handler" then
      let (entries, later) ← guardEntries ts
      return (entries, if later.isEmpty then value.text else later)
    match ← value.constant? with
    | some v =>
      let (entries, handler) ← guardEntries ts
      return ((withoutQuotes key.text, v) :: entries, handler)
    | Option.none => guardEntries ts
  | _ :: ts => guardEntries ts

/-- The guards of a list of objects. -/
def guardsOfItems (items : List SyntaxTree) : Attempt (List Guard) :=
  items.filterMapM fun item =>
    match item with
    | .node .object _ parts => do
      let (entries, handler) ← guardEntries parts
      Guard.ofFields (Assoc.ofPairs entries) handler
    | _ => .ok Option.none

/-- The items of the list that declares the guards. -/
def guardItems? : SyntaxTree → Option (List SyntaxTree)
  | .node .declarator _ (target :: value :: _) =>
    match value.bare with
    | .node .list _ items => if target.text == guardsVariable then some items else Option.none
    | _ => Option.none
  | _ => Option.none

/-- The guards that a source declares. -/
def guardsOfSource (s : Source) : Attempt (List Guard) :=
  match s.nodes.findSome? guardItems? with
  | some items => guardsOfItems items
  | Option.none => .ok []

/-! ## Routers -/

/-- The path where a router starts. -/
def initialPath (router : SyntaxTree) : Attempt String := do
  if router.tagName? != some "MemoryRouter" then return "/"
  match ← statedConstant (statedBy router) "initialEntries" with
  | some (.list (v :: _)) => return v.text
  | _ => return "/"

/-- The element that holds the routes of a router. -/
def routesHolder (router : SyntaxTree) : SyntaxTree :=
  if router.tagName? == some "Routes" then router
  else (router.childrenTagged "Routes").headD router

/-- The schema of a router element. -/
def ofRouterElement (router : SyntaxTree) (guards : List Guard) : Attempt Schema := do
  let initial ← initialPath router
  let routes ← ofRouteElements "/" (routesHolder router).children
  return .assemble routes initial guards

/-- Whether a node is a router. -/
def isRouter (t : SyntaxTree) : Bool :=
  match t.tagName? with
  | some tag => routerTags.contains tag
  | Option.none => false

/-- The schema of the first router in a source; without router it has guards only. -/
def ofComponentSource (source : String) : Attempt Schema := do
  let s ← Source.read source
  let guards ← guardsOfSource s
  match s.nodes.find? isRouter with
  | some router => ofRouterElement router guards
  | Option.none => return { routes := [], guards }

end WidgetBridge.Route
