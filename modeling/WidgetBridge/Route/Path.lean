import WidgetBridge.Failure
import WidgetBridge.Route.Schema
import WidgetBridge.Text.Pattern
import WidgetBridge.Text.Url

/-!
# Paths of routes

A path is a sequence of segments. A segment `:name` binds one segment of an address, `:name?` may
bind none, and `*name` binds the rest. Matching, building and naming of paths.
-/

namespace WidgetBridge.Route

open WidgetBridge.Text

/-- The segments of a path. -/
def segments (path : String) : List String := (splitAt path '/').filter fun s => !s.isEmpty

/-- A path with one slash before each segment and none at its end. -/
def normalizePath (path : String) : String := "/" ++ join "/" (segments path)

/-- The path of a child below a parent; a path from the root stands for itself. -/
def joinPaths (parent child : String) : String :=
  if hasHead child "/" then normalizePath child else normalizePath (parent ++ "/" ++ child)

/-- The name of the root route. -/
def rootName : String := "home"

/-- The name of a route without a word in its path. -/
def fallbackName : String := "route"

/-- Whether a segment binds a parameter. -/
def isBinding (segment : String) : Bool := hasHead segment ":" || hasHead segment "*"

/-- The words of a segment. -/
def wordsOf (segment : String) : List String :=
  ((segment.toList.splitBy fun a b => isWordChar a == isWordChar b).filter fun run =>
    run.any isWordChar).map String.ofList
where
  isWordChar (c : Char) : Bool := isLetter c || isDigit c

/-- A route name from a path: its words in camel case. -/
def nameOfPath (path : String) : String :=
  match segments (before path "?") with
  | [] => rootName
  | ss =>
    match (ss.filter fun s => !isBinding s).flatMap wordsOf with
    | [] => fallbackName
    | w :: ws =>
      let name := lowerFirst w ++ String.join (ws.map capitalizeFirst)
      match name.toList with
      | c :: _ => if isDigit c then fallbackName ++ capitalizeFirst name else name
      | [] => name

/-! ## Parameters -/

/-- The name of the rest of an address where the path gives none. -/
def wildcardName : String := "wildcard"

/-- The name of a segment `*name`. -/
def restName (segment : String) : String :=
  let name := drop segment 1
  if name.isEmpty then wildcardName else name

/-- The parameter of a segment. -/
def paramOf? (segment : String) : Option Param :=
  if hasHead segment ":" then
    let name := drop segment 1
    some ⟨trimEndChar '?' name, "string", !hasTail name "?"⟩
  else if hasHead segment "*" then some ⟨restName segment, "string", false⟩
  else none

/-- The parameters of a path. -/
def paramsOf (path : String) : List Param := (segments path).filterMap paramOf?

/-! ## Matching -/

namespace Matching

open Pattern

/-- A slash and one segment, which is kept. -/
def oneSegment (index : Nat) : Pattern := lit "/" ++ group index (many1 (noneOf "/"))

/-- The pattern of the segments of a path, and the names of its groups, from an index on. -/
def ofSegments (index : Nat) : List String → Pattern × List String
  | [] => (opt (lit "/") ++ textEnd, [])
  | s :: ss =>
    let bind := fun (p : Pattern) (name : String) =>
      let (rest, names) := ofSegments (index + 1) ss
      (p ++ rest, name :: names)
    if hasHead s ":" then
      let name := drop s 1
      if hasTail name "?" then bind (opt (oneSegment index)) (take name (name.length - 1))
      else bind (oneSegment index) name
    else if hasHead s "*" then
      bind (opt (lit "/" ++ group index (many inLine))) (restName s)
    else
      let (rest, names) := ofSegments index ss
      (lit ("/" ++ s) ++ rest, names)

end Matching

/-- The values that an address gives to the parameters of a path, if it matches. -/
def matchPath? (path url : String) : Option (Assoc String) :=
  let (pattern, names) := Matching.ofSegments 1 (segments path)
  let address := before url "?"
  let address := if address == "/" then "" else address
  (pattern.matchStart? address).map fun m =>
    Assoc.ofPairs ((names.zipIdx 1).filterMap fun (name, i) =>
      (m.group? i).map fun v => (name, v))

/-- The query of an address. -/
def queryOf (url : String) : Assoc String :=
  match cutAt? url "?" with
  | some (_, q) => Assoc.ofPairs (Url.readQuery q)
  | none => []

/-- How specific a path is. -/
def specificity (path : String) : Nat :=
  (segments path).foldl (fun score s =>
    score + if hasHead s ":" then 5 else if hasHead s "*" then 1 else 10) 0

/-- A route that an address leads to. -/
structure Hit where
  route : Route
  params : Assoc String
  query : Assoc String
  score : Nat

/-- The most specific route that an address leads to, the first of several. -/
def findMatch? (routes : List Route) (url : String) : Option Hit :=
  routes.foldl (fun best route =>
    match matchPath? route.path url with
    | none => best
    | some params =>
      let hit : Hit := ⟨route, params, queryOf url, specificity route.path⟩
      match best with
      | some b => if b.score < hit.score then some hit else some b
      | none => some hit) none

/-! ## Building -/

/-- What a segment becomes when values are filled in; nothing for an optional one without value. -/
def fillSegment (params : Assoc Value) (segment : String) : Attempt (Option String) :=
  if isBinding segment then
    let name := trimEndChar '?' (drop segment 1)
    let name := if name.isEmpty then wildcardName else name
    match params.get? name with
    | some v => .ok (some v.text)
    | none =>
      if hasHead segment ":" && !hasTail segment "?" then .error (.missingParameter name)
      else .ok none
  else .ok (some segment)

/-- The address of a path with values for its parameters, and a query. -/
def buildPath (path : String) (params query : Assoc Value) : Attempt String := do
  let parts ← (segments path).mapM (fillSegment params)
  let address := "/" ++ join "/" (parts.filterMap id)
  if query.isEmpty then return address
  return address ++ "?" ++ Url.writeQuery (query.map fun e => (e.1, e.2.text))

end WidgetBridge.Route
