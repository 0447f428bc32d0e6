import WidgetBridge.Framework
import WidgetBridge.Mapping.Transform
import WidgetBridge.Report

/-!
# Mapping entries

An entry pairs a widget of the component model with a widget of the widget tree: which props
correspond, by which transform, where children go, and which modules the pair needs.
-/

namespace WidgetBridge.Mapping

open WidgetBridge.Text WidgetBridge.Number

/-- How one prop corresponds to a place in the arguments of the other side. -/
structure PropRule where
  name : String
  /-- A path of named arguments, `@N` for a positional one, or `#text` for the text child. -/
  target : String
  transform : Transform := .identity
  aliases : List String := []
  /-- Further paths that are read back as this prop. -/
  targetAliases : List String := []
  /-- Whether the prop lives in the style object of the component. -/
  style : Bool := false
  /-- The keywords of both sides. -/
  values : Assoc String := []
  deriving Inhabited

/-- The index of a positional target. -/
def PropRule.positional (r : PropRule) : Attempt (Option Int) :=
  match r.target.toList with
  | '@' :: digits =>
    match readInt? (String.ofList digits) with
    | some i => .ok (some i)
    | none => .error .badText
  | _ => .ok none

/-- The widget that lays out several children, chosen by the value of a prop. -/
structure Layout where
  prop : String
  fallback : String
  widgets : Assoc String
  deriving Inhabited

/-- How many children a widget takes. -/
inductive Arity where
  | leaf
  | single
  | multi
  deriving Repr, DecidableEq, Inhabited

/-- The name of an arity. -/
def Arity.name : Arity → String
  | .leaf => "leaf"
  | .single => "single"
  | .multi => "multi"

/-- The arity of a name. -/
def Arity.ofName? : String → Option Arity
  | "leaf" => some .leaf
  | "single" => some .single
  | "multi" => some .multi
  | _ => none

/-- Where running text below a widget goes. -/
inductive TextMode where
  /-- It is the first positional argument. -/
  | positional
  /-- It is wrapped into a text widget. -/
  | wrap
  | none
  deriving Repr, DecidableEq, Inhabited

/-- The name of a text mode. -/
def TextMode.name : TextMode → String
  | .positional => "positional"
  | .wrap => "wrap"
  | .none => "none"

/-- The text mode of a name. -/
def TextMode.ofName? : String → Option TextMode
  | "positional" => some .positional
  | "wrap" => some .wrap
  | "none" => some .none
  | _ => Option.none

/-- A pair of widgets. -/
structure Entry where
  /-- The name on the component side, which is the neutral name. -/
  source : String
  /-- The constructor on the widget side. -/
  target : String
  props : List PropRule := []
  /-- The modules that the pair needs, by framework name. -/
  imports : Assoc (List String) := []
  aliases : List String := []
  /-- Further constructors with the props that they imply. -/
  targetAliases : Assoc (Assoc Value) := []
  arity : Arity := .multi
  textMode : TextMode := .none
  /-- The argument that holds the children. -/
  childSlot : String := "children"
  /-- Constructors of nested arguments, by the first part of their path. -/
  groups : Assoc String := []
  layout : Option Layout := Option.none
  deriving Inhabited

namespace Entry

/-- The component tags of an entry: its own name and its aliases. -/
def tags (e : Entry) : List String := e.source :: e.aliases

/-- The rule of a prop by its own name, or else by one of its aliases. -/
def findProp? (e : Entry) (name : String) : Option PropRule :=
  match e.props.find? fun r => r.name == name with
  | some r => some r
  | Option.none => e.props.find? fun r => r.aliases.contains name

/-- The rule of a prop by its target, or else by one of its further paths. -/
def findTarget? (e : Entry) (path : String) : Option PropRule :=
  match e.props.find? fun r => r.target == path with
  | some r => some r
  | Option.none => e.props.find? fun r => r.targetAliases.contains path

/-- The argument that holds one child, if there is one. -/
def singleSlot? (e : Entry) : Option String :=
  if e.childSlot == "children" || e.childSlot == "none" then Option.none else some e.childSlot

/-- The props that live in the style object. -/
def styleProps (e : Entry) : List String :=
  (e.props.filter fun r => r.style).map fun r => r.name

/-- The modules that a framework needs for the pair. -/
def importsFor (e : Entry) (framework : String) : List String :=
  (Assoc.get? e.imports framework).getD []

/-- Props that every widget takes without a rule. -/
def commonProps : List String := ["key", "testID", "style", "ref"]

/-- Carries one prop across. A name without rule or a value without other form passes unchanged
and is reported. -/
def carryProp (e : Entry) (name : String) (v : PropValue) (direction : Direction)
    (path : String) : Attempt ((String × PropValue) × List Issue) :=
  let report := fun message => [Issue.validation .unresolvedProp path message "<memory>"]
  let rule? := match direction with
    | .forward => e.findProp? name
    | .backward => e.findTarget? name
  match rule? with
  | Option.none =>
    let issues := if commonProps.contains name then []
      else report (e.source ++ " has no mapping for prop '" ++ name ++ "'")
    .ok ((name, v), issues)
  | some rule =>
    let out := match direction with
      | .forward => rule.target
      | .backward => rule.name
    match rule.transform.apply direction rule.values v with
    | .ok w => .ok ((out, w), [])
    | .error (.transform message) =>
      .ok ((out, v), report (e.source ++ "." ++ rule.name ++ ": " ++ message))
    | .error other => .error other

end Entry

end WidgetBridge.Mapping
