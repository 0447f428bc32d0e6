import WidgetBridge.Config.Session
import WidgetBridge.Imports
import WidgetBridge.Node
import WidgetBridge.Route.Emission
import WidgetBridge.State.Expansion
import WidgetBridge.Validation

/-!
# Drafts

While a tree is written, a draft collects what belongs elsewhere in the source: imports,
declarations and warnings. What a failed attempt collected is not lost, so that its warnings can be
reported with the error.
-/

namespace WidgetBridge.Writing

open WidgetBridge.Text WidgetBridge.Mapping

/-- What was collected while writing. -/
structure Draft where
  imports : Imports := {}
  declarations : List String := []
  warnings : List Issue := []

/-- A step of writing, which may add to the draft and may fail. -/
abbrev Writer := ExceptT Failure (StateM Draft)

/-- A computation that may fail, as a step of writing. -/
def attempt {α : Type} (a : Attempt α) : Writer α := ExceptT.mk (pure a)

/-- Adds warnings. -/
def warn (issues : List Issue) : Writer Unit :=
  modify fun d => { d with warnings := d.warnings ++ issues }

/-- Takes names from a module. -/
def need (module : String) (names : List String) : Writer Unit :=
  modify fun d => { d with imports := d.imports.add module names }

/-- Takes all names of a table. -/
def needAll (names : ModuleNames) : Writer Unit :=
  modify fun d => { d with imports := d.imports.merge names }

/-- Where writing takes its rules from. -/
structure Setting where
  environment : Config.Environment
  framework : Framework
  file : String

/-- One step of indentation. -/
def Setting.indent (s : Setting) : String := s.environment.settings.indent

/-! ## Source of the other framework -/

/-- Source of the other framework as comment lines. -/
def unconverted (source : String) : String :=
  join "\n" ((lines source).map fun l => trimEnd ("// " ++ State.unconvertedMark ++ " " ++ l))

/-- A piece of source as it is in its own framework, and as comment lines in the other one. Comment
lines stay as they are. -/
def carried (same : Bool) (source : String) : String :=
  if same || hasHead (trimStart source) "//" then source else unconverted source

/-- The declarations of a document as source. Imports go to the draft, or are dropped in the other
framework. -/
def carryDeclarations (same : Bool) : List String → Writer (List String)
  | [] => pure []
  | source :: rest => do
    if same then
      match (← get).imports.take? source with
      | some imports =>
        modify fun d => { d with imports }
        carryDeclarations same rest
      | none => return source :: (← carryDeclarations same rest)
    else if hasHead (trimStart source) "import " then carryDeclarations same rest
    else return carried same source :: (← carryDeclarations same rest)

/-! ## Elements -/

/-- The bindings of all elements, parents before children. -/
def bindingsOf (root : Node) : List State.Binding :=
  (root.walk "root").flatMap fun (_, n) =>
    match n with
    | .element e _ => e.bindings
    | _ => []

/-- The markup of a root that holds it as one expression. -/
def rootMarkup? (e : Element) : List Node → Option String
  | [.slot source] =>
    match e.attached.get? markupKey with
    | some (.data v) => if v.truthy then some source else none
    | some (.routes _) => some source
    | none => none
  | _ => none

/-- Refuses children that a widget cannot take. -/
def checkArity (entry : Entry) (children : List Node) (path : String) : Attempt Unit :=
  match entry.arity, children with
  | .leaf, _ :: _ => .error (.generation (entry.source ++ " cannot have children") path)
  | .single, _ :: _ :: _ =>
    .error (.generation
      (entry.source ++ " takes a single child, got " ++ Number.showInt children.length) path)
  | _, _ => .ok ()

/-- The name that a placeholder shows, with a warning about it. -/
def placeholderName (s : Setting) (path : String) (e : Element) : Writer String := do
  let name := (State.nonEmpty? e.standsFor).getD e.widget
  warn [.validation .unknownWidget path
    ("unmapped widget '" ++ name ++ "' emitted as a placeholder") s.file]
  return name

/-- The routes of a router element as source. -/
def routerFragment (s : Setting) (e : Element) : Writer Route.Fragment := do
  let schema ← match e.attached.get? "routes" with
    | some (.routes schema) => pure schema
    | some (.data v) => if v.truthy then throw .unsupported else pure { routes := [] }
    | none => pure { routes := [] }
  let f := Route.emit s.framework schema s.environment.settings.unauthorizedRoute s.indent
  warn (f.warnings.map .remark)
  needAll f.imports
  modify fun d => { d with declarations := d.declarations ++ f.declarations }
  return f

/-- The fragments of the state of a tree, whose imports go to the draft. -/
def stateFragments (s : Setting) (root : Node) : Writer (List State.Fragment) := do
  let fragments ←
    attempt (State.expandAll s.environment.settings s.framework.name (bindingsOf root))
  for f in fragments do needAll f.imports
  return fragments

/-- The name of components that have none. -/
def defaultName : String := "GeneratedComponent"

/-- The name of the component of a document. -/
def componentName (d : Document) : String := (State.nonEmpty? d.component).getD defaultName

/-- The declarations of a document, those of its state, and those that the draft collected. -/
def allDeclarations (d : Document) (same : Bool) (fragments : List State.Fragment) :
    Writer (List String) := do
  let own ← carryDeclarations same d.declarations
  return addTexts (own ++ fragments.flatMap (·.declarations)) (← get).declarations

end WidgetBridge.Writing
