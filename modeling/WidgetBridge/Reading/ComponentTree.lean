import WidgetBridge.ComponentGrammar.MarkupText
import WidgetBridge.Config.Session
import WidgetBridge.Motion.Props
import WidgetBridge.Reading.Parts
import WidgetBridge.Route.ComponentRouter
import WidgetBridge.State.Mutation
import WidgetBridge.Text.Entity

/-!
# Trees in component source

Markup becomes a tree of nodes: `lowerElement` takes an element to the nodes that it stands for. A
tag with a mapping becomes the neutral widget, one without mapping a placeholder, a tag that states
motion gives it to the only element inside or becomes an element of its own, a router becomes an
element with its routes, and a fragment gives its children. Other source is kept in slots.
-/

namespace WidgetBridge.Reading

open WidgetBridge.Text WidgetBridge.ComponentGrammar WidgetBridge.Mapping

/-- What markup is read with. -/
structure MarkupContext where
  table : Table
  source : ComponentGrammar.Source
  /-- Accesses to members of a class that become plain names, longer ones first. -/
  renames : List (String × String) := []

/-- Source in which accesses to members of a class are plain names. -/
def MarkupContext.plain (c : MarkupContext) (source : String) : String :=
  State.renameAll c.renames source

/-! ## Attributes -/

/-- The value of an expression. -/
def MarkupContext.valueOf (c : MarkupContext) (t : SyntaxTree) : Attempt PropValue := do
  match ← t.toProp with
  | .expr source => return .expr (c.plain source)
  | v => return v

/-- The entries of an object without spreads and methods. -/
def flatEntries? : SyntaxTree → Option (List (SyntaxTree × SyntaxTree))
  | .node .object _ parts => (SyntaxTree.withoutComments parts).mapM fun p =>
    match p with
    | .node .pair _ [key, value] => some (key, value)
    | _ => none
  | _ => none

/-- Puts the entries of an inline style among props, each under its own name. -/
def putEntries (c : MarkupContext) : List (SyntaxTree × SyntaxTree) → Props → Attempt Props
  | [], props => .ok props
  | (key, value) :: rest, props => do
    match ← key.key? with
    | some name => putEntries c rest (Assoc.put props name (← c.valueOf value))
    | none => putEntries c rest props

/-- Puts what an attribute states among props. -/
def putAttribute (c : MarkupContext) (props : Props) (a : SyntaxTree) : Attempt Props :=
  match a with
  | .node .container _ _ =>
    match a.contained? with
    | some inner =>
      let source := c.plain inner.text
      .ok (Assoc.put props source (.expr (dropHead source "...")))
    | none => .ok props
  | .node (.attr name) _ [] => .ok (Assoc.put props name (.literal (.bool true)))
  | .node (.attr name) _ (value :: _) =>
    match value with
    | .node .string span _ =>
      .ok (Assoc.put props name (.literal (.str (Entity.unescape (unquoted span.text)))))
    | .node .container _ _ =>
      match value.contained?.map SyntaxTree.bare with
      | none => .ok props
      | some inner =>
        match (if name == "style" then flatEntries? inner else none) with
        | some entries => putEntries c entries props
        | none => do return Assoc.put props name (← c.valueOf inner)
    | t => .ok (Assoc.put props name (.expr (c.plain t.text)))
  | _ => .ok props

/-- The props that the attributes of an element state. -/
def propsOf (c : MarkupContext) (element : SyntaxTree) : Attempt Props :=
  element.attributes.foldlM (putAttribute c) []

/-! ## Children -/

/-- A list of nodes with a text at its end, which joins a text before it. -/
def pushText (nodes : List Node) (s : String) : List Node :=
  match nodes.getLast? with
  | some (.text before) => nodes.dropLast ++ [.text (before ++ s)]
  | _ => nodes ++ [.text s]

/-- A list of nodes with others at its end, where texts that meet are joined. -/
def pushNodes (nodes more : List Node) : List Node :=
  more.foldl (fun out n =>
    match n with
    | .text s => pushText out s
    | n => out ++ [n]) nodes

/-- A list of nodes with a run of markup text at its end. -/
def pushRun (nodes : List Node) (run : String) : List Node :=
  let s := markupText run
  if s.isEmpty then nodes else pushText nodes s

/-- The node of an expression among children: a constant text is running text. -/
def childOf (c : MarkupContext) (t : SyntaxTree) : Attempt Node := do
  match ← t.constant? with
  | some (.str s) => return .text s
  | _ => return .slot (c.plain t.text)

/-! ## Lowering -/

/-- How the tags start that state motion. -/
def motionLead : String := "motion."

/-- The element of a tag that states motion, with its children. -/
def lowerMotion (table : Table) (tag : String) (props : Props) (children : List Node) :
    Attempt Node := do
  let (stated, rest) := Motion.splitProps props
  match ← Motion.ofProps stated with
  | none => return .element (.placeholder tag props) children
  | some spec =>
    let around : Unit → Node := fun _ =>
      let widget := ((table.forward? (dropHead tag motionLead)).map (·.source)).getD "View"
      .element { widget, props := rest, motion := some spec } children
    match children with
    | [.element inner grandchildren] =>
      if rest.isEmpty && inner.motion.isNone then
        return .element { inner with motion := some spec } grandchildren
      return around ()
    | _ => return around ()

/-- The element of a tag that is neither a router nor states motion. -/
def elementOf (table : Table) (tag : String) (props : Props) : Element :=
  match tag, props.get? placeholderAttribute with
  | "div", some (.lit _ (.str name)) => .placeholder name (Assoc.erase props placeholderAttribute)
  | _, _ =>
    match table.forward? tag with
    | some entry => { widget := entry.source, props }
    | none => .placeholder tag props

/-- The schema of a router, which is noted. -/
def lowerRoutes (c : MarkupContext) (router : SyntaxTree) : Reader Route.Schema := do
  let guards ← (Route.guardsOfSource c.source : Attempt _)
  let schema ← (Route.ofRouterElement router guards : Attempt _)
  modify fun n => { n with routed := true }
  note (schema.warnings.map .remark)
  return schema

mutual

/-- The nodes that an element stands for. -/
def lowerElement (c : MarkupContext) : SyntaxTree → Reader (List Node)
  | .node shape span parts =>
    let t := SyntaxTree.node shape span parts
    match t.tagName? with
    | none => lowerChildren c [] "" parts
    | some tag => do
      if Route.routerTags.contains tag then
        let schema ← lowerRoutes c t
        let children ← if tag == "Routes" then pure [] else lowerBeside c parts
        return [.element { widget := "Router", attached := [("routes", .routes schema)] } children]
      let props ← (propsOf c t : Attempt _)
      let children ← lowerChildren c [] "" parts
      if hasHead tag motionLead then return [← (lowerMotion c.table tag props children : Attempt _)]
      return [.element (elementOf c.table tag props) children]

/-- The nodes of children after some others. `run` is the text right before the next child. -/
def lowerChildren (c : MarkupContext) (out : List Node) (run : String) :
    List SyntaxTree → Reader (List Node)
  | [] => pure (pushRun out run)
  | .node shape span parts :: ts => do
    match shape with
    | .text => lowerChildren c out (run ++ span.text) ts
    | .container =>
      match (SyntaxTree.node shape span parts).contained? with
      | some inner =>
        let n ← (childOf c inner : Attempt _)
        lowerChildren c (pushNodes (pushRun out run) [n]) "" ts
      | none => lowerChildren c (pushRun out run) "" ts
    | .element _ _ =>
      let nodes ← lowerElement c (.node shape span parts)
      lowerChildren c (pushNodes (pushRun out run) nodes) "" ts
    | _ => lowerChildren c (pushRun out run) "" ts

/-- The nodes of the elements beside the routes of a router. -/
def lowerBeside (c : MarkupContext) : List SyntaxTree → Reader (List Node)
  | [] => pure []
  | t :: ts => do
    if t.isElement && t.tagName? != some "Routes" then
      let nodes ← lowerElement c t
      return nodes ++ (← lowerBeside c ts)
    else lowerBeside c ts

end

/-- The tree of markup, with an element at its root. What is no element as it stands is kept as one
expression. -/
def lowerMarkup (c : MarkupContext) (markup : SyntaxTree) : Reader (Element × List Node) :=
  let t := markup.bare
  if t.isElement then rootOf <$> lowerElement c t
  else
    return ({ widget := "View", attached := [(markupKey, .data (.bool true))] }, [.slot t.text])

end WidgetBridge.Reading
