import WidgetBridge.ComponentGrammar.Literal
import WidgetBridge.Motion.Emission
import WidgetBridge.Writing.Draft
import WidgetBridge.Writing.WidgetCode

/-!
# Widget source of documents

`widgetDocument` writes a document as one widget class. Props are carried over and go where their
target says: `@N` is an argument without name, `group.name` one of a nested constructor, `#text`
the text of the widget, and `layout` and what starts with it choose and configure the widget that
holds several children in a slot for one.
-/

namespace WidgetBridge.Writing

open WidgetBridge.Text WidgetBridge.Mapping

/-- The module of the widgets. -/
def materialModule : String := "package:flutter/material.dart"

/-- The arguments of one constructor, by where they go. -/
structure Arguments where
  positional : List (Int × String) := []
  named : List (String × String) := []
  groups : Assoc (List (String × String)) := []
  /-- The chosen layout. -/
  layout : Option Value := none
  layoutArgs : List (String × String) := []
  comments : List String := []
  /-- The text of the widget, where a prop gives it. -/
  text : Option PropValue := none

namespace Arguments

/-- Puts an argument at a place. -/
def putAt (place : Int) (source : String) : List (Int × String) → List (Int × String)
  | [] => [(place, source)]
  | (p, s) :: rest =>
    if place < p then (place, source) :: (p, s) :: rest
    else if place == p then (place, source) :: rest
    else (p, s) :: putAt place source rest

/-- Adds comments to a neighbouring argument, so that they take no comma. -/
def withNote (comments positional named : List String) : List String :=
  if comments.isEmpty then positional ++ named
  else
    let text := join " " comments
    match named, positional.reverse with
    | first :: rest, _ => positional ++ (text ++ " " ++ first) :: rest
    | [], last :: rest => rest.reverse ++ [last ++ " " ++ text]
    | [], [] => [text]

/-- The arguments as source, with further ones at the end. -/
def render (a : Arguments) (entry : Entry) (trailing : List String) : List String :=
  let groups := a.groups.map fun (group, items) =>
    group ++ ": " ++ callText ((Assoc.get? entry.groups group).getD "") (items.map namedText) "  "
  withNote a.comments (a.positional.map (·.2)) (a.named.map namedText ++ groups ++ trailing)

/-- Adds a carried prop where its target says. -/
def add (a : Arguments) (entry : Entry) (target : String) (v : PropValue) : Attempt Arguments :=
  let source := WidgetGrammar.ofProp v
  if target == "#text" then .ok { a with text := some v }
  else if hasHead target "@" then
    match Number.readInt? (drop target 1) with
    | some i => .ok { a with positional := putAt i source a.positional }
    | none => .error .badText
  else if target == "layout" then
    .ok { a with layout := match v with
      | .lit _ .null => none
      | .lit _ v => some v
      | .expr _ => none }
  else if hasHead target "layout." then
    .ok { a with layoutArgs := a.layoutArgs ++ [(dropHead target "layout.", source)] }
  else
    match cutAt? target "." with
    | some (group, name) =>
      if Assoc.has entry.groups group then
        let items := (a.groups.get? group).getD []
        .ok { a with groups := a.groups.put group (items ++ [(name, source)]) }
      else .ok { a with named := a.named ++ [(target, source)] }
    | none => .ok { a with named := a.named ++ [(target, source)] }

end Arguments

/-- The arguments of the props of an element. -/
def argumentsFor (entry : Entry) (path : String) : Arguments → Props → Writer Arguments
  | a, [] => pure a
  | a, (name, v) :: props => do
    if hasHead name "..." then
      let comment := "/* " ++ State.unconvertedMark ++ " \x7b" ++ name ++ "\x7d */"
      argumentsFor entry path { a with comments := a.comments ++ [comment] } props
    else if name == "key" then
      let key := ("key", "ValueKey(" ++ WidgetGrammar.ofProp v ++ ")")
      argumentsFor entry path { a with named := a.named ++ [key] } props
    else
      let ((target, mapped), issues) ← attempt (entry.carryProp name v .forward path)
      warn issues
      argumentsFor entry path (← attempt (a.add entry target mapped)) props

/-- The node of a text that a prop gives. -/
def textNode : PropValue → Node
  | .lit _ (.str s) => .text s
  | .lit _ v => .text (ComponentGrammar.ofValue v)
  | .expr s => .slot s

/-- What fills the place of children. -/
inductive Content where
  /-- A run of texts and slots. -/
  | run (nodes : List Node)
  /-- Widgets. -/
  | widgets
  deriving Inhabited

/-- Whether children are a run of text: there is no element among them, and the widget takes text
or some child is text. -/
def contentOf (entry : Entry) (text : Option PropValue) (children : List Node) : Content :=
  match children, text with
  | [], some v => .run [textNode v]
  | [], none => .widgets
  | _, _ =>
    if children.any Node.isElement then .widgets
    else if entry.textMode != .none ||
        children.any (fun c => match c with | .text _ => true | _ => false) then .run children
    else .widgets

/-- The argument that holds written children. -/
def childArgument (entry : Entry) (a : Arguments) (indent : String) (items : List String) :
    Attempt (Option (String × String)) :=
  if entry.childSlot == "children" then .ok (some ("children", listText items indent))
  else
    match entry.singleSlot? with
    | none => .ok none
    | some slot =>
      let laidOut := items.length > 1 || a.layout.isSome || !a.layoutArgs.isEmpty
      match (if laidOut then entry.layout else none) with
      | some layout =>
        let key := (a.layout.map Value.text).getD layout.fallback
        match (layout.widgets.get? key).orElse fun _ => layout.widgets.get? layout.fallback with
        | some widget =>
          .ok (some ("layout", callText widget
            (a.layoutArgs.map namedText ++ ["children: " ++ listText items indent]) indent))
        | none => .error .missingField
      | none =>
        match items with
        | [] => .ok none
        | [item] => .ok (some (slot, item))
        | items =>
          .ok (some (slot, callText "Column" ["children: " ++ listText items indent] indent))

/-- The arguments with the content of an element, and the argument that holds its children.
`items` writes the children. -/
def placeContent (s : Setting) (entry : Entry) (path : String) (a : Arguments)
    (children : List Node) (items : Writer (List String)) :
    Writer (Arguments × Option (String × String)) := do
  let refuse : Writer Unit := throw
    (.generation (entry.target ++ " takes no widget children") path)
  match contentOf entry a.text children, entry.textMode with
  | .run nodes, .positional =>
    return ({ a with positional := Arguments.putAt 0 (textLiteral nodes) a.positional }, none)
  | .run nodes, .wrap =>
    return (a, some (entry.singleSlot?.getD "child",
      callText "Text" [textLiteral nodes] s.indent))
  | .run nodes, .none =>
    need materialModule []
    if entry.childSlot == "none" then refuse
    let item := callText "Text" [textLiteral nodes] s.indent
    return (a, ← attempt (childArgument entry a s.indent [item]))
  | .widgets, _ =>
    if !children.isEmpty && entry.childSlot == "none" then refuse
    return (a, ← attempt (childArgument entry a s.indent (← items)))

/-- The call of a mapped widget. A layout takes the place of a widget that has no arguments of its
own. -/
def mappedCall (s : Setting) (entry : Entry) (a : Arguments) (slot : Option (String × String)) :
    String :=
  match slot with
  | none => callText entry.target (a.render entry []) s.indent
  | some ("layout", call) =>
    if entry.layout.isNone then
      callText entry.target (a.render entry ["layout: " ++ call]) s.indent
    else if (a.render entry []).isEmpty then call
    else callText entry.target (a.render entry ["child: " ++ call]) s.indent
  | some arg => callText entry.target (a.render entry [namedText arg]) s.indent

/-- A placeholder with its written children. -/
def placeholderCall (s : Setting) (name : String) (props : Props) (items : List String) :
    String :=
  let marker := "/* unmapped widget: " ++ placeholderText name props ++ " */"
  let around := fun child =>
    "Container(\n" ++ indentLines s.indent (marker ++ "\nchild: " ++ child ++ ",") ++ "\n)"
  match items with
  | [] => "Container(" ++ marker ++ ")"
  | [item] => around item
  | items => around (callText "Column" ["children: " ++ listText items s.indent] s.indent)

/-- Writes an element without its motion. `items` writes its children. -/
def widgetElement (s : Setting) (path : String) (e : Element) (children : List Node)
    (items : Writer (List String)) : Writer String := do
  if e.widget == "Router" then
    let f ← routerFragment s e
    if !children.isEmpty then
      warn [.remark (path ++ ": " ++ Number.showInt children.length ++
        " child widget(s) beside the route tree dropped")]
    return f.markup
  match Validation.entryOf? s.environment.table e with
  | none =>
    let name ← placeholderName s path e
    return placeholderCall s name e.props (← items)
  | some entry =>
    attempt (checkArity entry children path)
    for module in entry.importsFor s.framework.name do need module []
    let a ← argumentsFor entry path {} e.props
    let (a, slot) ← placeContent s entry path a children items
    return mappedCall s entry a slot

mutual

/-- Writes a node. -/
def widgetNode (s : Setting) (path : String) : Node → Writer String
  | .element e children => do
    let inner ← widgetElement s path e children (widgetNodes s path 0 children)
    match e.motion with
    | none => return inner
    | some motion =>
      let w ← attempt (Motion.around .widget motion inner s.indent)
      warn (w.warnings.map .remark)
      return w.text
  | .text v => pure (callText "Text" [textLiteral [.text v]] s.indent)
  | .slot source => pure source

/-- Writes children from an index on. -/
def widgetNodes (s : Setting) (path : String) (index : Nat) : List Node → Writer (List String)
  | [] => pure []
  | n :: ns => do
    let first ← widgetNode s (Node.childPath path index) n
    return first :: (← widgetNodes s path (index + 1) ns)

end

/-- The import lines of a draft. -/
def widgetImports (i : Imports) : List String :=
  (sortTexts i.named.keys).map (fun m => "import '" ++ m ++ "';") ++ sortTexts i.raw

/-- Writes a document with its root as widget source. -/
def widgetDocument (s : Setting) (d : Document) (e : Element) (children : List Node) :
    Writer String := do
  let same := d.framework == Framework.widget.name
  let root := Node.element e children
  need materialModule []
  let fragments ← stateFragments s root
  if (rootMarkup? e children).isSome then
    throw (.generation "root markup is a single expression with no widget form" "root")
  let markup ← widgetNode s "root" root
  let declarations ← allDeclarations d same fragments
  let body := fragments.flatMap (·.locals) ++ d.prelude.map (carried same) ++
    ["return " ++ markup ++ ";"]
  let members := fragments.flatMap (·.members) ++ d.members.map (carried same)
  let shape : ClassShape :=
    ⟨fragments.any fun f => f.host == .stateful, fragments.any fun f => f.host == .consumer⟩
  let classes := widgetClasses shape (componentName d) members body s.indent
  let imports := join "\n" (widgetImports (← get).imports)
  return join "\n\n" (imports :: declarations ++ classes) ++ "\n"

end WidgetBridge.Writing
