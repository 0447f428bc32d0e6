import WidgetBridge.ComponentGrammar.Literal
import WidgetBridge.Motion.Emission
import WidgetBridge.Writing.Draft

/-!
# Component source of documents

`componentDocument` writes a document as a module with one function component: imports sorted by
module, declarations, and the component with its state and its markup.
-/

namespace WidgetBridge.Writing

open WidgetBridge.Text WidgetBridge.Mapping

/-- The module of the motion wrapper. -/
def motionModule : String := "framer-motion"

/-- The most characters of attributes on one line. -/
def attributeWidth : Nat := 72

/-- Source in braces. -/
def braced (source : String) : String := "\x7b" ++ source ++ "\x7d"

/-- A text that can stand in quotes as an attribute. -/
def plainAttribute : Pattern :=
  Pattern.textStart ++ Pattern.many (Pattern.noneOf "\"&\n") ++ Pattern.textEnd

/-- A text that can stand bare between tags. -/
def plainMarkup : Pattern :=
  Pattern.textStart ++ Pattern.many (Pattern.noneOf "\x7b\x7d<>&\n") ++ Pattern.textEnd

/-- An attribute. -/
def attributeText (name : String) : PropValue → String
  | .lit _ (.bool true) => name
  | .lit _ (.str s) =>
    if plainAttribute.matchesStart s then name ++ "=\"" ++ s ++ "\""
    else name ++ "=" ++ braced (ComponentGrammar.string s)
  | .lit _ v => name ++ "=" ++ braced (ComponentGrammar.ofValue v)
  | .expr source => name ++ "=" ++ braced source

/-- Text between tags, in braces where it would not survive bare. -/
def markupText (s : String) (inline : Bool) : String :=
  if plainMarkup.matchesStart s && (inline || (!s.isEmpty && s == trim s)) then s
  else braced (ComponentGrammar.string s)

/-- The attributes of an element. Props that live in the style object are gathered there. -/
def attributesOf (entry : Entry) (props : Props) : List String :=
  let isStyled := fun name => ((entry.findProp? name).map (·.style)).getD false
  let plain := props.filterMap fun (name, v) =>
    if hasHead name "..." then some (braced name)
    else if name == "style" || isStyled name then none
    else some (attributeText name v)
  let styled := props.filterMap fun (name, v) =>
    if hasHead name "..." || name == "style" || !isStyled name then none
    else some (ComponentGrammar.key name ++ ": " ++ ComponentGrammar.ofProp v)
  let object := "\x7b " ++ join ", " styled ++ " \x7d"
  match Assoc.get? props "style", styled with
  | none, [] => plain
  | some v, [] => plain ++ [attributeText "style" v]
  | none, _ => plain ++ ["style=" ++ braced object]
  | some v, _ =>
    plain ++ ["style=" ++ braced ("[" ++ ComponentGrammar.ofProp v ++ ", " ++ object ++ "]")]

/-- An element with its written attributes and children. -/
def tagText (indent tag : String) (attributes children : List String) (inline : Bool) : String :=
  let long := (join " " attributes).length > attributeWidth ||
    attributes.any fun a => a.toList.contains '\n'
  let (opening, closing) :=
    if long then
      ("<" ++ tag ++ "\n" ++ join "\n" (attributes.map (indentLines indent)) ++ "\n", "/>")
    else ("<" ++ tag ++ String.join (attributes.map (" " ++ ·)), " />")
  if children.isEmpty then opening ++ closing
  else if inline then opening ++ ">" ++ String.join children ++ "</" ++ tag ++ ">"
  else join "\n" ([opening ++ ">"] ++ children.map (indentLines indent) ++ ["</" ++ tag ++ ">"])

/-- A placeholder with its written children. -/
def placeholderTag (indent name : String) (props : Props) (children : List String) : String :=
  tagText indent "div"
    ((placeholderAttribute ++ "=" ++ ComponentGrammar.string name) ::
      props.map fun (prop, v) => attributeText prop v)
    (braced ("/* unmapped widget: " ++ name ++ " */") :: children) false

/-- Writes an element without its motion. `items` writes its children, in line or not. -/
def componentElement (s : Setting) (path : String) (e : Element) (children : List Node)
    (items : Bool → Writer (List String)) : Writer String := do
  if e.widget == "Router" then
    let f ← routerFragment s e
    let inner := (← items false).map (indentLines s.indent)
    let outer := lines f.markup
    return join "\n" (outer.take 1 ++ inner ++ outer.drop 1)
  match Validation.entryOf? s.environment.table e with
  | none =>
    let name ← placeholderName s path e
    return placeholderTag s.indent name e.props (← items false)
  | some entry =>
    attempt (checkArity entry children path)
    let modules := entry.importsFor s.framework.name
    let modules := if modules.isEmpty then [s.environment.settings.componentModule] else modules
    for module in modules do need module [entry.source]
    let inline := !children.any Node.isElement
    return tagText s.indent entry.source (attributesOf entry e.props) (← items inline) inline

mutual

/-- Writes a node. -/
def componentNode (s : Setting) (path : String) (inline : Bool) : Node → Writer String
  | .element e children => do
    let inner ← componentElement s path e children fun inline =>
      componentNodes s path 0 inline children
    match e.motion with
    | none => return inner
    | some motion =>
      need motionModule ["motion"]
      let w ← attempt (Motion.around .component motion inner s.indent)
      warn (w.warnings.map .remark)
      return w.text
  | .text v => pure (markupText v inline)
  | .slot source => pure (braced source)

/-- Writes children from an index on. -/
def componentNodes (s : Setting) (path : String) (index : Nat) (inline : Bool) :
    List Node → Writer (List String)
  | [] => pure []
  | n :: ns => do
    let first ← componentNode s (Node.childPath path index) inline n
    return first :: (← componentNodes s path (index + 1) inline ns)

end

/-- The import lines of a draft. -/
def componentImports (i : Imports) : List String :=
  (sortTexts (addTexts i.named.keys i.defaults.keys)).map (fun module =>
    let names := sortTexts ((i.named.get? module).getD [])
    let clause := (i.defaults.get? module).toList ++
      (if names.isEmpty then [] else ["\x7b " ++ join ", " names ++ " \x7d"])
    if clause.isEmpty then "import " ++ ComponentGrammar.string module ++ ";"
    else "import " ++ join ", " clause ++ " from " ++ ComponentGrammar.string module ++ ";") ++
  sortTexts i.raw

/-- The parameters of a component as it was written. -/
def paramsText (same : Bool) (e : Element) : String :=
  match (if same then e.attached.get? paramsKey else none) with
  | some (.data v) => if v.truthy then v.text else "()"
  | _ => "()"

/-- Writes a document with its root as component source. Members of a class have no place in a
function, so they are carried as comments. -/
def componentDocument (s : Setting) (d : Document) (e : Element) (children : List Node) :
    Writer String := do
  let same := d.framework == Framework.component.name
  let root := Node.element e children
  let fragments ← stateFragments s root
  let markup ← match rootMarkup? e children with
    | some source => pure source
    | none => componentNode s "root" false root
  let declarations ← allDeclarations d same fragments
  let body := fragments.flatMap (·.locals) ++ d.members.map (carried false) ++
    d.prelude.map (carried same) ++ ["return (\n" ++ indentLines s.indent markup ++ "\n);"]
  let component := join "\n"
    (["export default function " ++ componentName d ++ paramsText same e ++ " \x7b"] ++
      body.map (indentLines s.indent) ++ ["\x7d"])
  let imports := componentImports (← get).imports
  let head := if imports.isEmpty then [] else [join "\n" imports]
  return join "\n\n" (head ++ declarations ++ [component]) ++ "\n"

end WidgetBridge.Writing
