import WidgetBridge.Config.Session
import WidgetBridge.Motion.Wrappers
import WidgetBridge.Reading.Parts
import WidgetBridge.Route.WidgetRouter

/-!
# Trees in widget source

Nested constructor calls become a tree of nodes: `lower` takes an expression to the nodes that it
stands for. A constructor with a mapping becomes the neutral widget with its props carried back,
one without mapping a placeholder, a wrapper that states motion is collapsed onto the widget
inside it, and a router becomes an element with its routes. Other source is kept in slots.
-/

namespace WidgetBridge.Reading

open WidgetBridge.Text WidgetBridge.WidgetGrammar WidgetBridge.Mapping

/-- The arguments of a call with their names. -/
abbrev Args := List (Option String × Expr)

/-! ## Shapes of arguments -/

/-- A comment that stands for a widget without mapping. -/
def placeholderComment : Pattern :=
  Pattern.lit "/*" ++ Pattern.blanks ++ Pattern.lit "unmapped widget:" ++ Pattern.blanks ++
    Pattern.group 1 (Pattern.few1 Pattern.any) ++ Pattern.blanks ++ Pattern.lit "*/"

/-- The name and props that the text of such a comment states. -/
def placeholderOf (s : String) : Attempt (String × Props) :=
  match cutAt? s "(" with
  | none => .ok (s, [])
  | some (head, _) =>
    let name := trim head
    match Source.read s >>= fun source => source.all.expr with
    | .ok (.call _ _ _ args _) =>
      .ok (name, Assoc.ofPairs (args.filterMap fun (n, e) => n.map fun n => (n, e.toProp)))
    | .ok _ => .ok (name, [])
    | .error (.malformed _ _) => .ok (name, [])
    | .error e => .error e

/-- The placeholder that one of some comments states. -/
def placeholder? : List String → Attempt (Option (String × Props))
  | [] => .ok none
  | c :: cs =>
    match placeholderComment.search? c with
    | some m => (placeholderOf (m.get 1)).map some
    | none => placeholder? cs

/-- The children of a column that has nothing else. -/
def plainColumn? : Expr → Option Expr
  | .call _ "Column" _ [(some "children", e)] _ => some e
  | _ => none

/-- The value of a key. -/
def keyValue? : Expr → Option Expr
  | .call _ "ValueKey" _ [(none, e)] _ => some e
  | .call _ "Key" _ [(none, e)] _ => some e
  | _ => none

/-- The nodes of a text argument: plain parts are texts, interpolated ones slots. -/
def textNodes : Expr → List Node
  | .string _ parts => parts.filterMap fun p =>
    match p with
    | .hole source => some (.slot source)
    | .text s => if s.isEmpty then none else some (.text s)
  | e => [.slot e.text]

/-- The text of a single text element without anything else. -/
def plainTextChild? : List Node → Option (List Node)
  | [.element e children] =>
    if e.widget == "Text" && e.props.isEmpty && e.bindings.isEmpty && e.motion.isNone &&
      children.all (fun c => match c with | .text _ => true | _ => false)
    then some children else none
  | _ => none

/-- Carries a prop back and puts it among others. -/
def putProp (entry : Entry) (path target : String) (v : PropValue) (props : Props) :
    Reader Props := do
  let ((name, mapped), issues) ← (entry.carryProp target v .backward path : Attempt _)
  note issues
  return Assoc.put props name mapped

/-- Carries the named arguments of a nested constructor back. -/
def putGroup (entry : Entry) (path group : String) : Args → Props → Reader Props
  | [], props => pure props
  | (none, _) :: args, props => putGroup entry path group args props
  | (some name, e) :: args, props => do
    putGroup entry path group args
      (← putProp entry path (group ++ "." ++ name) e.toProp props)

/-! ## Lowering -/

/-- The constructors that hold routes. -/
def routerNames : List String := ["MaterialApp", "MaterialApp.router", "GoRouter"]

/-- What the arguments of a mapped constructor gave so far. -/
structure Filled where
  props : Props
  children : List Node := []
  /-- How many arguments had no name. -/
  positional : Nat := 0

/-- The constructors that lay out children for a widget. -/
def layoutWidgets (entry : Entry) : List String :=
  (entry.layout.map fun l => l.widgets.map (·.2)).getD []

/-- A call in the child slot that lays out children for the widget itself. -/
def layoutCall? (entry : Entry) (callee name : String) : Expr → Option (String × Args)
  | .call _ inner _ innerArgs _ =>
    if entry.singleSlot? == some name && (layoutWidgets entry).contains inner &&
        !(layoutWidgets entry).contains callee then
      some (inner, innerArgs)
    else none
  | _ => none

/-- What a child slot holds; a plain column in the slot of a widget with many children is passed
through. -/
def slotContent (entry : Entry) (name : String) (e : Expr) : Expr :=
  match plainColumn? e with
  | some children =>
    if entry.singleSlot? == some name && entry.arity == .multi then children else e
  | none => e

/-- The arguments of a nested constructor that an entry knows. -/
def nestedArgs? (entry : Entry) (name : String) : Expr → Option Args
  | .call _ inner _ innerArgs _ =>
    if Assoc.get? entry.groups name == some inner then some innerArgs else none
  | _ => none

/-- The router element of a call. -/
def lowerRouter (declarations : List Member) (call : Expr) (callee : String) (args : Args) :
    Reader (List Node) := do
  let r ← (Route.ofWidgetCall call callee args declarations : Attempt _)
  modify fun n => { n with consumed := n.consumed ++ r.consumed, routed := true }
  note (r.schema.warnings.map .remark)
  return [.element { widget := "Router", attached := [("routes", .routes r.schema)] } []]

mutual

/-- The nodes that an expression stands for. -/
def lower (table : Table) (declarations : List Member) :
    (fuel : Nat) → (path : String) → Option Expr → Reader (List Node)
  | 0, _, _ => pure []
  | _ + 1, _, none => pure []
  | fuel + 1, path, some e =>
    match e with
    | .list _ items => lowerItems table declarations fuel path 0 items
    | .call r callee typeArgs args comments =>
      let call := Expr.call r callee typeArgs args comments
      if !startsUpper callee then pure [.slot call.text]
      else do
        match ← (Motion.ofWrappers call : Attempt _) with
        | some m =>
          note (m.warnings.map .remark)
          let nodes ← lower table declarations fuel path m.child
          match nodes with
          | [.element inner children] =>
            if inner.motion.isNone then
              return [.element { inner with motion := some m.spec } children]
            return [.element { widget := "View", motion := some m.spec } nodes]
          | _ => return [.element { widget := "View", motion := some m.spec } nodes]
        | none =>
          if !routerNames.contains callee then
            lowerCall table declarations fuel path callee args comments
          else if callee == "MaterialApp" && (Expr.named? args "routes").isNone &&
              (Expr.named? args "routerConfig").isNone then
            match ← lower table declarations fuel path (Expr.named? args "home") with
            | [] => lowerCall table declarations fuel path callee args comments
            | nodes => return nodes
          else lowerRouter declarations call callee args
    | e => pure [.slot e.text]

/-- The nodes of the items of a list, from an index on. -/
def lowerItems (table : Table) (declarations : List Member) :
    (fuel : Nat) → (path : String) → (index : Nat) → List Expr → Reader (List Node)
  | 0, _, _, _ => pure []
  | _ + 1, _, _, [] => pure []
  | fuel + 1, path, index, e :: es => do
    let nodes ← lower table declarations fuel (Node.childPath path index) (some e)
    return nodes ++ (← lowerItems table declarations fuel path (index + nodes.length) es)

/-- The node of a constructor that is no wrapper and no router. -/
def lowerCall (table : Table) (declarations : List Member) :
    (fuel : Nat) → (path callee : String) → Args → (comments : List String) → Reader (List Node)
  | 0, _, _, _, _ => pure []
  | fuel + 1, path, callee, args, comments => do
    let stated ← if callee == "Container" then (placeholder? comments : Attempt _) else pure none
    match stated with
    | some (name, props) =>
      let child ← lowerSlot table declarations fuel path (Expr.named? args "child")
      let children ← lowerSlot table declarations fuel path (Expr.named? args "children")
      return [.element (.placeholder name props) (child ++ children)]
    | none =>
      match table.backward? callee with
      | some entry =>
        let (props, children) ← lowerMapped table declarations fuel path entry callee args
        return [.element { widget := entry.source, props } children]
      | none =>
        let (props, children) ← lowerUnmapped table declarations fuel path 0 args
        return [.element (.placeholder callee (Assoc.ofPairs props)) children]

/-- The nodes of a child slot; a column that holds nothing but children is passed through. -/
def lowerSlot (table : Table) (declarations : List Member) :
    (fuel : Nat) → (path : String) → Option Expr → Reader (List Node)
  | 0, _, _ => pure []
  | fuel + 1, path, e =>
    lower table declarations fuel path
      (match e.bind plainColumn? with
        | some children => some children
        | none => e)

/-- The props and children of a constructor without mapping. -/
def lowerUnmapped (table : Table) (declarations : List Member) :
    (fuel : Nat) → (path : String) → (index : Nat) → Args →
      Reader (List (String × PropValue) × List Node)
  | 0, _, _, _ => pure ([], [])
  | _ + 1, _, _, [] => pure ([], [])
  | fuel + 1, path, index, (name, e) :: args => do
    if name == some "child" || name == some "children" then
      let nodes ← lower table declarations fuel path (some e)
      let (props, children) ← lowerUnmapped table declarations fuel path (index + 1) args
      return (props, nodes ++ children)
    else
      let (props, children) ← lowerUnmapped table declarations fuel path (index + 1) args
      return ((name.getD ("arg" ++ Number.showInt index), e.toProp) :: props, children)

/-- The props and children of a constructor with a mapping. -/
def lowerMapped (table : Table) (declarations : List Member) :
    (fuel : Nat) → (path : String) → Entry → (callee : String) → Args →
    Reader (Props × List Node)
  | 0, _, _, _, _ => pure ([], [])
  | fuel + 1, path, entry, callee, args => do
    let implied := (Assoc.get? entry.targetAliases callee).getD []
    let start : Filled := { props := implied.map fun (k, v) => (k, .literal v) }
    let filled ← fillAll table declarations fuel path entry callee args start
    let children := match entry.textMode with
      | .wrap => (plainTextChild? filled.children).getD filled.children
      | _ => filled.children
    return (filled.props, children)

/-- What the arguments of a mapped constructor give. -/
def fillAll (table : Table) (declarations : List Member) :
    (fuel : Nat) → (path : String) → Entry → (callee : String) → Args → Filled → Reader Filled
  | 0, _, _, _, _, f => pure f
  | _ + 1, _, _, _, [], f => pure f
  | fuel + 1, path, entry, callee, (name, e) :: args, f => do
    let f ← match name with
      | none =>
        let next := { f with positional := f.positional + 1 }
        if f.positional == 0 && entry.textMode == .positional then
          pure { next with children := f.children ++ textNodes e }
        else
          let target := "@" ++ Number.showInt f.positional
          pure { next with props := ← putProp entry path target e.toProp f.props }
      | some name => fillNamed table declarations fuel path entry callee name e f
    fillAll table declarations fuel path entry callee args f

/-- What a named argument of a mapped constructor gives. -/
def fillNamed (table : Table) (declarations : List Member) :
    (fuel : Nat) → (path : String) → Entry → (callee name : String) → Expr → Filled →
    Reader Filled
  | 0, _, _, _, _, _, f => pure f
  | fuel + 1, path, entry, callee, name, e, f => do
    if name == "child" || name == "children" || entry.singleSlot? == some name then
      match layoutCall? entry callee name e with
      | some (inner, innerArgs) =>
        let (props, children) ← lowerMapped table declarations fuel path entry inner innerArgs
        return { f with
          props := props.foldl (fun ps p => Assoc.put ps p.1 p.2) f.props
          children := f.children ++ children }
      | none =>
        let nodes ← lower table declarations fuel path (some (slotContent entry name e))
        return { f with children := f.children ++ nodes }
    else
      match (if name == "key" then keyValue? e else none) with
      | some v => return { f with props := Assoc.put f.props "key" v.toProp }
      | none =>
        match nestedArgs? entry name e with
        | some innerArgs =>
          return { f with props := ← putGroup entry path name innerArgs f.props }
        | none =>
          let target := if (layoutWidgets entry).contains callee then "layout." ++ name else name
          return { f with props := ← putProp entry path target e.toProp f.props }

end

/-- The tree of an expression, with an element at its root. Each step of lowering goes to a part
of the expression or to the next of several parts. -/
def lowerRoot (table : Table) (declarations : List Member) (e : Expr) :
    Reader (Element × List Node) :=
  rootOf <$> lower table declarations (8 * TokenTree.sizeOf' e.range.trees + 8) "root" (some e)

end WidgetBridge.Reading
