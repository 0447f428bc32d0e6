import WidgetBridge.FileName
import WidgetBridge.Reading.ComponentRoot
import WidgetBridge.Reading.ComponentTree
import WidgetBridge.State.ComponentScan
import WidgetBridge.Text.Indent

/-!
# Component source

`componentSource` reads a component source: the tree of the component that it stands for, the
state that was lifted out of it, and slices of the source around it with their comments. What a
written router or an inlined reducer brings back is left out of the slices.
-/

namespace WidgetBridge.Reading

open WidgetBridge.Text WidgetBridge.ComponentGrammar WidgetBridge.Mapping

/-- The source of a node, moved to the left. -/
def sliceOfTree (t : SyntaxTree) : String := dedent t.text t.span.place.column

/-! ## Declarations -/

/-- The name that a statement declares, exported or not. -/
def declaredName? : SyntaxTree → Option String
  | .node (.exported _ true) _ (d :: _) => namedBy d
  | t => namedBy t
where
  /-- The name of a declared function or class or of a single variable. -/
  namedBy : SyntaxTree → Option String
    | .node (.function form name _) _ _ =>
      if form == .declared || form == .generator then name else none
    | .node (.classDef declared name _) _ _ => if declared then name else none
    | t => t.declarator?.map fun (target, _) => target.text

/-- A slice of source from one node to another. -/
def sliceBetween (s : ComponentGrammar.Source) (first last : SyntaxTree) : String :=
  dedent (s.slice first last) first.span.place.column

/-- A block of comments as a slice. -/
def commentSlice (s : ComponentGrammar.Source) : List SyntaxTree → List String
  | [] => []
  | first :: rest => [sliceBetween s first ((first :: rest).getLastD first)]

/-- Whether a node starts on the line after a block of comments. -/
def isRightBelow (t : SyntaxTree) (block : List SyntaxTree) : Bool :=
  match block.getLast? with
  | some last => t.span.place.line == last.span.lastLine + 1
  | none => false

/-- Whether an empty line stands between a block of comments and a node. -/
def isApart (t : SyntaxTree) (block : List SyntaxTree) : Bool :=
  match block.getLast? with
  | some last => t.span.place.line > last.span.lastLine + 1
  | none => false

/-- The kept statements with all comments, as slices. A block of comments right above a kept
statement stays with it; `block` is the block of comments right before the next item. -/
def slices (s : ComponentGrammar.Source) (kept : SyntaxTree → Bool) (block : List SyntaxTree) :
    List SyntaxTree → List String
  | [] => commentSlice s block
  | t :: ts =>
    if t.isComment then
      if isApart t block then commentSlice s block ++ slices s kept [t] ts
      else slices s kept (block ++ [t]) ts
    else if !kept t then commentSlice s block ++ slices s kept [] ts
    else if isRightBelow t block then
      sliceBetween s (block.headD t) t :: slices s kept [] ts
    else commentSlice s block ++ sliceBetween s t t :: slices s kept [] ts

/-- A binding whose reducer is declared in the source, with the reducer folded in; then the name
of the reducer is given too. -/
def inlineDeclared (top : Assoc SyntaxTree) (b : State.Binding) : State.Binding × Option String :=
  match b.kind, b.reducer.bind top.get? with
  | .reducer, some declaration =>
    match State.inlineReducer b declaration.text with
    | some inlined => (inlined, b.reducer)
    | none => (b, none)
  | _, _ => (b, none)

/-! ## Classes -/

/-- The accesses to members of a class that become plain names, longer ones first. -/
def renamesOf (bindings : List State.Binding) (members rest : List SyntaxTree) :
    List (String × String) :=
  let lifted := (members.map SyntaxTree.memberName).filter fun name =>
    !name.isEmpty && !rest.any fun m => m.memberName == name
  let renames := Assoc.ofPairs (bindings.map (fun b => ("this.state." ++ b.name, b.name)) ++
    lifted.map (fun name => ("this." ++ name, name)) ++ [("this.props", "props")])
  renames.mergeSort fun a b => b.1.length ≤ a.1.length

/-- Nodes in the order of the source. -/
def inOrder (ts : List SyntaxTree) : List SyntaxTree :=
  ts.mergeSort fun a b => a.span.offset ≤ b.span.offset

/-! ## Sources -/

/-- What a component is made of, taken apart. -/
structure ComponentParts where
  markup : SyntaxTree
  bindings : List State.Binding := []
  renames : List (String × String) := []
  prelude : List String := []
  members : List String := []
  params : Option String := none

/-- Takes a component apart. -/
def Making.parts : Making → Attempt ComponentParts
  | .function fn r => do
    let scan ← State.scanFunction r.statements
    return { markup := r.markup, bindings := scan.bindings, prelude := scan.rest.map sliceOfTree
             params := paramsOf? fn }
  | .classBased c => do
    let scan ← State.scanClass c.members
    let renames := renamesOf scan.bindings c.members scan.rest
    return { markup := c.rendering.markup, bindings := scan.bindings, renames
             prelude := c.rendering.statements.map fun s => State.renameAll renames (sliceOfTree s)
             members := (inOrder (scan.rest ++ c.comments)).map sliceOfTree }
  | .markup t => .ok { markup := t }

/-- Whether two nodes start at the same place. -/
def sameStart (a b : SyntaxTree) : Bool := a.span.offset == b.span.offset

/-- Reads a component source from a file of a name. -/
def componentSource (table : Table) (source file : String) : Attempt SourceParts := do
  let s ← ComponentGrammar.Source.read source
  let some candidate := componentRoot? s
    | throw (.malformed "no JSX root expression found" ⟨1, 1⟩)
  let p ← candidate.making.parts
  let context : MarkupContext := { table, source := s, renames := p.renames }
  let ((e, children), notes) ← (lowerMarkup context p.markup).run {}
  let top := Assoc.ofPairs (s.items.filterMap fun t => (declaredName? t).map fun n => (n, t))
  let inlined := p.bindings.map (inlineDeclared top)
  let dropped := inlined.filterMap (·.2) ++ (if notes.routed then Route.componentHelpers else [])
  let kept (t : SyntaxTree) : Bool :=
    !sameStart t candidate.statement && !(candidate.reference.map (sameStart t)).getD false &&
      !((declaredName? t).map fun n => dropped.contains n).getD false
  let e := if inlined.isEmpty then e else { e with bindings := inlined.map (·.1) }
  let e := match p.params with
    | some params =>
      { e with attached := Assoc.put e.attached paramsKey (.data (.str params)) }
    | none => e
  return {
    root := .element e children
    component := match candidate.name with
      | some name => some name
      | none => FileName.component? file
    prelude := p.prelude
    members := p.members
    declarations := slices s kept [] s.items
    warnings := notes.warnings }

end WidgetBridge.Reading
