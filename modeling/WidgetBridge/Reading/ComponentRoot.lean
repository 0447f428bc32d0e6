import WidgetBridge.ComponentGrammar.Source

/-!
# The component of a source

A component source may hold several components. The one that the source stands for is the one
exported by default, or else the first exported one, or else the first one with a capital name, or
else markup that stands as a statement. A function counts as a component if it returns markup, and
a class if it extends a known base and renders markup.
-/

namespace WidgetBridge.Reading

open WidgetBridge.Text WidgetBridge.ComponentGrammar

/-! ## Functions -/

/-- The statements of a body, and the markup that it returns. -/
structure Rendering where
  statements : List SyntaxTree
  markup : SyntaxTree

/-- The markup that a statement returns. -/
def returnedMarkup? : SyntaxTree → Option SyntaxTree
  | .node .returned _ (e :: _) => if e.bare.hasMarkup then some e.bare else none
  | _ => none

/-- The last return of markup among statements, and the other statements. -/
def splitReturn (statements : List SyntaxTree) : Option Rendering :=
  match statements.reverse.span fun s => (returnedMarkup? s).isNone with
  | (after, s :: before) =>
    (returnedMarkup? s).map fun markup => ⟨before.reverse ++ after.reverse, markup⟩
  | (_, []) => none

/-- What a body renders. -/
def renderingOf? (body : SyntaxTree) : Option Rendering :=
  match body with
  | .node .block _ statements => splitReturn statements
  | e => if e.bare.hasMarkup then some ⟨[], e.bare⟩ else none

mutual

/-- The function that an expression gives, perhaps as the first argument of a call. -/
def functionIn? : SyntaxTree → Option SyntaxTree
  | .node (.function form name params) span parts =>
    if form == .generator then none else some (.node (.function form name params) span parts)
  | .node (.call _) _ parts => ((functionsIn parts).drop 1).head?.join
  | .node .paren _ parts =>
    match (functionsIn parts).zip (parts.map SyntaxTree.isComment) |>.filter fun p => !p.2 with
    | [(f, _)] => f
    | _ => none
  | _ => none

/-- The functions that several expressions give. -/
def functionsIn : List SyntaxTree → List (Option SyntaxTree)
  | [] => []
  | t :: ts => functionIn? t :: functionsIn ts

end

/-- The parameters of a function in brackets, if there are any. -/
def paramsOf? (function : SyntaxTree) : Option String :=
  match function.function? with
  | some (_, params, _) =>
    let s := trim params.text
    if s == "" || s == "()" then none else some (if hasHead s "(" then s else "(" ++ s ++ ")")
  | none => none

/-! ## Classes -/

/-- The classes from which components derive. -/
def componentBases : List String :=
  ["Component", "PureComponent", "React.Component", "React.PureComponent"]

/-- Whether what a class extends makes it a component. -/
def isComponentHeritage (heritage : String) : Bool :=
  let named := match cutAt? heritage "extends" with
    | some (before, after) => before ++ after
    | none => heritage
  componentBases.contains (trim (before named "<"))

/-- Whether a member of a class renders it. -/
def isRender : SyntaxTree → Bool
  | .node (.method "render" _ true) _ _ => true
  | _ => false

/-- A class component. -/
structure ClassComponent where
  rendering : Rendering
  members : List SyntaxTree
  comments : List SyntaxTree

/-- The component that a class declares. -/
def classComponent? : SyntaxTree → Option ClassComponent
  | .node (.classDef _ _ (some heritage)) _ parts => do
    if !isComponentHeritage heritage then none
    let (_, body) ← (← (parts.filter isRender).getLast?).method?
    let rendering ← renderingOf? body
    return ⟨rendering, parts.filter fun m => !m.isComment && !isRender m,
      parts.filter SyntaxTree.isComment⟩
  | _ => none

/-! ## Candidates -/

/-- What a component is made of. -/
inductive Making where
  | function (fn : SyntaxTree) (rendering : Rendering)
  | classBased (c : ClassComponent)
  | markup (t : SyntaxTree)

/-- What makes a component the one that a source stands for, best first. -/
inductive Standing where
  | byDefault
  | exported
  | declared
  | statement
  deriving Repr, DecidableEq

/-- The place of a standing, from zero. -/
def Standing.rank : Standing → Nat
  | .byDefault => 0
  | .exported => 1
  | .declared => 2
  | .statement => 3

/-- A component that a source may stand for. -/
structure Candidate where
  standing : Standing
  statement : SyntaxTree
  name : Option String
  making : Making
  /-- The statement that exports the component by its name. -/
  reference : Option SyntaxTree := none

/-- The name of a declaration. -/
def declarationName? : SyntaxTree → Option String
  | .node (.function _ name _) _ _ => name
  | .node (.classDef _ name _) _ _ => name
  | t => t.declarator?.map fun (target, _) => target.text

/-- The component of a declaration or an exported value. -/
def componentOf? (node : SyntaxTree) (nameless : Bool) : Option (Option String × Making) :=
  let name := declarationName? node
  match node with
  | .node (.classDef _ _ _) _ _ => (classComponent? node).map fun c => (name, .classBased c)
  | _ => do
    let fn ← match node with
      | .node .declarators _ _ => (← node.declarator?).2.bind functionIn?
      | _ => functionIn? node
    let (_, _, body) ← fn.function?
    let rendering ← renderingOf? body
    match name with
    | none => if nameless then some (none, .function fn rendering) else none
    | some n => if startsUpper n then some (some n, .function fn rendering) else none

/-- The component of a statement. -/
def candidateOf? (statement : SyntaxTree) : Option Candidate :=
  match statement with
  | .node (.exported isDefault _) _ (inner :: _) =>
    (componentOf? inner isDefault).map fun (name, making) =>
      ⟨if isDefault then .byDefault else .exported, statement, name, making, none⟩
  | .node (.exported _ _) _ [] => none
  | .node .expression _ (e :: _) =>
    if e.bare.isElement then some ⟨.statement, statement, none, .markup e.bare, none⟩ else none
  | _ => (componentOf? statement false).map fun (name, making) =>
      ⟨.declared, statement, name, making, none⟩

/-- The name that a statement exports by default, if it does nothing else. -/
def defaultName? : SyntaxTree → Option String
  | .node (.exported true _) _ (.node .name span _ :: _) => some span.text
  | _ => none

/-- Marks the first declared component of a name as exported by default. -/
def promote (reference : SyntaxTree) (name : String) : List Candidate → List Candidate
  | [] => []
  | c :: cs =>
    if (c.standing == .declared || c.reference.isSome) && c.name == some name then
      { c with standing := .byDefault, reference := some reference } :: cs
    else c :: promote reference name cs

/-- The first candidate of the best standing. -/
def best : List Candidate → Option Candidate
  | [] => none
  | c :: cs =>
    match best cs with
    | some d => if d.standing.rank < c.standing.rank then some d else some c
    | none => some c

/-- The component that a source stands for. -/
def componentRoot? (s : ComponentGrammar.Source) : Option Candidate :=
  let candidates := s.items.filterMap candidateOf?
  best (s.items.foldl (fun cs item =>
    match defaultName? item with
    | some name => promote item name cs
    | none => cs) candidates)

end WidgetBridge.Reading
