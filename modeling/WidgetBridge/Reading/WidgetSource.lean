import WidgetBridge.Reading.WidgetTree
import WidgetBridge.State.WidgetScan
import WidgetBridge.Text.Indent

/-!
# Widget source

A widget source holds a widget class, its state class if it has one, and what stands around them;
or it is a single widget expression. `widgetSource` reads either into a tree with the state that
was lifted out of the class, and keeps members, statements and declarations as slices of source
with their comments.
-/

namespace WidgetBridge.Reading

open WidgetBridge.Text WidgetBridge.WidgetGrammar WidgetBridge.Mapping

/-- The classes from which widgets derive. -/
def widgetBases : List String :=
  ["StatelessWidget", "StatefulWidget", "ConsumerWidget", "ConsumerStatefulWidget"]

/-- The classes from which widgets with a state class derive. -/
def statefulBases : List String := ["StatefulWidget", "ConsumerStatefulWidget"]

/-- The classes from which state classes derive. -/
def stateBases : List String := ["State", "ConsumerState"]

/-! ## Slices with comments -/

/-- The source of a range, moved to the left. -/
def sliceOf (r : Range) : String := dedent r.text r.place.column

/-- Comment blocks, moved to the left, with the number of lines after each. -/
def dedented (blocks : List CommentBlock) : List (String × Int) :=
  blocks.map fun b => (dedent b.text b.column, b.gap)

/-- The comment blocks before a token. -/
def commentsBefore (t : Option Token) : List (String × Int) :=
  (t.map fun t => dedented t.commentBlocks).getD []

/-- A kept piece of source after its comments. The block right above it stays attached. -/
def withComments (blocks : List (String × Int)) (source : String) : List String :=
  match blocks.getLast? with
  | some (last, 0) => blocks.dropLast.map (·.1) ++ [last ++ "\n" ++ source]
  | _ => blocks.map (·.1) ++ [source]

/-- The kept members as source, with the comments of all members. -/
def itemsOf (kept : Member → Bool) (ms : List Member) : List String :=
  ms.flatMap fun m =>
    let blocks := commentsBefore m.range.first?
    if kept m then withComments blocks (sliceOf m.range) else blocks.map (·.1)

/-- Whether two ranges are the same part of a source. -/
def sameRange (a b : Range) : Bool := a.start == b.start && a.stop == b.stop

/-- The statements of `build` before the returned tree, with all comments of its body. -/
def preludeOf (body : Range) (kept : List Range) : List String :=
  (body.statements.flatMap fun s =>
    let comments := (commentsBefore s.first?).map (·.1)
    if kept.any (sameRange s) then [join "\n" (comments ++ [sliceOf s])] else comments) ++
  (commentsBefore body.follow).map (·.1)

/-! ## Classes -/

/-- A constructor with nothing but a key. -/
def isTrivialConstructor (widget : String) (m : Member) : Bool :=
  m.kind == .constructor && m.name == widget && m.body.isNone && m.arrow.isNone &&
    (let params := (m.params.map fun r => replaceChar ' ' "" r.text).getD ""
     ["", "\x7bsuper.key\x7d", "\x7bsuper.key,\x7d", "\x7bKey?key\x7d"].contains params) &&
    !occursIn ":" (((cutAt? m.text ")").map (·.2)).getD m.text)

/-- The statements of a body without its last return. -/
def withoutReturn (statements : List Range) : List Range :=
  match statements.reverse.span fun s => !s.startsWith "return" with
  | (_, []) => statements
  | (after, _ :: before) => before.reverse ++ after.reverse

/-- The first class that a test accepts. -/
def findClass (accepts : Member → Attempt Bool) : List Member → Attempt (Option Member)
  | [] => .ok none
  | c :: cs => do if ← accepts c then return some c else findClass accepts cs

/-- The members in the body of a class. -/
def classMembers (s : Source) (c : Member) : Attempt (List Member) :=
  match c.body with
  | some body => s.membersIn body
  | none => .ok []

/-- The message where there is nothing to read. -/
def nothingFound : String := "no widget class or expression found"

/-- A source that is one widget expression. -/
def widgetExpression (table : Table) (s : Source) : Attempt SourceParts := do
  match s.all.first? with
  | none => throw (.malformed nothingFound ⟨1, 1⟩)
  | some first =>
    match ← s.all.withoutSemicolon.expr with
    | .call r callee typeArgs args comments =>
      let call := Expr.call r callee typeArgs args comments
      let ((e, children), notes) ← (lowerRoot table [] call).run {}
      return { root := .element e children, warnings := notes.warnings }
    | _ => throw (.malformed nothingFound first.place)

/-- A source with a widget class. -/
def widgetClass (table : Table) (s : Source) (declarations : List Member) (widget : Member) :
    Attempt SourceParts := do
  let classes := (classesOf declarations).map (·.2)
  let stateClass ←
    if statefulBases.contains widget.superName then
      findClass (fun c => do
        if !stateBases.contains c.superName then return false
        return (← c.superTypeArgs) == widget.name) classes
    else pure none
  let host := stateClass.getD widget
  let hostMembers ← classMembers s host
  let missing : Failure :=
    .malformed ("no build method returning a widget in " ++ host.name) host.range.place
  let some build := hostMembers.find? fun m => m.kind == .method && m.name == "build"
    | throw missing
  let some returned := build.returned? | throw missing
  let statements := withoutReturn ((build.body.map Range.statements).getD [])
  let widgetMembers ← if stateClass.isSome then classMembers s widget else pure []
  let all := widgetMembers ++ hostMembers
  let own := all.filter fun m =>
    !sameRange m.range build.range && m.name != "createState" &&
      !isTrivialConstructor widget.name m
  let scan ← State.scanWidget s stateClass own statements declarations
  let ((e, children), notes) ← (lowerRoot table declarations (← returned.expr)).run {}
  let e := if scan.bindings.isEmpty then e else { e with bindings := scan.bindings }
  let dropped := widget.name :: (stateClass.map (·.name)).toList ++ scan.consumed ++
    notes.consumed ++ (if notes.routed then Route.widgetHelpers else [])
  let closers := (if stateClass.isSome then [widget, host] else [host]).map fun c =>
    c.body.bind fun b => b.follow
  return {
    root := .element e children
    component := some widget.name
    prelude := (build.body.map fun b => preludeOf b scan.statements).getD []
    members := itemsOf (fun m => scan.members.any fun k => sameRange k.range m.range) all ++
      closers.flatMap fun t => (commentsBefore t).map (·.1)
    declarations :=
      itemsOf (fun m => m.kind == .directive || !dropped.contains m.name) declarations ++
        (dedented s.tailBlocks).map (·.1)
    warnings := notes.warnings }

/-- Reads a widget source. -/
def widgetSource (table : Table) (source : String) : Attempt SourceParts := do
  let s ← Source.read source
  let declarations ← s.members
  match (classesOf declarations).find? fun c => widgetBases.contains c.2.superName with
  | some (_, widget) => widgetClass table s declarations widget
  | none => widgetExpression table s

end WidgetBridge.Reading
