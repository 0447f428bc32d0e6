import WidgetBridge.Node
import WidgetBridge.Text.Pattern
import WidgetBridge.WidgetGrammar.Literal

/-!
# Pieces of widget source

How calls, lists, texts and classes of widget source are laid out. A call stands on one line where
it is short, else each argument takes a line of its own.
-/

namespace WidgetBridge.Writing

open WidgetBridge.Text

/-- The most characters of a call on one line. -/
def callWidth : Nat := 60

/-- Whether a text is one comment, which takes no comma. -/
def isComment (s : String) : Bool :=
  hasHead s "/*" && hasTail s "*/" && ((Pattern.lit "*/").findAll s).length == 1

/-- A constructor call. -/
def callText (callee : String) (args : List String) (indent : String) : String :=
  if args.isEmpty then callee ++ "()"
  else
    let inline := callee ++ "(" ++ join ", " args ++ ")"
    if inline.length ≤ callWidth && !inline.toList.contains '\n' then inline
    else
      let body := args.map fun a => indentLines indent (if isComment a then a else a ++ ",")
      callee ++ "(\n" ++ join "\n" body ++ "\n)"

/-- A list, with one item a line. -/
def listText (items : List String) (indent : String) : String :=
  if items.isEmpty then "[]"
  else "[\n" ++ join "\n" (items.map fun i => indentLines indent (i ++ ",")) ++ "\n]"

/-- A named argument. -/
def namedText (arg : String × String) : String := arg.1 ++ ": " ++ arg.2

/-- A text or a slot inside of a text literal. -/
def literalPiece : Node → String
  | .text s => WidgetGrammar.escape s
  | .slot source => "$\x7b" ++ source ++ "\x7d"
  | .element _ _ => ""

/-- A text literal for a run of texts and slots; slots are interpolated. -/
def textLiteral (nodes : List Node) : String :=
  "'" ++ String.join (nodes.map literalPiece) ++ "'"

/-- A class with its members. -/
def classText (header : String) (members : List String) (indent : String) : String :=
  header ++ " \x7b\n" ++ join "\n\n" (members.map (indentLines indent)) ++ "\n\x7d"

/-- Whether a member is a constructor of a class. -/
def isConstructor (className member : String) : Bool :=
  let s := trimStart member
  hasHead s ("const " ++ className ++ "(") || hasHead s (className ++ "(")

/-- A name as the parameter of a placeholder. -/
def plainName : Pattern :=
  Pattern.textStart ++ Pattern.char (fun c => isLetter c || c == '_') ++
    Pattern.many Pattern.word ++ Pattern.textEnd

/-- The name of a placeholder with the props that a comment can hold. -/
def placeholderText (name : String) (props : Props) : String :=
  let args := props.filterMap fun (prop, v) =>
    let value := WidgetGrammar.ofProp v
    if !plainName.matchesStart prop || occursIn "*/" value then none
    else some (prop ++ ": " ++ value)
  if args.isEmpty then name else name ++ "(" ++ join ", " args ++ ")"

/-- The class shape that the state of a component needs. -/
structure ClassShape where
  stateful : Bool
  consumer : Bool

/-- The classes of a widget: the widget itself, and its state class if it needs one. What
configures the widget stays on the widget. -/
def widgetClasses (shape : ClassShape) (name : String) (members body : List String)
    (indent : String) : List String :=
  let params := if shape.consumer && !shape.stateful then "BuildContext context, WidgetRef ref"
    else "BuildContext context"
  let build := join "\n" (["@override", "Widget build(" ++ params ++ ") \x7b"] ++
    body.map (indentLines indent) ++ ["\x7d"])
  let constructors := members.filter (isConstructor name)
  let own := if constructors.isEmpty then ["const " ++ name ++ "(\x7bsuper.key\x7d);"]
    else constructors
  if !shape.stateful then
    let base := if shape.consumer then "ConsumerWidget" else "StatelessWidget"
    [classText ("class " ++ name ++ " extends " ++ base)
      (own ++ members.filter (fun m => !own.contains m) ++ [build]) indent]
  else
    let own := own ++ members.filter fun m => hasHead m "final " && !own.contains m
    let rest := members.filter fun m => !own.contains m
    let (widgetBase, stateBase) :=
      if shape.consumer then ("ConsumerStatefulWidget", "ConsumerState")
      else ("StatefulWidget", "State")
    let stateName := "_" ++ name ++ "State"
    let create := "@override\n" ++ stateBase ++ "<" ++ name ++ "> createState() => " ++
      stateName ++ "();"
    [classText ("class " ++ name ++ " extends " ++ widgetBase) (own ++ [create]) indent,
      classText ("class " ++ stateName ++ " extends " ++ stateBase ++ "<" ++ name ++ ">")
        (rest ++ [build]) indent]

end WidgetBridge.Writing
