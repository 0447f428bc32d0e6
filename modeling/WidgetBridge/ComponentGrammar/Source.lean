import WidgetBridge.ComponentGrammar.Production.Statements

/-!
# Component source

`Source.read` reads a whole source: its statements and comments. Readers of nested pieces are tied
together by depth, and a source cannot be nested deeper than it is long. A source that follows the
grammar is then checked for closing tags that do not match.
-/

namespace WidgetBridge.ComponentGrammar

open WidgetBridge.Text WidgetBridge.ComponentGrammar.Parser

/-- The readers of pieces up to a depth. -/
def Grammar.upTo : (depth : Nat) → Grammar
  | 0 => .empty
  | n + 1 =>
    let g := Grammar.upTo n
    { expression := Production.expression g
      statement := Production.statement g
      markup := Production.element g
      pattern := Production.pattern g
      type := Production.type g }

/-- The statements and comments of a whole source. -/
def program (g : Grammar) : Parser (List SyntaxTree) := do
  let statements ← many do
    let cs ← comments
    return cs ++ [← g.statement]
  let last ← comments
  require (← get).rest.isEmpty
  return statements.flatten ++ last

/-- A source that was read. -/
structure Source where
  text : String
  /-- The statements and comments. -/
  items : List SyntaxTree

namespace Source

/-- The source between two nodes, both included. -/
def slice (s : Source) (first last : SyntaxTree) : String :=
  Text.slice s.text first.span.offset last.span.stop

/-- All nodes, outer ones first. -/
def nodes (s : Source) : List SyntaxTree := SyntaxTree.walkAll s.items

/-- A text without blanks. -/
def withoutBlanks (s : String) : String := String.ofList (s.toList.filter fun c => !isBlank c)

/-- The failure of an element whose closing tag has another name. -/
def mismatch? : SyntaxTree → Option Failure
  | .node (.element name (some (closing, place))) _ _ =>
    let opened := withoutBlanks (name.getD "")
    let closed := withoutBlanks closing
    if opened == closed then none
    else some (.malformed
      ("closing tag </" ++ closed ++ "> does not match <" ++ opened ++ ">") place)
  | _ => none

/-- Reads a source. -/
def read (text : String) : Attempt Source :=
  let cs := text.toList
  match (program (Grammar.upTo (cs.length + 1))).run { rest := cs, left := cs.length } with
  | none => .error .ungrammatical
  | some (items, _) =>
    match (SyntaxTree.walkAll items).findSome? mismatch? with
    | some failure => .error failure
    | none => .ok { text, items }

end Source

/-- Reads a single expression, without the brackets around it. It is read as the value of an
assignment, so that braces are those of an object. -/
def readExpression (text : String) : Attempt SyntaxTree := do
  match (← Source.read ("x = (" ++ text ++ ")")).items with
  | .node .expression _ (.node .assign _ [_, value] :: _) :: _ => return value.bare
  | _ => throw .ungrammatical

end WidgetBridge.ComponentGrammar
