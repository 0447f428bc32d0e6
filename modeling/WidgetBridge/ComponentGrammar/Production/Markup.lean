import WidgetBridge.ComponentGrammar.Production.Types

/-!
# Markup

Elements with their attributes and children. A closing tag may have another name than its opening
tag here; that is found later, with its place. A run of text that is nothing but line breaks and
the blanks after them leaves no node.
-/

namespace WidgetBridge.ComponentGrammar.Production

open WidgetBridge.Text WidgetBridge.ComponentGrammar.Parser

/-- Expressions with commas between them; several make one node. -/
def expressions (g : Grammar) : Parser SyntaxTree := do
  let s ← start
  let first ← g.expression
  match ← many (do mark ","; g.expression) with
  | [] => return first
  | rest => finish s .other (first :: rest)

/-- An expression after three dots. -/
def spread (g : Grammar) : Parser SyntaxTree := do
  let s ← start
  mark "..."
  let e ← g.expression
  finish s .other [e]

/-- An expression in braces, which may be left out. -/
def container (g : Grammar) : Parser SyntaxTree := do
  let s ← start
  exact "\x7b"
  let before ← comments
  let e ← maybe (spread g <|> expressions g)
  let after ← comments
  exact "\x7d"
  finish s .container (before ++ e.toList ++ after)

/-- The name of a tag: with hyphens, with a colon, or with dots. -/
def tagName : Parser String := do
  let s ← start
  let _ ← lexeme Lexical.tagNameLength?
  (do
    mark ":"
    let _ ← token Lexical.tagNameLength?) <|>
  (do let _ ← many (do mark "."; token Lexical.nameLength?))
  textFrom s

/-- The value of an attribute. -/
def attributeValue (g : Grammar) : Parser SyntaxTree :=
  leaf .string Lexical.attributeLength? <|> container g <|> g.markup

/-- An attribute. -/
def attr (g : Grammar) : Parser SyntaxTree := do
  let s ← start
  let _ ← lexeme Lexical.tagNameLength?
  let _ ← maybe (do
    mark ":"
    token Lexical.tagNameLength?)
  let name ← textFrom s
  let v ← maybe (mark "=")
  match v with
  | some _ =>
    let v ← attributeValue g
    finish s (.attr name) [v]
  | none => finish s (.attr name) []

/-- Text right here, if it leaves a node. -/
def textRun : Parser (List SyntaxTree) := do
  let span ← lexeme fun cs =>
    let n := Lexical.textLength cs
    if n == 0 then none else some n
  return if Lexical.isInkedText false span.text.toList then [.node .text span []] else []

/-- A child of an element right here. -/
def child (g : Grammar) : Parser (List SyntaxTree) :=
  textRun <|> (do return [.node .text (← lexeme Lexical.referenceLength?) []]) <|> (do
    require ((← get).rest.head? == some '{')
    return [← container g]) <|> (do
    let rest := (← get).rest
    require (rest.head? == some '<' && (rest.drop 1).head? != some '/')
    return [← g.markup])

/-- An element. -/
def element (g : Grammar) : Parser SyntaxTree := do
  let s ← start
  exact "<"
  require !(← sees "/")
  let name ← maybe tagName
  let _ ← if name.isSome then maybe (typeArgs g) else pure none
  let attributes ← if name.isSome then many (attr g <|> container g) else pure []
  let opening : SyntaxTree := .node .tag (s.span (← get)) attributes
  if name.isSome && (← sees "/") then
    mark "/>"
    finish s (.element name none) [opening]
  else
    mark ">"
    let children ← many (child g)
    let close ← get
    exact "</"
    let closing ← maybe tagName
    mark ">"
    finish s (.element name (some (closing.getD "", close.place)))
      (opening :: children.flatten)

end WidgetBridge.ComponentGrammar.Production
