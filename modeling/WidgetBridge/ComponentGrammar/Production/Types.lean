import WidgetBridge.ComponentGrammar.Parser

/-!
# Types and binding patterns

Types leave nothing in the tree, so their readers only pass over them. Patterns bind names: in
declarations, in parameters and in the heads of loops.
-/

namespace WidgetBridge.ComponentGrammar.Production

open WidgetBridge.Text WidgetBridge.ComponentGrammar.Parser

/-! ## Patterns and parameters -/

/-- A key of an object, a class or a type. -/
def propertyName (g : Grammar) : Parser SyntaxTree :=
  leaf .string Lexical.stringLength? <|> leaf .number Lexical.numberLength? <|>
    leaf .name Lexical.nameLength? <|> (do
      let s ← start
      exact "#"
      let _ ← lexeme Lexical.nameLength?
      finish s .other []) <|> (do
      let s ← start
      mark "["
      let e ← g.expression
      mark "]"
      finish s .other [e])

/-- The value after an equals sign. -/
def assigned (g : Grammar) : Parser SyntaxTree := do
  mark "="
  require (!(← sees "=") && !(← sees ">"))
  g.expression

/-- A pattern with its default value. -/
def defaulted (g : Grammar) (p : Parser SyntaxTree) : Parser SyntaxTree := do
  let s ← start
  let target ← p
  match ← maybe (assigned g) with
  | some v => finish s .other [target, v]
  | none => return target

/-- A pattern for what is left over. -/
def restPattern (g : Grammar) : Parser SyntaxTree := do
  let s ← start
  mark "..."
  let p ← g.pattern
  finish s .other [p]

/-- A pattern for a list. -/
def listPattern (g : Grammar) : Parser SyntaxTree := do
  let s ← start
  let parts ← items "[" "]" (restPattern g <|> defaulted g g.pattern)
  let names := parts.filterMap fun p =>
    match p with
    | .node .name span _ => some span.text
    | _ => none
  finish s (.names names) parts

/-- A member of a pattern for an object. -/
def memberPattern (g : Grammar) : Parser SyntaxTree :=
  restPattern g <|> (do
    let s ← start
    let key ← propertyName g
    mark ":"
    let p ← defaulted g g.pattern
    finish s .other [key, p]) <|>
  defaulted g (leaf .name Lexical.nameLength?)

/-- A pattern for an object. -/
def objectPattern (g : Grammar) : Parser SyntaxTree := do
  let s ← start
  let parts ← items "\x7b" "\x7d" (memberPattern g)
  finish s .other parts

/-- A pattern. -/
def pattern (g : Grammar) : Parser SyntaxTree :=
  leaf .name Lexical.nameLength? <|> listPattern g <|> objectPattern g

/-- The words that may stand before a parameter. -/
def paramModifiers : List String := ["public", "private", "protected", "override", "readonly"]

/-- A type after a colon. -/
def typeAfterColon (g : Grammar) : Parser Unit := do mark ":"; g.type

/-- A parameter. The name of a node that is no pattern is the whole parameter. -/
def param (g : Grammar) : Parser SyntaxTree := do
  let s ← start
  let target ← (do
    let _ ← many (keywords paramModifiers)
    restPattern g <|> g.pattern) <|> restPattern g <|> g.pattern
  let isOptional := (← maybe (mark "?")).isSome
  let _ ← maybe (typeAfterColon g)
  let parts := target :: (← maybe (assigned g)).toList
  let bound ← if isOptional then textFrom s else pure target.text
  finish s (.field bound) parts

/-- Parameters in round brackets, with the nodes of their default values. -/
def params (g : Grammar) : Parser (Params × List SyntaxTree) := do
  let s ← start
  let parts ← items "(" ")" (param g)
  let names := parts.filterMap fun p =>
    match p with
    | .node (.field bound) _ _ => some bound
    | _ => none
  return (⟨← textFrom s, false, names⟩, parts)

/-- Type parameters. -/
def typeParams (g : Grammar) : Parser Unit := do
  mark "<"
  let one : Parser Unit := do
    let _ ← many (keywords ["const", "in", "out"] <* (do require !(← nextWord).isEmpty))
    let _ ← word
    let _ ← maybe (do keyword "extends"; g.type)
    let _ ← maybe (do mark "="; g.type)
  one
  let _ ← many (do mark ","; one)
  let _ ← maybe (mark ",")
  mark ">"

/-- Type parameters, parameters and a result type. -/
def signature (g : Grammar) : Parser (Params × List SyntaxTree) := do
  let _ ← maybe (typeParams g)
  let ps ← params g
  let _ ← maybe (typeAfterColon g)
  return ps

/-! ## Types -/

/-- Type arguments. -/
def typeArgs (g : Grammar) : Parser Unit := do
  mark "<"
  let _ ← maybe do
    g.type
    let _ ← many (do mark ","; g.type)
  mark ">"

/-- One step through a text in backticks: an escape, or a character that neither ends the text nor
starts a hole. -/
def templateChar : List Char → Option Nat
  | '\\' :: cs => (Lexical.escapeLength? cs).map (· + 1)
  | '\x60' :: _ => none
  | '$' :: '{' :: _ => none
  | _ :: _ => some 1
  | [] => none

/-- A text in backticks, with a reader for what stands in its holes. -/
def template (hole : Parser SyntaxTree) : Parser SyntaxTree := do
  let s ← start
  exact "`"
  let parts ← many ((do
    exact "$\x7b"
    let e ← hole
    mark "\x7d"
    return [e]) <|> (do
    let _ ← lexeme templateChar
    return []))
  exact "`"
  finish s .template parts.flatten

/-- Whether a key or a type goes on with square brackets on the same line. -/
def seesIndex : Parser Bool := do return (← sees "[") && !(← breakAhead)

/-- A name with dots. -/
def qualifiedName : Parser Unit := do
  let _ ← word
  let _ ← many (do mark "."; word)

/-- A function type. -/
def functionType (g : Grammar) : Parser Unit := do
  let _ ← maybe (typeParams g)
  let _ ← params g
  mark "=>"
  g.type

/-- A member of an object type: a call, an index, a mapped key, a method or a property. -/
def typeMember (g : Grammar) : Parser Unit := do
  let call : Parser Unit := do let _ ← signature g
  let index : Parser Unit := do
    mark "["
    let _ ← word
    typeAfterColon g
    mark "]"
    let _ ← maybe (typeAfterColon g)
  let mapped : Parser Unit := do
    mark "["
    let _ ← word
    keyword "in"
    g.type
    let _ ← maybe (do keyword "as"; g.type)
    mark "]"
    let _ ← maybe (mark "+" <|> mark "-")
    let _ ← maybe (mark "?")
    let _ ← maybe (typeAfterColon g)
  let modifiers : Parser Unit := do
    let _ ← maybe (mark "+" <|> mark "-")
    let _ ← keywords ["readonly", "get", "set", "static", "new"]
    let next ← peek
    require (!(next.head?.map fun c => ":?(,;<".toList.contains c || c == '}').getD true)
  let named : Parser Unit := do
    let _ ← propertyName g
    let _ ← maybe (mark "?")
    call <|> (do let _ ← maybe (typeAfterColon g))
  let _ ← many modifiers
  call <|> (do keyword "new"; call) <|> mapped <|> index <|> named

/-- An object type. -/
def objectType (g : Grammar) : Parser Unit := do
  mark "\x7b"
  let _ ← many do
    typeMember g
    mark ";" <|> mark "," <|> semicolon
  mark "\x7d"

/-- A member of a tuple type. -/
def tupleMember (g : Grammar) : Parser SyntaxTree := do
  let s ← start
  let _ ← maybe (mark "...")
  let _ ← maybe do
    let _ ← word
    let _ ← maybe (mark "?")
    mark ":"
  g.type
  let _ ← maybe (mark "?")
  finish s .other []

/-- A type without operators between types. -/
def plainType (g : Grammar) : Parser Unit :=
  functionType g <|> (do mark "("; g.type; mark ")") <|>
    (do let _ ← items "[" "]" (tupleMember g)) <|> objectType g <|>
    (do let _ ← token Lexical.stringLength?) <|>
    (do
      let _ ← maybe (mark "-")
      let _ ← token Lexical.numberLength?) <|>
    mark "*" <|> (do mark "?"; g.type) <|>
    (do
      let _ ← template (do
        let s ← start
        g.type
        finish s .other [])) <|>
    (do
      keyword "typeof"
      (do keyword "import"; mark "("; g.type; mark ")") <|> qualifiedName
      let _ ← maybe (typeArgs g)) <|>
    (do
      let _ ← maybe (keyword "abstract")
      keyword "new"
      functionType g) <|>
    (do
      let _ ← keywords ["keyof", "readonly", "unique", "infer", "asserts"]
      require !(← sees "=")
      g.type) <|>
    (do keyword "import"; mark "("; g.type; mark ")"; let _ ← many (do mark "."; word)) <|>
    (do
      qualifiedName
      (do keyword "is"; g.type) <|> (do let _ ← maybe (typeArgs g)))

/-- A type with the brackets after it. -/
def suffixedType (g : Grammar) : Parser Unit := do
  plainType g
  let _ ← many do
    require (← seesIndex)
    mark "["
    let _ ← maybe g.type
    mark "]"

/-- A type. -/
def type (g : Grammar) : Parser Unit := do
  let _ ← maybe (mark "|" <|> mark "&")
  suffixedType g
  let _ ← many do
    mark "|" <|> mark "&"
    suffixedType g
  let _ ← maybe do
    keyword "extends"
    g.type
    mark "?"
    g.type
    mark ":"
    g.type

end WidgetBridge.ComponentGrammar.Production
