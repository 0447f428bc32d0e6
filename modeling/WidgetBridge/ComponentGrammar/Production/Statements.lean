import WidgetBridge.ComponentGrammar.Production.Expressions

/-!
# Statements

Declarations, exports and returns have shapes of their own; other statements keep their parts
only. A statement ends with its semicolon where one is written.
-/

namespace WidgetBridge.ComponentGrammar.Production

open WidgetBridge.Text WidgetBridge.ComponentGrammar.Parser

/-- A statement that starts with a word, with the parts that a reader gives. -/
def worded (words : List String) (rest : Parser (List SyntaxTree)) : Parser SyntaxTree := do
  let s ← start
  let _ ← keywords words
  let parts ← rest
  finish s .other parts

/-- An expression in round brackets, as the head of a statement. -/
def condition (g : Grammar) : Parser SyntaxTree := do
  mark "("
  let e ← expressions g
  mark ")"
  return e

/-! ## Variables -/

/-- A declarator. -/
def declarator (g : Grammar) : Parser SyntaxTree := do
  let s ← start
  let target ← g.pattern
  let _ ← maybe (mark "!")
  let _ ← maybe (typeAfterColon g)
  let v ← maybe (assigned g)
  finish s .declarator (target :: v.toList)

/-- Variables without the end of the statement. -/
def variableList (g : Grammar) : Parser (List SyntaxTree) := do
  let _ ← keywords ["const", "let", "var"]
  let first ← declarator g
  let rest ← many (do mark ","; declarator g)
  return first :: rest

/-- A declaration of variables. -/
def variableDeclaration (g : Grammar) : Parser SyntaxTree := do
  let s ← start
  let ds ← variableList g
  semicolon
  finish s .declarators ds

/-! ## Functions and types -/

/-- A declared function. Without a body it is only announced. -/
def functionDeclaration (g : Grammar) : Parser SyntaxTree := do
  let s ← start
  let yields ← functionHead
  let name ← word
  let (ps, defaults) ← signature g
  (do
    let body ← block g
    let form := if yields then FunctionForm.generator else .declared
    finish s (.function form (some name) ps) (defaults ++ [body])) <|> (do
    semicolon
    finish s .other defaults)

/-- An interface. -/
def interface (g : Grammar) : Parser (List SyntaxTree) := do
  let _ ← word
  let _ ← maybe (typeParams g)
  let _ ← maybe do
    keyword "extends"
    g.type
    many (do mark ","; g.type)
  objectType g
  return []

/-- A name for a type. -/
def typeAlias (g : Grammar) : Parser (List SyntaxTree) := do
  let _ ← word
  let _ ← maybe (typeParams g)
  mark "="
  g.type
  semicolon
  return []

/-- An enumeration. -/
def enumeration (g : Grammar) : Parser (List SyntaxTree) := do
  let _ ← word
  items "\x7b" "\x7d" do
    let s ← start
    let key ← propertyName g
    let v ← maybe (assigned g)
    finish s .other (key :: v.toList)

/-- A namespace. -/
def moduleBlock (g : Grammar) : Parser (List SyntaxTree) := do
  (do let _ ← token Lexical.stringLength?) <|> qualifiedName
  (do return [← block g]) <|> (do semicolon; return [])

/-- A declaration, which an export may stand before. -/
def declaration (g : Grammar) : Parser SyntaxTree :=
  worded ["const"] (do keyword "enum"; enumeration g) <|> variableDeclaration g <|>
    functionDeclaration g <|> classOf g true <|>
    (do
      let s ← start
      keyword "abstract"
      let c ← classOf g true
      finish s .other c.parts) <|>
    worded ["interface"] (interface g) <|> worded ["type"] (typeAlias g) <|>
    worded ["enum"] (enumeration g) <|> worded ["namespace", "module"] (moduleBlock g) <|>
    worded ["declare"] (do
      (do keyword "global"; return [← block g]) <|> (do return [← g.statement]))

/-! ## Imports and exports -/

/-- Names in braces, which may be renamed. -/
def nameList : Parser Unit := do
  let name : Parser Unit := (do let _ ← word) <|> (do let _ ← token Lexical.stringLength?)
  let _ ← items "\x7b" "\x7d" do
    let s ← start
    (do
      keyword "type"
      name
      let _ ← maybe (do keyword "as"; name)) <|> (do
      name
      let _ ← maybe (do keyword "as"; name))
    finish s .other []

/-- The module of an import or export. -/
def fromClause (g : Grammar) : Parser Unit := do
  keyword "from"
  let _ ← token Lexical.stringLength?
  let _ ← maybe do
    let _ ← keywords ["with", "assert"]
    items "\x7b" "\x7d" (objectMember g)

/-- An import. -/
def importStatement (g : Grammar) : Parser SyntaxTree := worded ["import"] do
  let star : Parser Unit := do mark "*"; keyword "as"; let _ ← word
  let clause : Parser Unit := star <|> nameList <|> (do
    let _ ← word
    let _ ← maybe (do mark ","; star <|> nameList))
  let named : Parser Unit := do clause; fromClause g
  let required : Parser Unit := do
    let _ ← word
    mark "="
    let _ ← g.expression
  named <|> (do let _ ← keywords ["type", "typeof"]; named <|> required) <|> required <|>
    (do let _ ← token Lexical.stringLength?)
  semicolon
  return []

/-- An export. -/
def exportStatement (g : Grammar) : Parser SyntaxTree := do
  let s ← start
  let _ ← many (decorator g)
  keyword "export"
  let plain (p : Parser Unit) : Parser SyntaxTree := do
    p
    semicolon
    finish s (.exported false false) []
  let byDefault : Parser SyntaxTree := do
    keyword "default"
    (do
      let d ← functionDeclaration g <|> (do
        let c ← classOf g true
        match c with
        | .node (.classDef _ (some _) _) _ _ => return c
        | _ => failure) <|> worded ["interface"] (interface g)
      finish s (.exported true true) [d]) <|> (do
      let e ← g.expression
      semicolon
      finish s (.exported true false) [e])
  byDefault <|> plain (do
    mark "*"
    let _ ← maybe (do keyword "as"; word)
    fromClause g) <|> plain (do
    let _ ← maybe (keyword "type")
    nameList
    let _ ← maybe (fromClause g)) <|> plain (do
    mark "="
    let _ ← g.expression) <|> plain (do
    keyword "as"
    keyword "namespace"
    let _ ← word) <|> (do
    let d ← declaration g <|> importStatement g
    finish s (.exported false true) [d])

/-! ## Control -/

/-- The head of a loop over members, or of one with a counter. -/
def loopHead (g : Grammar) : Parser (List SyntaxTree) := do
  mark "("
  (do
    let target ← (do
      let _ ← keywords ["const", "let", "var"]
      g.pattern) <|> operand g
    let _ ← keywords ["in", "of"]
    let e ← expressions g
    mark ")"
    return [target, e]) <|> (do
    let first ← maybe (variableList g <|> (do return [← expressions g]))
    mark ";"
    let check ← maybe (expressions g)
    mark ";"
    let next ← maybe (expressions g)
    mark ")"
    return first.getD [] ++ check.toList ++ next.toList)

/-- The cases of a choice. -/
def cases (g : Grammar) : Parser (List SyntaxTree) := do
  mark "\x7b"
  let cs ← many do
    let head ← (do keyword "case"; return [← expressions g]) <|> (do keyword "default"; return [])
    mark ":"
    return head ++ (← many g.statement)
  mark "\x7d"
  return cs.flatten

/-- The handlers after a guarded block. -/
def handlers (g : Grammar) : Parser (List SyntaxTree) := do
  let body ← (do trivia; block g)
  let caught ← maybe do
    keyword "catch"
    let _ ← maybe do
      mark "("
      let _ ← g.pattern
      let _ ← maybe (typeAfterColon g)
      mark ")"
    trivia
    block g
  let final ← maybe do
    keyword "finally"
    trivia
    block g
  return body :: caught.toList ++ final.toList

/-- A return, with the comments before what it returns. -/
def returnStatement (g : Grammar) : Parser SyntaxTree := do
  let s ← start
  keyword "return"
  (do
    semicolon
    finish s .returned []) <|> (do
    let before ← comments
    let e ← expressions g
    semicolon
    finish s .returned (before ++ [e]))

/-- A statement that a keyword starts. -/
def controlStatement (g : Grammar) : Parser SyntaxTree :=
  worded ["if"] (do
    let c ← condition g
    let yes ← g.statement
    let no ← maybe (do keyword "else"; g.statement)
    return c :: yes :: no.toList) <|>
  worded ["for"] (do
    let _ ← maybe (keyword "await")
    let head ← loopHead g
    return head ++ [← g.statement]) <|>
  worded ["while", "with"] (do return [← condition g, ← g.statement]) <|>
  worded ["do"] (do
    let body ← g.statement
    keyword "while"
    let c ← condition g
    let _ ← maybe semicolon
    return [body, c]) <|>
  worded ["switch"] (do
    let c ← condition g
    return c :: (← cases g)) <|>
  worded ["try"] (handlers g) <|>
  worded ["throw"] (do
    let e ← expressions g
    semicolon
    return [e]) <|>
  worded ["break", "continue"] (do
    semicolon <|> (do let _ ← word; semicolon)
    return []) <|>
  worded ["debugger"] (do semicolon; return []) <|> returnStatement g

/-- The words that start statements only. -/
def statementWords : List String :=
  ["if", "for", "while", "with", "do", "switch", "try", "throw", "break", "continue", "debugger",
    "return", "export", "const", "var"]

/-- A statement after a label. -/
def labelled (g : Grammar) : Parser SyntaxTree := do
  let s ← start
  let _ ← word
  mark ":"
  let inner ← g.statement
  finish s .other [inner]

/-- An expression as a statement. -/
def expressionStatement (g : Grammar) : Parser SyntaxTree := do
  let s ← start
  require !(statementWords.contains (← nextWord))
  let e ← (do
    let first ← expression g
    match ← many (do mark ","; g.expression) with
    | [] => return first
    | rest => finish s .other (first :: rest))
  semicolon
  finish s .expression [e]

/-- A statement. -/
def statement (g : Grammar) : Parser SyntaxTree := do
  if ← sees "\x7b" then do trivia; block g
  else if ← sees ";" then do
    let s ← start
    mark ";"
    finish s .other []
  else
    exportStatement g <|> importStatement g <|> controlStatement g <|> declaration g <|>
      labelled g <|> expressionStatement g

end WidgetBridge.ComponentGrammar.Production
