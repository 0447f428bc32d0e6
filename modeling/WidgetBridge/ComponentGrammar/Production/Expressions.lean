import WidgetBridge.ComponentGrammar.Production.Markup

/-!
# Expressions

Operators are read without their ranks, because no reader of components looks into their operands:
a run of operands with operators between them is one node.
-/

namespace WidgetBridge.ComponentGrammar.Production

open WidgetBridge.Text WidgetBridge.ComponentGrammar.Parser

/-! ## Blocks and functions -/

/-- A block of statements with its comments. -/
def block (g : Grammar) : Parser SyntaxTree := do
  let s ← start
  exact "\x7b"
  let statements ← many do
    let cs ← comments
    return cs ++ [← g.statement]
  let last ← comments
  exact "\x7d"
  finish s .block (statements.flatten ++ last)

/-- The body of an arrow function. -/
def arrowBody (g : Grammar) : Parser SyntaxTree := do
  if ← sees "\x7b" then block g <|> g.expression else g.expression

/-- An arrow function. -/
def arrow (g : Grammar) : Parser SyntaxTree := do
  let s ← start
  let _ ← maybe (do
    keyword "async"
    require !(← sees "=>"))
  let (ps, defaults) ← (do
    require ((← sees "(") || (← sees "<"))
    signature g) <|> (do
    let name ← word
    return (⟨name, true, [name]⟩, []))
  mark "=>"
  let body ← arrowBody g
  finish s (.function .arrow none ps) (defaults ++ [body])

/-- The word before a function, and whether the function yields several values. -/
def functionHead : Parser Bool := do
  let _ ← maybe (keyword "async")
  keyword "function"
  return (← maybe (mark "*")).isSome

/-- A function as an expression. -/
def functionExpression (g : Grammar) : Parser SyntaxTree := do
  let s ← start
  let yields ← functionHead
  let name ← maybe word
  let (ps, defaults) ← signature g
  let body ← block g
  finish s (if yields then .other else .function .expression name ps) (defaults ++ [body])

/-! ## Objects and classes -/

/-- The words that may stand before a member. -/
def memberModifiers : List String :=
  ["static", "async", "get", "set", "readonly", "abstract", "public", "private", "protected",
    "override", "declare", "accessor"]

/-- A word before a member, which something has to follow that can be a member. -/
def memberModifier : Parser Unit := do
  let _ ← keywords memberModifiers
  let next ← peek
  require !((next.head?.map fun c => "(=;:?!,<".toList.contains c || c == '}').getD true)

/-- A method. The body may be missing. -/
def method (g : Grammar) : Parser SyntaxTree := do
  let s ← start
  let _ ← many memberModifier
  let _ ← maybe (mark "*")
  let key ← propertyName g
  let _ ← maybe (mark "?")
  let (ps, defaults) ← signature g
  let body ← maybe (block g)
  finish s (.method key.text ps body.isSome) (key :: defaults ++ body.toList)

/-- A method with a body. -/
def fullMethod (g : Grammar) : Parser SyntaxTree := do
  let m ← method g
  match m with
  | .node (.method _ _ true) _ _ => return m
  | _ => failure

/-- A member of an object. -/
def objectMember (g : Grammar) : Parser SyntaxTree :=
  spread g <|> (do
    let s ← start
    let key ← propertyName g
    mark ":"
    let v ← g.expression
    finish s .pair [key, v]) <|> fullMethod g <|> (do
    let s ← start
    let _ ← word
    finish s .other [])

/-- A decorator. -/
def decorator (g : Grammar) : Parser SyntaxTree := do
  let s ← start
  exact "@"
  qualifiedName
  let args ← maybe (items "(" ")" (spread g <|> g.expression))
  finish s .other (args.getD [])

/-- A field of a class, with the decorators before it. -/
def field (g : Grammar) : Parser SyntaxTree := do
  let s ← start
  let _ ← many (decorator g)
  let _ ← many memberModifier
  let key ← propertyName g
  let _ ← maybe (mark "?" <|> mark "!")
  let _ ← maybe (typeAfterColon g)
  let v ← maybe (assigned g)
  finish s (.field key.text) v.toList

/-- An index among the members of a class. -/
def classIndex (g : Grammar) : Parser SyntaxTree := do
  let s ← start
  let _ ← many memberModifier
  mark "["
  let _ ← word
  typeAfterColon g
  mark "]"
  typeAfterColon g
  finish s .other []

/-- A member of a class with the mark after it. -/
def classMember (g : Grammar) : Parser (List SyntaxTree) :=
  (do
    let b ← (do
      let s ← start
      keyword "static"
      let b ← block g
      finish s .other [b])
    return [b]) <|> (do
    let m ← fullMethod g
    let _ ← maybe (mark ";")
    return [m]) <|> (do
    let m ← method g
    semicolon <|> mark ","
    return [m]) <|> (do
    let f ← field g
    semicolon <|> mark ","
    return [f]) <|> (do
    let i ← classIndex g
    semicolon <|> mark ","
    return [i]) <|> (do return [← decorator g]) <|> (do mark ";"; return [])

/-- The members of a class with their comments. -/
def classBody (g : Grammar) : Parser (List SyntaxTree) := do
  mark "\x7b"
  let members ← many do
    let cs ← comments
    return cs ++ (← classMember g)
  let last ← comments
  exact "\x7d"
  return members.flatten ++ last

/-! ## Primary expressions -/

/-- The class that another one extends: a name with dots, perhaps called. -/
def baseClass (g : Grammar) : Parser (List SyntaxTree) := do
  keyword "extends"
  qualifiedName
  let args ← maybe (items "(" ")" (spread g <|> g.expression))
  let _ ← maybe (typeArgs g)
  return args.getD []

/-- A class, declared or as an expression. -/
def classOf (g : Grammar) (declared : Bool) : Parser SyntaxTree := do
  let s ← start
  let _ ← many (decorator g)
  keyword "class"
  let name ← maybe (do
    let w ← word
    require (w != "extends" && w != "implements")
    return w)
  let _ ← maybe (typeParams g)
  let h ← start
  let heritage ← maybe do
    let base ← maybe (baseClass g)
    let _ ← maybe do
      keyword "implements"
      g.type
      let _ ← many (do mark ","; g.type)
    let written ← textFrom h
    require !written.isEmpty
    return (written, base.getD [])
  let members ← classBody g
  finish s (.classDef declared name (heritage.map (·.1)))
    ((heritage.map (·.2)).getD [] ++ members)

/-- The words that start no plain name. -/
def expressionWords : List String :=
  ["function", "class", "new", "true", "false", "null", "typeof", "void", "delete", "await",
    "import"]

/-- A word as an expression. -/
def wordExpression : Parser SyntaxTree := do
  let s ← start
  let w ← word
  match w with
  | "true" => finish s (.constant (.bool true)) []
  | "false" => finish s (.constant (.bool false)) []
  | "null" => finish s (.constant .null) []
  | w =>
    require !(expressionWords.contains w)
    finish s .name []

/-- The arguments of a call. -/
def arguments (g : Grammar) : Parser (List SyntaxTree) := items "(" ")" (spread g <|> g.expression)

/-- An expression in round brackets. -/
def paren (g : Grammar) : Parser SyntaxTree := do
  let s ← start
  exact "("
  let before ← comments
  let e ← expressions g
  let _ ← maybe (typeAfterColon g)
  let after ← comments
  exact ")"
  finish s .paren (before ++ [e] ++ after)

/-- An expression without operators around it. -/
def primary (g : Grammar) : Parser SyntaxTree := do
  let next ← peek
  match next with
  | '"' :: _ | '\'' :: _ => leaf .string Lexical.stringLength?
  | '\x60' :: _ => template (expressions g)
  | '(' :: _ => paren g
  | '[' :: _ => do
    let s ← start
    let parts ← items "[" "]" (spread g <|> g.expression)
    finish s .list parts
  | '{' :: _ => do
    let s ← start
    let parts ← items "\x7b" "\x7d" (objectMember g)
    finish s .object parts
  | '<' :: _ => element g
  | '/' :: _ => leaf .other Lexical.regexLength?
  | '@' :: _ => classOf g false
  | '.' :: _ => leaf .number Lexical.numberLength?
  | c :: _ =>
    if isDigit c then leaf .number Lexical.numberLength?
    else
      functionExpression g <|> wordExpression <|> classOf g false <|> (do
        let s ← start
        keyword "import"
        finish s .other [])
  | [] => failure

/-! ## Calls and members -/

/-- What may follow an expression with type arguments that is not called. -/
def endsOperand : List Char → Bool
  | c :: _ => ")],;:.?".toList.contains c || c == '}'
  | [] => true

/-- One step after an operand: a member, an index, a call, a text in backticks, or a mark that there
is a value. `created` tells that calls belong to what stands before the operand. -/
def suffix (g : Grammar) (s : Cursor) (created : Bool) (e : SyntaxTree) : Parser SyntaxTree := do
  let next ← peek
  let memberName : Parser Unit := do
    trivia
    let _ ← maybe (exact "#")
    let _ ← lexeme Lexical.nameLength?
  let index : Parser SyntaxTree := do
    mark "["
    let i ← expressions g
    mark "]"
    finish s .member [e, i]
  let call (typeArgs : Option String) : Parser SyntaxTree := do
    let args ← arguments g
    finish s (.call typeArgs) (e :: args)
  let quoted : Parser SyntaxTree := do
    let t ← template (expressions g)
    finish s (.call none) [e, t]
  match next with
  | '?' :: '.' :: c :: _ =>
    require (!isDigit c)
    mark "?."
    index <|> call none <|> quoted <|> (do memberName; finish s .member [e])
  | '.' :: '.' :: _ => failure
  | '.' :: _ => do
    mark "."
    memberName
    finish s .member [e]
  | '[' :: _ => index
  | '(' :: _ => if created then failure else call none
  | '\x60' :: _ => do
    trivia
    quoted
  | '!' :: c :: _ =>
    require (c != '=' && !(← breakAhead))
    mark "!"
    finish s .member [e]
  | '<' :: _ =>
    if created then failure
    else do
      let before ← start
      typeArgs g
      let written ← textFrom before
      if ← sees "(" then call (some written)
      else
        require (endsOperand (← peek))
        finish s .other [e]
  | _ => failure

/-- Steps after an operand, as many as there are. -/
def suffixes (g : Grammar) (s : Cursor) (created : Bool) : Nat → SyntaxTree → Parser SyntaxTree
  | 0, e => pure e
  | n + 1, e => do
    match ← maybe (suffix g s created e) with
    | some e' => suffixes g s created n e'
    | none => pure e

/-- A new value of a class, or what a constructor was called by. -/
def creation (g : Grammar) : Parser SyntaxTree := do
  let s ← start
  keyword "new"
  (do
    mark "."
    keyword "target"
    finish s .other []) <|> (do
    let c ← start
    let base ← primary g
    let base ← suffixes g c true c.left base
    let _ ← maybe (typeArgs g)
    let args ← maybe (arguments g)
    finish s .other (base :: args.getD []))

/-- An operand: a primary expression with what follows it. -/
def operand (g : Grammar) : Parser SyntaxTree := do
  let s ← start
  let base ← if ← seesWord "new" then creation g else primary g
  let e ← suffixes g s false s.left base
  let stepped ← maybe do
    require !(← breakAhead)
    mark "++" <|> mark "--"
  if stepped.isSome then finish s .other [e] else return e

/-! ## Operators -/

/-- The marks of operators before an operand. -/
def prefixMarks : List String := ["++", "--", "!", "~", "-", "+"]

/-- The words of operators before an operand. -/
def prefixWords : List String := ["typeof", "void", "delete", "await", "yield"]

/-- An operator before an operand: where it starts, and whether it is a minus. -/
def operatorBefore : Parser (Cursor × Bool) := do
  let s ← start
  (do
    exact "-"
    require !(← ahead (exact "-"))
    return (s, true)) <|> (do
    let _ ← prefixMarks.foldr (fun m p => (do exact m) <|> p) failure
    return (s, false)) <|> (do
    let w ← keywords prefixWords
    if w == "yield" then
      let _ ← maybe (mark "*")
      let next ← peek
      require !((next.head?.map fun c => ",;)]=.".toList.contains c || c == '}').getD true)
    return (s, false))

/-- An operand with the operators before it. -/
def unary (g : Grammar) : Parser SyntaxTree := do
  let operators ← many operatorBefore
  let e ← operand g
  let stop ← get
  return operators.foldr (fun (s, minus) e =>
    .node (if minus then .negative else .other) (s.span stop) [e]) e

/-- The marks of operators between operands, longer ones first. -/
def infixMarks : List String :=
  ["===", "!==", ">>>", "==", "!=", "<=", ">=", "**", "??", "||", "&&", "<<", ">>", "|", "^", "&",
    "<", ">", "+", "-", "*", "/", "%"]

/-- The marks of assignments. -/
def assignmentMarks : List String :=
  ["=", "+=", "-=", "*=", "/=", "%=", "^=", "&=", "|=", ">>=", ">>>=", "<<=", "**=", "&&=", "||=",
    "??="]

/-- Whether an assignment comes next, and with which mark. -/
def assignmentAhead : List Char → Option String
  | cs =>
    (assignmentMarks.filter fun m =>
      match dropHead? m.toList cs with
      | some ('=' :: _) => false
      | some ('>' :: _) => m != "="
      | some _ => true
      | none => false).head?

/-- An operator between operands. -/
def operatorBetween : Parser Unit := do
  let next ← peek
  require (assignmentAhead next).isNone
  match next with
  | '+' :: '+' :: _ | '-' :: '-' :: _ | '=' :: '>' :: _ => failure
  | _ =>
    (do
      trivia
      infixMarks.foldr (fun m p => (do exact m) <|> p) failure) <|>
    (do let _ ← keywords ["in", "instanceof"])

/-- A type after an expression. -/
def typed (g : Grammar) : Parser Unit := do
  let _ ← keywords ["as", "satisfies"]
  g.type

/-- Operands with operators between them. -/
def operation (g : Grammar) : Parser SyntaxTree := do
  let s ← start
  let first ← unary g
  let rest ← many ((do typed g; return none) <|> (do
    operatorBetween
    return some (← unary g)))
  if rest.isEmpty then return first
  finish s .other (first :: rest.filterMap id)

/-- An operation that may choose between two others. -/
def conditional (g : Grammar) : Parser SyntaxTree := do
  let s ← start
  let e ← operation g
  let chosen ← maybe do
    mark "?"
    let yes ← g.expression
    mark ":"
    let no ← g.expression
    return [yes, no]
  match chosen with
  | some es => finish s .other (e :: es)
  | none => return e

/-- Whether an expression can be assigned to. -/
def isAssignable : SyntaxTree → Bool
  | .node .name _ _ | .node .member _ _ | .node .list _ _ | .node .object _ _
  | .node .paren _ _ => true
  | _ => false

/-- An expression. -/
def expression (g : Grammar) : Parser SyntaxTree :=
  arrow g <|> do
    let s ← start
    let e ← conditional g
    match assignmentAhead (← peek) with
    | some m =>
      require (isAssignable e)
      mark m
      let v ← g.expression
      finish s (if m == "=" then .assign else .other) [e, v]
    | none => return e

end WidgetBridge.ComponentGrammar.Production
