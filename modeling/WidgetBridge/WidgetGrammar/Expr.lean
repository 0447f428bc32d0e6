import WidgetBridge.PropValue
import WidgetBridge.WidgetGrammar.TokenTree

/-!
# Expressions of widget source

The shapes of expressions that matter: constructor calls, text and number literals, lists, maps
and closures. Everything else is `Expr.other` and is carried as source text. Every expression
keeps the range of the source that it stands for.
-/

namespace WidgetBridge.WidgetGrammar

open WidgetBridge.Text WidgetBridge.Number

/-- An expression. -/
inductive Expr where
  /-- A call: the dotted name, the type arguments as source, the arguments with their names, and
  the comments after the opening bracket. -/
  | call (range : Range) (callee typeArgs : String) (args : List (Option String × Expr))
    (comments : List String)
  /-- A text literal, or several next to each other. -/
  | string (range : Range) (parts : List Part)
  /-- A number, a truth value or null. -/
  | literal (range : Range) (value : Value)
  | list (range : Range) (items : List Expr)
  | map (range : Range) (entries : List (Expr × Expr))
  /-- A closure with an expression or a block for its body. -/
  | closure (range : Range) (params : List String) (body : Option Expr) (block : Option Range)
  | other (range : Range)
  deriving Inhabited

namespace Expr

/-- The range of an expression. -/
def range : Expr → Range
  | .call r _ _ _ _ => r
  | .string r _ => r
  | .literal r _ => r
  | .list r _ => r
  | .map r _ => r
  | .closure r _ _ _ => r
  | .other r => r

/-- The expression with another range. -/
def withRange (r : Range) : Expr → Expr
  | .call _ c t as cs => .call r c t as cs
  | .string _ ps => .string r ps
  | .literal _ v => .literal r v
  | .list _ es => .list r es
  | .map _ es => .map r es
  | .closure _ ps b k => .closure r ps b k
  | .other _ => .other r

/-- The source of an expression. -/
def text (e : Expr) : String := e.range.text

/-- The named argument of a call. -/
def named? (args : List (Option String × Expr)) (name : String) : Option Expr :=
  (args.find? fun a => a.1 == some name).map (·.2)

/-- The arguments of a call without names. -/
def positional (args : List (Option String × Expr)) : List Expr :=
  (args.filter fun a => a.1.isNone).map (·.2)

end Expr

/-! ## Text parts -/

/-- Joins plain texts that stand next to each other. -/
def mergeParts : List Part → List Part
  | [] => []
  | .text a :: ps =>
    match mergeParts ps with
    | .text b :: rest => .text (a ++ b) :: rest
    | merged => .text a :: merged
  | .hole s :: ps => .hole s :: mergeParts ps

/-- Whether a literal holds an interpolated expression. -/
def hasHole (parts : List Part) : Bool := parts.any fun p =>
  match p with
  | .hole _ => true
  | .text _ => false

/-- The plain text of a literal. -/
def plainText (parts : List Part) : String :=
  parts.foldl (fun acc p => match p with
    | .text s => acc ++ s
    | .hole _ => acc) ""

/-! ## Reading -/

/-- Whether a numeral is marked as hexadecimal. -/
def hasHexMark : List Char → Bool
  | '0' :: x :: _ => x == 'x' || x == 'X'
  | _ => false

/-- The number that a numeral writes. -/
def numeralValue (s : String) : Attempt Value :=
  if hasHexMark s.toList then
    match readHex? s with
    | some i => .ok (.int i)
    | none => .error .badText
  else if s.toList.all isDecimal then
    match readInt? s with
    | some i => .ok (.int i)
    | none => .error .badText
  else
    match readFloat? s with
    | some x => .ok (.float x)
    | none => .error .badText

/-- The opposite of a number. -/
def negated : Value → Value
  | .int i => .int (-i)
  | .float x => .float (-x)
  | v => v

/-- The forest inside and after type arguments; `inside` grows with its last tree first. -/
def typeArgsFrom (depth : Nat) (inside : List TokenTree) :
    List TokenTree → Option (List TokenTree × List TokenTree)
  | [] => none
  | .group o inner c :: ts => typeArgsFrom depth (.group o inner c :: inside) ts
  | .leaf t :: ts =>
    if t.text == "<" then typeArgsFrom (depth + 1) (.leaf t :: inside) ts
    else if t.text == ">" then
      if depth ≤ 1 then some (inside.reverse, ts)
      else typeArgsFrom (depth - 1) (.leaf t :: inside) ts
    else if t.text == ";" || t.text == "=>" then none
    else typeArgsFrom depth (.leaf t :: inside) ts

/-- Splits off type arguments at the start of a forest: their inside, and what follows. -/
def typeArgs? : List TokenTree → Option (List TokenTree × List TokenTree)
  | .leaf t :: ts => if t.text == "<" then typeArgsFrom 1 [] ts else none
  | _ => none

/-- Whether a forest starts with type arguments or what looks like them. -/
def startsAngle : List TokenTree → Bool
  | .leaf t :: _ => t.text == "<"
  | _ => false

/-- The names of parameters: the last name of each part. -/
def paramNames (params : Range) : List String :=
  (params.splitTop ",").filterMap fun part =>
    ((part.tokens.filter fun t => t.isIdent && t.text != "required" && t.text != "final").map
      Token.text).getLast?

/-- The parts of a dotted name at the start of a forest, and what follows. -/
def dottedName : List TokenTree → List String × List TokenTree
  | .leaf dot :: .leaf n :: ts =>
    if dot.isPunct "." && n.isIdent then
      let (names, rest) := dottedName ts
      (n.text :: names, rest)
    else ([], .leaf dot :: .leaf n :: ts)
  | ts => ([], ts)

/-- The head of a call that takes up a whole forest: the name, the type arguments, and the
bracketed arguments. -/
def callHead? : List TokenTree → Option (String × String × Token × List TokenTree × Token)
  | .leaf n :: ts =>
    if n.isIdent then
      let (names, rest) := dottedName ts
      let callee := join "." (n.text :: names)
      let (typeArgs, rest) :=
        if startsAngle rest then
          match typeArgs? rest with
          | some (inside, rest) => (TokenTree.textOf inside, rest)
          | none => ("", [])
        else ("", rest)
      match rest with
      | [.group o inner c] => if o.isPunct "(" then some (callee, typeArgs, o, inner, c) else none
      | _ => none
    else none
  | _ => none

/-- The tokens of a forest of text literals. -/
def literalTokens? : List TokenTree → Option (List Token)
  | [] => some []
  | .leaf t :: ts =>
    if t.lexeme.kind == .string then (literalTokens? ts).map (t :: ·) else none
  | .group _ _ _ :: _ => none

/-- Drops leading `const` and `new`. -/
def dropConst : List TokenTree → List TokenTree
  | .leaf t :: ts => if t.isName "const" || t.isName "new" then dropConst ts else .leaf t :: ts
  | ts => ts

/-- A literal of one or two tokens. -/
def atom? : List TokenTree → Option (Attempt Value)
  | [.leaf t] =>
    if t.lexeme.kind == .number then some (numeralValue t.text)
    else if t.isName "true" then some (.ok (.bool true))
    else if t.isName "false" then some (.ok (.bool false))
    else if t.isName "null" then some (.ok .null)
    else none
  | [.leaf sign, .leaf t] =>
    if sign.text == "-" && t.lexeme.kind == .number then
      some ((numeralValue t.text).map negated)
    else none
  | _ => none

/-- The comments right after an opening bracket. -/
def leadingComments (inner : List TokenTree) (closer : Token) : List String :=
  (((inner.head?.map TokenTree.first).getD closer).comments).map fun c => c.text

/-- A shape that is bracketed as a whole. -/
inductive Shape where
  | listOf (inner : List TokenTree) (closer : Token)
  | mapOf (inner : List TokenTree) (closer : Token)
  | arrow (params : Range) (arrow : Token) (body : List TokenTree)
  | block (params : Range) (body : Range)
  | callOf (callee typeArgs : String) (inner : List TokenTree) (closer : Token)
  | other

/-- The shape of a call, if a forest is one. -/
def callShape (ts : List TokenTree) : Shape :=
  match callHead? ts with
  | some (callee, typeArgs, _, inner, c) => .callOf callee typeArgs inner c
  | none => .other

/-- The shape of a closure or a call. -/
def openShape (ts : List TokenTree) : Shape :=
  match ts with
  | .group o inner c :: .leaf a :: body =>
    if o.isPunct "(" && a.isPunct "=>" then .arrow ⟨inner, some c⟩ a body else callShape ts
  | [.group o inner c, .group bo binner bc] =>
    if o.isPunct "(" && bo.isPunct "\x7b" then .block ⟨inner, some c⟩ ⟨binner, some bc⟩
    else callShape ts
  | _ => callShape ts

/-- The shape of a collection literal, if a forest is one. -/
def collection? : List TokenTree → Option Shape
  | [.group o inner c] =>
    if o.isPunct "[" then some (.listOf inner c)
    else if o.isPunct "\x7b" then some (.mapOf inner c)
    else none
  | _ => none

/-- The shape of a forest that is no literal. Type arguments may stand before a collection. -/
def shapeOf (ts : List TokenTree) : Shape :=
  if startsAngle ts then
    match typeArgs? ts with
    | none => .other
    | some (_, rest) => (collection? rest).getD (openShape ts)
  else (collection? ts).getD (openShape ts)

/-- Splits a map entry at its colon. -/
def entryRanges? (entry : Range) : Option (Range × Range) :=
  (Range.cutTop? ":" entry.trees).map fun (key, colon, v) =>
    (⟨key, some colon.first⟩, ⟨v, entry.follow⟩)

/-- Splits an argument into its name and its value. -/
def argumentRange (arg : Range) : Option String × Range :=
  match arg.trees with
  | .leaf n :: .leaf colon :: v =>
    if n.isIdent && colon.isPunct ":" then (some n.text, ⟨v, arg.follow⟩) else (none, arg)
  | _ => (none, arg)

mutual

/-- Reads the expression that a range holds. -/
def exprOf : (fuel : Nat) → Range → Attempt Expr
  | 0, r => .ok (.other r)
  | fuel + 1, r =>
    if r.isEmpty then
      .error (.malformed "expected an expression" ((r.follow.map Token.place).getD ⟨1, 1⟩))
    else
      let bare := dropConst r.trees
      if !bare.isEmpty && bare.length < r.trees.length then do
        return (← exprOf fuel ⟨bare, r.follow⟩).withRange r
      else match literalTokens? r.trees with
        | some ts => .ok (.string r (mergeParts (ts.flatMap fun t => t.lexeme.parts)))
        | none =>
          match atom? r.trees with
          | some v => do return .literal r (← v)
          | none => shapeExpr fuel r (shapeOf r.trees)

/-- Reads an expression of a known shape. -/
def shapeExpr : (fuel : Nat) → Range → Shape → Attempt Expr
  | 0, r, _ => .ok (.other r)
  | fuel + 1, r, shape =>
    match shape with
    | .listOf inner c => do
      return .list r (← exprsOf fuel ((Range.mk inner (some c)).splitTop ","))
    | .mapOf inner c => do
      match ← entriesOf fuel ((Range.mk inner (some c)).splitTop ",") with
      | some es => return .map r es
      | none => return .other r
    | .arrow params a body => do
      let follow := match body, r.follow with
        | [], none => some a
        | _, f => f
      return .closure r (paramNames params) (some (← exprOf fuel ⟨body, follow⟩)) none
    | .block params body => .ok (.closure r (paramNames params) none (some body))
    | .callOf callee typeArgs inner c => do
      let args ← argsOf fuel ((Range.mk inner (some c)).splitTop ",")
      return .call r callee typeArgs args (leadingComments inner c)
    | .other => .ok (.other r)

/-- Reads the expressions of several ranges. -/
def exprsOf : (fuel : Nat) → List Range → Attempt (List Expr)
  | 0, _ => .ok []
  | _ + 1, [] => .ok []
  | fuel + 1, r :: rs => do
    let e ← exprOf fuel r
    return e :: (← exprsOf fuel rs)

/-- Reads map entries; a part without colon makes the whole a set, which is no map. -/
def entriesOf : (fuel : Nat) → List Range → Attempt (Option (List (Expr × Expr)))
  | 0, _ => .ok none
  | _ + 1, [] => .ok (some [])
  | fuel + 1, r :: rs => do
    match entryRanges? r with
    | none => return none
    | some (k, v) =>
      let key ← exprOf fuel k
      let value ← exprOf fuel v
      match ← entriesOf fuel rs with
      | some es => return some ((key, value) :: es)
      | none => return none

/-- Reads arguments. -/
def argsOf : (fuel : Nat) → List Range → Attempt (List (Option String × Expr))
  | 0, _ => .ok []
  | _ + 1, [] => .ok []
  | fuel + 1, r :: rs => do
    let (name, v) := argumentRange r
    let e ← exprOf fuel v
    return (name, e) :: (← argsOf fuel rs)

end

/-- Reads the expression that a range holds. Each step goes to a part with fewer tokens or to the
next of several parts. -/
def Range.expr (r : Range) : Attempt Expr := exprOf (3 * TokenTree.sizeOf' r.trees + 3) r

/-! ## Constants -/

mutual

/-- The data that an expression writes, if it is constant. -/
def constant? : Expr → Option Value
  | .literal _ v => some v
  | .string _ parts => if hasHole parts then none else some (.str (plainText parts))
  | .list _ items => (constants? items).map .list
  | .map _ entries => (constantEntries? entries).map fun es => .map (Assoc.ofPairs es)
  | _ => none

/-- The data of several expressions, if all are constant. -/
def constants? : List Expr → Option (List Value)
  | [] => some []
  | e :: es => do
    let v ← constant? e
    let vs ← constants? es
    return v :: vs

/-- The data of map entries, if all are constant and all keys are texts. -/
def constantEntries? : List (Expr × Expr) → Option (List (String × Value))
  | [] => some []
  | (k, e) :: es => do
    let key ← constant? k
    let v ← constant? e
    match key with
    | .str s =>
      let rest ← constantEntries? es
      return (s, v) :: rest
    | _ => none

end

/-- An expression as a prop value: a literal if it is constant, else its source. -/
def Expr.toProp (e : Expr) : PropValue :=
  match constant? e with
  | some v => .literal v
  | none => .expr e.text

end WidgetBridge.WidgetGrammar
