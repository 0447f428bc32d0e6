import WidgetBridge.WidgetGrammar.Expr

/-!
# Declarations and statements of widget source

A unit or a class body is a run of members, a block a run of statements. `members` and
`statements` cut the forest of a range into them, and each member is classified by its head: a
directive, a class, a getter, a method, a constructor or a field.
-/

namespace WidgetBridge.WidgetGrammar

open WidgetBridge.Text

/-- The kinds of members. -/
inductive MemberKind where
  | field
  | method
  | getter
  | constructor
  | classLike
  | directive
  | other
  deriving Repr, DecidableEq, Inhabited

/-- The name of a kind. -/
def MemberKind.name : MemberKind → String
  | .field => "field"
  | .method => "method"
  | .getter => "getter"
  | .constructor => "constructor"
  | .classLike => "class"
  | .directive => "directive"
  | .other => "other"

/-- A declaration. -/
structure Member where
  kind : MemberKind
  name : String
  range : Range
  typeText : String := ""
  modifiers : List String := []
  annotations : List String := []
  superclass : String := ""
  initializer : Option Range := none
  params : Option Range := none
  /-- What stands between the braces. -/
  body : Option Range := none
  /-- The expression after an arrow. -/
  arrow : Option Range := none
  deriving Inhabited

namespace Member

/-- The source of a member. -/
def text (m : Member) : String := m.range.text

/-- The name of the superclass. -/
def superName (m : Member) : String := trim (before m.superclass "<")

/-- The type arguments of the superclass. -/
def superTypeArgs (m : Member) : Attempt String :=
  match cutAt? m.superclass "<" with
  | none => .ok ""
  | some (head, rest) =>
    match cutLast? m.superclass ">" with
    | none => .error .badText
    | some (upTo, _) => .ok (trim (take rest (upTo.length - (head.length + 1))))

end Member

/-! ## Cutting into members -/

/-- The words that may stand before a declaration. -/
def modifierWords : List String :=
  ["static", "final", "const", "late", "var", "external", "abstract", "covariant", "factory",
    "async"]

/-- Splits off the dotted rest of a name. -/
def dotted : List TokenTree → List TokenTree × List TokenTree
  | .leaf dot :: .leaf n :: ts =>
    if dot.isPunct "." && n.isIdent then
      let (names, rest) := dotted ts
      (.leaf dot :: .leaf n :: names, rest)
    else ([], .leaf dot :: .leaf n :: ts)
  | ts => ([], ts)

/-- Splits off one annotation. -/
def annotation? : List TokenTree → Option (List TokenTree × List TokenTree)
  | .leaf sign :: .leaf n :: ts =>
    if sign.isPunct "@" && n.isIdent then
      let (names, rest) := dotted ts
      match rest with
      | .group o inner c :: rest' =>
        if o.isPunct "(" then
          some (.leaf sign :: .leaf n :: names ++ [.group o inner c], rest')
        else some (.leaf sign :: .leaf n :: names, rest)
      | _ => some (.leaf sign :: .leaf n :: names, rest)
    else none
  | _ => none

/-- Splits off all leading annotations. -/
def annotationsOf : (fuel : Nat) → List TokenTree → List (List TokenTree) × List TokenTree
  | 0, ts => ([], ts)
  | fuel + 1, ts =>
    match annotation? ts with
    | some (a, rest) =>
      let (as, rest) := annotationsOf fuel rest
      (a :: as, rest)
    | none => ([], ts)

/-- Splits off a declaration: up to a semicolon, or a block that is not part of a value. -/
def declaration (assigned : Bool) : List TokenTree → List TokenTree × List TokenTree
  | [] => ([], [])
  | .leaf t :: ts =>
    if t.isPunct ";" then ([.leaf t], ts)
    else
      let (d, rest) := declaration (assigned || t.isPunct "=" || t.isPunct "=>") ts
      (.leaf t :: d, rest)
  | .group o inner c :: ts =>
    if o.isPunct "\x7b" && !assigned then ([.group o inner c], ts)
    else
      let (d, rest) := declaration assigned ts
      (.group o inner c :: d, rest)

/-- Splits off leading modifiers. -/
def modifiersOf : List TokenTree → List Token × List TokenTree
  | .leaf t :: ts =>
    if t.isIdent && modifierWords.contains t.text then
      let (ms, rest) := modifiersOf ts
      (t :: ms, rest)
    else ([], .leaf t :: ts)
  | ts => ([], ts)

/-! ## Parts of members -/

/-- Takes the last token off a forest. A group that loses its bracket is opened up. -/
def dropLastToken (ts : List TokenTree) : List TokenTree :=
  match ts.getLast? with
  | some (.group o inner _) => ts.dropLast ++ .leaf o :: inner
  | _ => ts.dropLast

mutual

/-- The part of a tree before a token. -/
def TokenTree.beforeIndex (index : Nat) : TokenTree → List TokenTree
  | .leaf t => if t.index < index then [.leaf t] else []
  | .group o inner c =>
    if c.index < index then [.group o inner c]
    else if o.index < index then .leaf o :: TokenTree.beforeIndexAll index inner
    else []

/-- The part of a forest before a token. -/
def TokenTree.beforeIndexAll (index : Nat) : List TokenTree → List TokenTree
  | [] => []
  | t :: ts => t.beforeIndex index ++ TokenTree.beforeIndexAll index ts

end

/-- The body after a parameter list: an arrow expression or a block. Initializer lists are passed
over. The first result is the arrow, the second the block. -/
def callableParts (follow : Option Token) : List TokenTree → Option Range × Option Range
  | [] => (none, none)
  | .leaf t :: ts =>
    if t.isPunct "=>" then
      let r := (Range.mk ts follow).withoutSemicolon
      (some (if r.isEmpty && r.follow.isNone then ⟨[], some t⟩ else r), none)
    else if t.isPunct ";" then (none, none)
    else callableParts follow ts
  | .group o inner c :: ts =>
    if o.isPunct "\x7b" then (none, some ⟨inner, some c⟩) else callableParts follow ts

/-- The superclass in the head of a class. -/
def superclassOf (head : List Token) : String :=
  match (head.drop 2).dropWhile fun t => !t.isName "extends" with
  | [] => ""
  | _ :: rest =>
    TokenTree.textOfTokens (rest.takeWhile fun t => !(t.isName "with" || t.isName "implements"))

/-- The tokens of a name before a parameter list: the last token, and the dotted names before
it. `ts` has the last token first. -/
def nameTokens : List Token → List Token
  | last :: dot :: n :: ts =>
    if dot.isPunct "." && n.isIdent then nameTokens (n :: ts) ++ [dot, last] else [last]
  | [last] => [last]
  | [last, _] => [last]
  | [] => []
  termination_by ts => ts.length

/-- A getter in a declaration: the forest from the word `get` on. -/
def getter? (limit : Nat) (ts : List TokenTree) : Option (Token × Token × List TokenTree) :=
  (TokenTree.positions ts).findSome? fun rest =>
    match TokenTree.next? rest with
    | some (g, rest) =>
      if g.index < limit && g.isName "get" then
        match TokenTree.next? rest with
        | some (n, rest) => if n.isIdent then some (g, n, rest) else none
        | none => none
      else none
    | none => none

/-- Where a declaration stands: the whole unit, and the tokens around it. -/
structure Surroundings where
  unit : List TokenTree
  before : Option Token
  follow : Option Token

/-- The member of a class, from the word `class` on. -/
def classMember (s : Surroundings) (base : Member) (modifiers : List String)
    (ts : List TokenTree) : Attempt Member := do
  let second := (TokenTree.next? ts).bind fun r => (TokenTree.next? r.2).map (·.1)
  let name ← match second, s.follow with
    | some t, _ => pure t.text
    | none, some t => pure t.text
    | none, none => throw .pastEnd
  let (superclass, body) := match Range.cutTop? "\x7b" ts with
    | some (head, .group _ inner c, rest) =>
      let body := if rest.isEmpty then Range.mk inner (some c)
        else ⟨dropLastToken (inner ++ .leaf c :: rest), rest.getLast?.map TokenTree.last⟩
      (superclassOf (TokenTree.tokensOf head), body)
    | _ =>
      let last := ts.getLast?.map TokenTree.last
      ("", Range.mk (TokenTree.beforeIndexAll ((last.map (·.index)).getD 0) s.unit) last)
  return { base with kind := .classLike, name, superclass, modifiers, body := some body }

/-- The member of a function: its name and type stand before the parameter list. -/
def functionMember (s : Surroundings) (base : Member) (head : List TokenTree)
    (params : Range) (rest : List TokenTree) : Member :=
  let tokens := TokenTree.tokensOf head
  let (name, typeText, whole) := match tokens with
    | [] =>
      let t := s.before.orElse fun _ => (s.unit.getLast?.map TokenTree.last)
      ((t.map Token.text).getD "", "", false)
    | _ =>
      let name := nameTokens tokens.reverse
      (TokenTree.textOfTokens name,
        TokenTree.textOfTokens (tokens.take (tokens.length - name.length)),
        name.length == tokens.length)
  let name := replaceChar ' ' "" name
  let kind := if whole && (startsUpper name || occursIn "." name) then MemberKind.constructor
    else .method
  let (arrow, body) := callableParts s.follow rest
  { base with kind, name, typeText, params := some params, arrow, body }

/-- The member of a field. -/
def fieldMember (s : Surroundings) (base : Member) (ts : List TokenTree) : Member :=
  let cut := Range.cutTop? "=" ts
  let declared := match cut with
    | some (head, _, _) => head
    | none => Range.dropSemicolon ts
  let nameToken := match (Range.mk declared none).splitTop "," with
    | part :: _ => part.last?
    | [] => ts.head?.map TokenTree.first
  let typeText := match nameToken with
    | some n =>
      TokenTree.textOfTokens ((TokenTree.tokensOf ts).takeWhile fun t => t.index < n.index)
    | none => ""
  let initializer := cut.map fun (_, eq, rest) =>
    let r := (Range.mk rest s.follow).withoutSemicolon
    if r.isEmpty && r.follow.isNone then Range.mk [] (some eq.first) else r
  { base with
    kind := .field, name := (nameToken.map Token.text).getD "", typeText, initializer }

/-- Classifies a declaration. `ts` is its forest without annotations. -/
def classify (s : Surroundings) (range : Range) (annotations : List String)
    (ts : List TokenTree) : Attempt Member := do
  let base : Member := { kind := .other, name := "", range, annotations }
  if ts.isEmpty then return base
  let (modifierTokens, rest) := modifiersOf ts
  let s := { s with before := modifierTokens.getLast?.orElse fun _ => s.before }
  let modifiers := modifierTokens.map Token.text
  let head := ((rest.head?.map TokenTree.first).map Token.text).getD ""
  if ["import", "export", "library", "part"].contains head then
    return { base with kind := .directive, name := head }
  if ["class", "mixin", "enum"].contains head then
    return ← classMember s base modifiers rest
  let indexOf := fun text => (Range.cutTop? text rest).map fun r => r.2.1.first.index
  let stop := (((rest.getLast?.map TokenTree.last).map (·.index)).getD 0) + 1
  let limit := min ((indexOf "=").getD stop) ((indexOf "=>").getD stop)
  let base := { base with modifiers }
  match getter? limit rest with
  | some (g, n, after) =>
    let (arrow, body) := callableParts s.follow after
    let typeText :=
      TokenTree.textOfTokens ((TokenTree.tokensOf rest).takeWhile fun t => t.index < g.index)
    return { base with kind := .getter, name := n.text, typeText, arrow, body }
  | none =>
    match Range.cutTop? "(" rest with
    | some (before, .group o inner c, after) =>
      if o.index < limit then
        return functionMember s base before ⟨inner, some c⟩ after
      else return fieldMember s base rest
    | _ => return fieldMember s base rest

/-- Cuts a forest into members. -/
def membersFrom (unit : List TokenTree) (follow : Option Token) :
    (fuel : Nat) → (previous : Option Token) → List TokenTree → Attempt (List Member)
  | 0, _, _ => .ok []
  | _ + 1, _, [] => .ok []
  | fuel + 1, previous, ts => do
    let (annotations, decl) := annotationsOf ts.length ts
    let (own, rest) := declaration false decl
    let all := annotations.flatten ++ own
    let follow' := match rest with
      | [] => follow
      | t :: _ => some t.first
    let before := (annotations.flatten.getLast?.map TokenTree.last).orElse fun _ => previous
    let m ← classify ⟨unit, before, follow'⟩ ⟨all, follow'⟩ (annotations.map TokenTree.textOf) own
    return m :: (← membersFrom unit follow fuel (all.getLast?.map TokenTree.last) rest)

/-- The members of a whole source. -/
def Source.members (s : Source) : Attempt (List Member) :=
  membersFrom s.trees none s.trees.length none s.trees

/-- The members in the body of a class. -/
def Source.membersIn (s : Source) (body : Range) : Attempt (List Member) :=
  let previous := match body.first? with
    | some t => if t.index == 0 then none else s.tokens[t.index - 1]?
    | none => none
  membersFrom s.trees body.follow body.trees.length previous body.trees

/-- The classes among members: each name in its first place with its last class. -/
def classesOf (ms : List Member) : Assoc Member :=
  Assoc.ofPairs ((ms.filter fun m => m.kind == .classLike).map fun m => (m.name, m))

/-! ## Statements -/

/-- The words that start a statement which a block may end. -/
def blockWords : List String := ["if", "for", "while", "switch", "try", "do", "else"]

/-- The words that continue a statement after a block. -/
def continuationWords : List String := ["else", "catch", "finally", "on", "while"]

/-- Whether the trees of a statement, the last one first, lead up to a block of its own. -/
def leadsToBlock (first : String) (seen : List TokenTree) : Bool :=
  blockWords.contains first ||
    match seen with
    | t :: _ =>
      t.last.isPunct ")" && !Range.hasTop "=" seen.reverse && !Range.hasTop "=>" seen.reverse
    | [] => false

/-- Whether a forest starts with a word that continues a statement. -/
def continues : List TokenTree → Bool
  | .leaf t :: _ => t.isIdent && continuationWords.contains t.text
  | _ => false

/-- Splits off one statement. `seen` is its part before this place, the last tree first. -/
def statement (first : String) (seen : List TokenTree) :
    List TokenTree → List TokenTree × List TokenTree
  | [] => (seen.reverse, [])
  | .leaf t :: ts =>
    if t.isPunct ";" then ((.leaf t :: seen).reverse, ts)
    else statement first (.leaf t :: seen) ts
  | .group o inner c :: ts =>
    let seen' := TokenTree.group o inner c :: seen
    if o.isPunct "\x7b" && leadsToBlock first seen && !continues ts then (seen'.reverse, ts)
    else statement first seen' ts

/-- Cuts a forest into statements. -/
def statementsFrom (follow : Option Token) : (fuel : Nat) → List TokenTree → List Range
  | 0, _ => []
  | _ + 1, [] => []
  | fuel + 1, t :: ts =>
    let (own, rest) := statement t.first.text [] (t :: ts)
    let follow' := match rest with
      | [] => follow
      | u :: _ => some u.first
    ⟨own, follow'⟩ :: statementsFrom follow fuel rest

/-- The statements of a block. -/
def Range.statements (r : Range) : List Range := statementsFrom r.follow r.trees.length r.trees

/-- Whether a range starts with a given name. -/
def Range.startsWith (r : Range) (name : String) : Bool :=
  match r.trees with
  | t :: _ => t.isName name
  | [] => false

/-- What a return statement returns. -/
def Range.returnValue (r : Range) : Range :=
  (Range.mk (r.trees.drop 1) r.follow).withoutSemicolon

/-- What a member returns: the expression after its arrow, or what its last return returns. -/
def Member.returned? (m : Member) : Option Range :=
  match m.arrow, m.body with
  | some r, _ => some r
  | none, some body =>
    (body.statements.filter fun s => s.startsWith "return").getLast?.map Range.returnValue
  | none, none => none

end WidgetBridge.WidgetGrammar
