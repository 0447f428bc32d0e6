import WidgetBridge.ComponentGrammar.SyntaxTree
import WidgetBridge.PropValue
import WidgetBridge.Text.Pattern

/-!
# Constants in component source

An expression is constant if it is written with literals alone: texts, numbers, truth values, null,
lists, and objects with plain keys. `SyntaxTree.constant?` gives the value of such an expression,
and `SyntaxTree.toProp` the literal; any other expression is kept as it is written.
-/

namespace WidgetBridge.ComponentGrammar

open WidgetBridge.Text WidgetBridge.Number

/-! ## Texts -/

/-- The escapes of one letter. -/
def simpleEscape : Char → Char
  | 'n' => '\n'
  | 't' => '\t'
  | 'r' => '\r'
  | 'b' => Char.ofNat 8
  | 'f' => Char.ofNat 12
  | 'v' => Char.ofNat 11
  | '0' => Char.ofNat 0
  | c => c

/-- The number of a character that is written by its number, and the length of the escape after
its backslash. -/
def numberedEscape? : List Char → Option (Nat × Nat)
  | 'u' :: '{' :: cs =>
    let ds := cs.takeWhile isHexDigit
    if ds.isEmpty || (cs.drop ds.length).head? != some '}' then none
    else some (hexValue ds, ds.length + 3)
  | 'u' :: a :: b :: c :: d :: _ =>
    if [a, b, c, d].all isHexDigit then some (hexValue [a, b, c, d], 5) else none
  | 'x' :: a :: b :: _ =>
    if isHexDigit a && isHexDigit b then some (hexValue [a, b], 3) else none
  | _ => none

/-- The numbers of the characters that a quoted text stands for. A backslash takes away the line
break after it. `skip` characters belong to an escape that was read. -/
def decodePoints : (skip : Nat) → List Char → List Nat
  | _, [] => []
  | n + 1, _ :: cs => decodePoints n cs
  | 0, '\\' :: c :: cs =>
    match numberedEscape? (c :: cs) with
    | some (point, length) => point :: decodePoints length (c :: cs)
    | none =>
      if c == '\n' then decodePoints 1 (c :: cs)
      else (simpleEscape c).toNat :: decodePoints 1 (c :: cs)
  | 0, c :: cs => c.toNat :: decodePoints 0 cs

/-- Characters of their numbers, where two halves of a pair make one character. -/
def charsOf : List Nat → List Char
  | a :: b :: ps =>
    if 0xD800 ≤ a && a < 0xDC00 && 0xDC00 ≤ b && b < 0xE000 then
      Char.ofNat (0x10000 + (a - 0xD800) * 0x400 + (b - 0xDC00)) :: charsOf ps
    else Char.ofNat a :: charsOf (b :: ps)
  | [a] => [Char.ofNat a]
  | [] => []

/-- A text without its first and its last character. -/
def unquoted (s : String) : String := String.ofList (s.toList.drop 1).dropLast

/-- The text that a quoted text stands for. -/
def decodeString (quoted : String) : Attempt String :=
  let points := decodePoints 0 (unquoted quoted).toList
  if points.all (· ≤ 0x10FFFF) then .ok (String.ofList (charsOf points)) else .error .badText

/-! ## Numbers -/

/-- A number as it is written: whole in base sixteen, two, eight or ten, or else floating. -/
def readNumber (s : String) : Attempt Value :=
  let cs := s.toList.filter (· != '_')
  let whole (n : Option Nat) : Attempt Value :=
    match n with
    | some n => .ok (.int n)
    | none => .error .badText
  match (lower (String.ofList cs)).toList with
  | '0' :: 'x' :: ds => whole (readDigits? 16 ds)
  | '0' :: 'b' :: ds => whole (readDigits? 2 ds)
  | '0' :: 'o' :: ds => whole (readDigits? 8 ds)
  | _ =>
    if !cs.isEmpty && cs.all isDecimal then whole (readDigits? 10 cs)
    else
      match readFloat? (String.ofList cs) with
      | some x => .ok (.float x)
      | none => .error .badText

/-- The opposite of a number. -/
def opposite : Value → Value
  | .int i => .int (-i)
  | .float x => .float (-x)
  | v => v

/-! ## Constants -/

namespace SyntaxTree

/-- The key of an object, if it is plain. -/
def key? : SyntaxTree → Attempt (Option String)
  | .node .name span _ => .ok (some span.text)
  | .node .number span _ => .ok (some span.text)
  | .node .string span _ => (decodeString span.text).map some
  | _ => .ok none

mutual

/-- The value of a constant expression. -/
def constant? : SyntaxTree → Attempt (Option Value)
  | .node shape span parts =>
    match shape with
    | .string => (decodeString span.text).map fun s => some (.str s)
    | .template => .ok (if parts.isEmpty then some (.str (unquoted span.text)) else none)
    | .number => (readNumber span.text).map some
    | .constant v => .ok (some v)
    | .name => .ok (if span.text == "Infinity" then some (.float (1.0 / 0.0)) else none)
    | .negative =>
      match parts with
      | [.node .number s _] => (readNumber s.text).map fun v => some (opposite v)
      | _ => .ok none
    | .paren => do
      match ← constants? parts with
      | some [v] => return some v
      | _ => return none
    | .list => do return (← constants? parts).map .list
    | .object => do return (← entries? parts).map fun es => .map (Assoc.ofPairs es)
    | _ => .ok none

/-- The values of constant expressions, comments apart. -/
def constants? : List SyntaxTree → Attempt (Option (List Value))
  | [] => .ok (some [])
  | t :: ts => do
    if t.isComment then constants? ts
    else
      match ← t.constant? with
      | some v => return (← constants? ts).map (v :: ·)
      | none => return none

/-- The entries of an object with constant values. -/
def entries? : List SyntaxTree → Attempt (Option (List (String × Value)))
  | [] => .ok (some [])
  | .node .comment _ _ :: ts => entries? ts
  | .node .pair _ [key, value] :: ts => do
    match ← key.key? with
    | some k =>
      match ← value.constant? with
      | some v => return (← entries? ts).map ((k, v) :: ·)
      | none => return none
    | none => return none
  | _ :: _ => .ok none

end

/-- An expression as a prop value. -/
def toProp (t : SyntaxTree) : Attempt PropValue := do
  match ← t.constant? with
  | some v => return .literal v
  | none => return .expr t.text

end SyntaxTree

end WidgetBridge.ComponentGrammar
