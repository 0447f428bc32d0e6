import WidgetBridge.PropValue

/-!
# Literals of component source

`ComponentGrammar.ofValue` writes data as literal source. Texts are double-quoted with the escapes
of the data notation that the language shares; an object key stands bare where it is a name.
-/

namespace WidgetBridge.ComponentGrammar

open WidgetBridge.Text WidgetBridge.Number

private def hexByte (n : Nat) : List Char :=
  let ds := Nat.toDigits 16 n
  List.replicate (4 - ds.length) '0' ++ ds

/-- One character of a quoted text. -/
def escapeChar (c : Char) : List Char :=
  if c == '"' then ['\\', '"']
  else if c == '\\' then ['\\', '\\']
  else if c == '\n' then ['\\', 'n']
  else if c == '\r' then ['\\', 'r']
  else if c == '\t' then ['\\', 't']
  else if c == '\x08' then ['\\', 'b']
  else if c == '\x0c' then ['\\', 'f']
  else if c.toNat < 32 then '\\' :: 'u' :: hexByte c.toNat
  else [c]

/-- A text in double quotes. -/
def string (s : String) : String :=
  String.ofList ('"' :: s.toList.flatMap escapeChar ++ ['"'])

/-- Whether a key can stand without quotes: a name, which one line feed may follow. -/
def isBareKey (key : String) : Bool :=
  let cs := match key.toList.reverse with
    | '\n' :: rest => rest.reverse
    | _ => key.toList
  match cs with
  | c :: rest => isNameStart c && rest.all isNameChar
  | [] => false

/-- An object key: bare where it can be, else quoted. -/
def key (k : String) : String := if isBareKey k then k else string k

mutual

/-- Data as literal source. -/
def ofValue : Value → String
  | .null => "null"
  | .bool true => "true"
  | .bool false => "false"
  | .int i => showInt i
  | .float x =>
    if x == 1.0 / 0.0 then "Infinity"
    else if x == -1.0 / 0.0 then "-Infinity"
    else showFloat x
  | .str s => string s
  | .list items => "[" ++ join ", " (ofItems items) ++ "]"
  | .map [] => "\x7b\x7d"
  | .map (e :: es) => "\x7b " ++ join ", " (ofEntries (e :: es)) ++ " \x7d"

/-- The members of a list as literal source. -/
def ofItems : List Value → List String
  | [] => []
  | v :: vs => ofValue v :: ofItems vs

/-- The entries of a map as literal source. -/
def ofEntries : List (String × Value) → List String
  | [] => []
  | (k, v) :: es => (key k ++ ": " ++ ofValue v) :: ofEntries es

end

/-- A prop value as source: a literal is written, an expression stands as it is. -/
def ofProp : PropValue → String
  | .lit _ v => ofValue v
  | .expr s => s

end WidgetBridge.ComponentGrammar
