import WidgetBridge.PropValue

/-!
# Literals of widget source

`WidgetGrammar.ofValue` writes data as literal source. Texts are single-quoted; the quote, the
backslash, the dollar sign and the line and tab characters are escaped, so that no content ends
the literal or starts an interpolation.
-/

namespace WidgetBridge.WidgetGrammar

open WidgetBridge.Text WidgetBridge.Number

/-- One character of a quoted text. -/
def escapeChar (c : Char) : List Char :=
  if c == '\\' then ['\\', '\\']
  else if c == '\'' then ['\\', '\'']
  else if c == '$' then ['\\', '$']
  else if c == '\n' then ['\\', 'n']
  else if c == '\r' then ['\\', 'r']
  else if c == '\t' then ['\\', 't']
  else [c]

/-- The inside of a quoted text. -/
def escape (s : String) : String := String.ofList (s.toList.flatMap escapeChar)

/-- A text in single quotes. -/
def string (s : String) : String :=
  String.ofList ('\'' :: s.toList.flatMap escapeChar ++ ['\''])

mutual

/-- Data as literal source. -/
def ofValue : Value → String
  | .null => "null"
  | .bool true => "true"
  | .bool false => "false"
  | .int i => showInt i
  | .float x =>
    if x == 1.0 / 0.0 then "double.infinity"
    else if x == -1.0 / 0.0 then "double.negativeInfinity"
    else formatFloat x
  | .str s => string s
  | .list items => "[" ++ join ", " (ofItems items) ++ "]"
  | .map entries => "\x7b" ++ join ", " (ofEntries entries) ++ "\x7d"

/-- The members of a list as literal source. -/
def ofItems : List Value → List String
  | [] => []
  | v :: vs => ofValue v :: ofItems vs

/-- The entries of a map as literal source. -/
def ofEntries : List (String × Value) → List String
  | [] => []
  | (k, v) :: es => (string k ++ ": " ++ ofValue v) :: ofEntries es

end

/-- A prop value as source: a literal is written, an expression stands as it is. -/
def ofProp : PropValue → String
  | .lit _ v => ofValue v
  | .expr s => s

end WidgetBridge.WidgetGrammar
