import WidgetBridge.Text.Utf8

/-!
# Queries of addresses

Names and values of a query as they are written in an address: bytes that are no plain characters
stand as a percent sign and two hexadecimal digits, and a blank stands as a plus sign.
-/

namespace WidgetBridge.Text.Url

/-! ## Writing -/

private def hexUpper (n : Nat) : Char :=
  if n < 10 then Char.ofNat (48 + n) else Char.ofNat (55 + n)

/-- A character that stands for itself. -/
def isPlain (c : Char) : Bool := isLetter c || isDigit c || "_.-~".toList.contains c

/-- One character of a name or value. -/
def quoteChar (c : Char) : List Char :=
  if c == ' ' then ['+']
  else if isPlain c then [c]
  else (Utf8.encode (String.singleton c)).flatMap fun b =>
    ['%', hexUpper (b / 16), hexUpper (b % 16)]

/-- A name or value. -/
def quote (s : String) : String := String.ofList (s.toList.flatMap quoteChar)

/-- A query. -/
def writeQuery (es : List (String × String)) : String :=
  join "&" (es.map fun e => quote e.1 ++ "=" ++ quote e.2)

/-! ## Reading -/

/-- The bytes of a text of ASCII characters, with the percent forms read. -/
def percentBytes : List Char → List Nat
  | '%' :: a :: b :: cs =>
    match hexDigit? a, hexDigit? b with
    | some x, some y => (x * 16 + y) :: percentBytes cs
    | _, _ => 37 :: percentBytes (a :: b :: cs)
  | c :: cs => c.toNat :: percentBytes cs
  | [] => []
  termination_by cs => cs.length

/-- Runs of ASCII characters and of others. -/
def asciiRuns (cs : List Char) : List (List Char) :=
  cs.splitBy fun a b => (a.toNat < 128) == (b.toNat < 128)

/-- A name or value, read. -/
def unquote (s : String) : String :=
  let spaced := s.toList.map fun c => if c == '+' then ' ' else c
  String.join ((asciiRuns spaced).map fun run =>
    match run with
    | c :: _ => if c.toNat < 128 then Utf8.decode (percentBytes run) else String.ofList run
    | [] => "")

/-- The names and values of a query, in order. A name without a value has an empty one. -/
def readQuery (s : String) : List (String × String) :=
  ((splitAt s '&').filter fun part => !part.isEmpty).map fun part =>
    match cutAt? part "=" with
    | some (name, v) => (unquote name, unquote v)
    | none => (unquote part, "")

end WidgetBridge.Text.Url
