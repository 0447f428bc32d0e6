import WidgetBridge.Text.Pattern

/-!
# Lexical classes of component source

Each class is given by the length of its longest member at the start of a text: comments, names,
quoted texts, numbers, regular expressions, and the pieces of markup.
-/

namespace WidgetBridge.ComponentGrammar.Lexical

open WidgetBridge.Text

/-- Whether a character only separates. -/
def isSpace (c : Char) : Bool :=
  (isBlank c && !(0x1C ≤ c.toNat && c.toNat ≤ 0x1F)) || c.toNat == 0xFEFF || c.toNat == 0x2060 ||
    c.toNat == 0x200B

/-- Whether a character ends a line. -/
def endsLine (c : Char) : Bool :=
  c == '\n' || c == '\r' || c.toNat == 0x2028 || c.toNat == 0x2029

/-- The length of a run of characters. -/
def run (p : Char → Bool) (cs : List Char) : Nat := (cs.takeWhile p).length

/-! ## Comments -/

/-- The length up to the end of a block comment. -/
def blockLength? : List Char → Option Nat
  | '*' :: '/' :: _ => some 2
  | _ :: cs => (blockLength? cs).map (· + 1)
  | [] => none

/-- The length of a comment. -/
def commentLength? : List Char → Option Nat
  | '/' :: '/' :: cs => some (2 + run (fun c => !endsLine c) cs)
  | '/' :: '*' :: cs => (blockLength? cs).map (· + 2)
  | _ => none

/-! ## Names -/

/-- Whether a character can stand in a name. -/
def isNamePart (c : Char) : Bool :=
  !(c.toNat < 0x20 || isSpace c || ":;`\"'@#.,|^&<=>+-*/\\%?!~()[]\x7b\x7d".toList.contains c)

/-- The length of a name from its second character on; a character may be written by its number. -/
def nameRestLength : List Char → Nat
  | '\\' :: 'u' :: a :: b :: c :: d :: cs =>
    if [a, b, c, d].all isHexDigit then 6 + nameRestLength cs else 0
  | c :: cs => if isNamePart c then 1 + nameRestLength cs else 0
  | [] => 0

/-- The length of a name. -/
def nameLength? (cs : List Char) : Option Nat :=
  match cs with
  | c :: _ => if isDigit c || nameRestLength cs == 0 then none else some (nameRestLength cs)
  | [] => none

/-- The length of a name that may hold hyphens, as tags and attributes have. -/
def tagNameLength? (cs : List Char) : Option Nat :=
  (nameLength? cs).map fun n =>
    match cs.drop n with
    | '-' :: rest =>
      if (cs.take n).all isNameChar then n + 1 + run (fun c => isNameChar c || c == '-') rest else n
    | _ => n

/-! ## Quoted texts -/

/-- The length of an escape after its backslash. -/
def escapeLength? : List Char → Option Nat
  | 'x' :: a :: b :: _ => if isHexDigit a && isHexDigit b then some 3 else none
  | 'x' :: _ => none
  | 'u' :: '{' :: cs =>
    match run isHexDigit cs, cs.drop (run isHexDigit cs) with
    | n + 1, '}' :: _ => some (n + 4)
    | _, _ => none
  | 'u' :: a :: b :: c :: d :: _ => if [a, b, c, d].all isHexDigit then some 5 else none
  | 'u' :: _ => none
  | '\r' :: '\n' :: _ => some 2
  | c :: cs =>
    if '0' ≤ c && c ≤ '7' then some (1 + min 2 (run (fun d => '0' ≤ d && d ≤ '7') cs))
    else some 1
  | [] => none

/-- The length of a quoted text after its opening quote. `skip` characters belong to an escape. -/
def quotedLength? (quote : Char) : (skip : Nat) → List Char → Option Nat
  | _, [] => none
  | n + 1, _ :: cs => (quotedLength? quote n cs).map (· + 1)
  | 0, c :: cs =>
    if c == quote then some 1
    else if c == '\\' then
      match escapeLength? cs with
      | some n => (quotedLength? quote n cs).map (· + 1)
      | none => none
    else if c == '\n' || c == '\r' then none
    else (quotedLength? quote 0 cs).map (· + 1)

/-- The length of a quoted text. -/
def stringLength? : List Char → Option Nat
  | c :: cs => if c == '"' || c == '\'' then (quotedLength? c 0 cs).map (· + 1) else none
  | [] => none

/-! ## Numbers -/

namespace Form

open Pattern

private def grouped (p : Pattern) : Pattern := p ++ many (opt (lit "_") ++ p)
private def decimals : Pattern := grouped (char isDigit)
private def power : Pattern := oneOf "eE" ++ opt (oneOf "+-") ++ decimals
private def wholePart : Pattern :=
  (opt (lit "0") ++ char (fun c => '1' ≤ c && c ≤ '9') ++ opt (opt (lit "_") ++ decimals)) <|>
    lit "0"
private def big : Pattern := opt (lit "n")

/-- The ways to write a number. -/
def numbers : List Pattern :=
  [lit "0" ++ oneOf "xX" ++ grouped hex ++ big,
    lit "0" ++ oneOf "bB" ++ grouped (oneOf "01") ++ big,
    lit "0" ++ oneOf "oO" ++ grouped (char fun c => '0' ≤ c && c ≤ '7') ++ big,
    wholePart ++ lit "." ++ opt decimals ++ opt power,
    lit "." ++ decimals ++ opt power,
    wholePart ++ power,
    decimals ++ big]

/-- A character reference. -/
def reference : Pattern :=
  lit "&" ++ ((lit "#" ++ ((oneOf "xX" ++ rep true 1 (some 6) hex) <|>
    rep true 1 (some 5) (char isDigit))) <|> rep true 1 (some 30) (char isLetter)) ++ lit ";"

end Form

private def matchLength? (p : Pattern) (cs : List Char) : Option Nat :=
  (Pattern.matchAt? p [] 0 cs).map fun m => m.text.length

/-- The length of a number: the longest of all ways to read one. -/
def numberLength? (cs : List Char) : Option Nat :=
  match cs with
  | c :: _ =>
    if isDigit c || c == '.' then (Form.numbers.filterMap fun p => matchLength? p cs).max?
    else none
  | [] => none

/-! ## Regular expressions -/

/-- The length of a regular expression after its opening slash. -/
def regexBodyLength? (inClass : Bool) : List Char → Option Nat
  | '\\' :: c :: cs => if c == '\n' then none else (regexBodyLength? inClass cs).map (· + 2)
  | c :: cs =>
    if c == '\n' || c == '\\' then none
    else if inClass then (regexBodyLength? (c != ']') cs).map (· + 1)
    else if c == '/' then some (1 + run (fun d => 'a' ≤ d && d ≤ 'z') cs)
    else (regexBodyLength? (c == '[') cs).map (· + 1)
  | [] => none

/-- The length of a regular expression. -/
def regexLength? : List Char → Option Nat
  | '/' :: '/' :: _ => none
  | '/' :: '*' :: _ => none
  | '/' :: cs => (regexBodyLength? false cs).map (· + 1)
  | _ => none

/-! ## Markup -/

/-- The length of a character reference. -/
def referenceLength? (cs : List Char) : Option Nat := matchLength? Form.reference cs

/-- The length of a quoted attribute after its opening quote. A reference has to be complete where
a letter or a number sign follows the ampersand. -/
def attributeRestLength? (quote : Char) : (fuel : Nat) → List Char → Option Nat
  | 0, _ => none
  | _, [] => none
  | fuel + 1, '&' :: c :: cs =>
    if isLetter c || c == '#' then
      match referenceLength? ('&' :: c :: cs) with
      | some n => (attributeRestLength? quote fuel (('&' :: c :: cs).drop n)).map (· + n)
      | none => none
    else (attributeRestLength? quote fuel cs).map (· + 2)
  | fuel + 1, c :: cs =>
    if c == quote then some 1
    else if c == '&' then none
    else (attributeRestLength? quote fuel cs).map (· + 1)

/-- The length of a quoted attribute. -/
def attributeLength? : List Char → Option Nat
  | c :: cs =>
    if c == '"' || c == '\'' then (attributeRestLength? c (cs.length + 1) cs).map (· + 1) else none
  | [] => none

/-- The length of a run of text between tags. -/
def textLength (cs : List Char) : Nat := run (fun c => !"<>\x7b\x7d&".toList.contains c) cs

/-- Whether a character is a blank of running text. -/
def isTextBlank (c : Char) : Bool :=
  c == ' ' || (9 ≤ c.toNat && c.toNat ≤ 13) || c.toNat == 0x1680 ||
    (0x2000 ≤ c.toNat && c.toNat ≤ 0x200A && c.toNat != 0x2007) || c.toNat == 0x2028 ||
    c.toNat == 0x2029 || c.toNat == 0x205F || c.toNat == 0x3000

/-- Whether a run of text holds something beside line feeds and the blanks after them. -/
def isInkedText (afterBreak : Bool) : List Char → Bool
  | [] => false
  | '\n' :: cs => isInkedText true cs
  | c :: cs => if afterBreak && isTextBlank c then isInkedText true cs else true

end WidgetBridge.ComponentGrammar.Lexical
