import WidgetBridge.Text.CharTable

/-!
# Character classes

The classes of characters that the readers and printers of this library distinguish, over all of
Unicode. `isBlank`, `isDecimal`, `isWord` are the classes of the text patterns; `isPrintable`
decides what a shown text writes as an escape; `toUpper` and `toLower` are the case maps.
-/

namespace WidgetBridge.Text

/-! ## Decoding the tables -/

/-- Value of a hexadecimal digit, in either case. -/
def hexDigit? (c : Char) : Option Nat :=
  let n := c.toNat
  if 48 ≤ n ∧ n ≤ 57 then some (n - 48)
  else if 97 ≤ n ∧ n ≤ 102 then some (n - 87)
  else if 65 ≤ n ∧ n ≤ 70 then some (n - 55)
  else none

/-- The number that a text of hexadecimal digits writes; other characters count as zero. -/
def hexValue (cs : List Char) : Nat :=
  cs.foldl (fun acc c => acc * 16 + (hexDigit? c).getD 0) 0

/-- The number that hexadecimal digits with an optional minus sign write. -/
def signedHex : List Char → Int
  | '-' :: cs => -(hexValue cs : Int)
  | cs => (hexValue cs : Int)

/-- The words of a table, which spaces and line feeds divide. -/
def tableWords (table : String) : List (List Char) :=
  (go table.toList).filter fun w => !w.isEmpty
where
  go : List Char → List (List Char)
    | [] => []
    | c :: cs =>
      if c == ' ' || c == '\n' then [] :: go cs
      else
        match go cs with
        | w :: ws => (c :: w) :: ws
        | [] => [[c]]

/-- The numbers of a table. -/
def tableNumbers (table : String) : List Int := (tableWords table).map signedHex

/-- The closed ranges of code points that a table lists. -/
def rangesOf (table : String) : List (Nat × Nat) :=
  go 0 ((tableNumbers table).map Int.toNat)
where
  go (last : Nat) : List Nat → List (Nat × Nat)
    | gap :: len :: rest => (last + gap, last + gap + len) :: go (last + gap + len) rest
    | _ => []

/-- Membership of a code point in a list of closed ranges. -/
def inRanges (ranges : List (Nat × Nat)) (n : Nat) : Bool :=
  ranges.any fun r => r.1 ≤ n && n ≤ r.2

/-- The runs of code points of the decimal digits. -/
def decimalRanges : List (Nat × Nat) := rangesOf CharTable.decimalDigits
private def otherDigitRanges : List (Nat × Nat) := rangesOf CharTable.otherDigits
/-- The runs of code points of the word characters. -/
def wordRanges : List (Nat × Nat) := rangesOf CharTable.wordChars
private def upperRanges : List (Nat × Nat) := rangesOf CharTable.upperCase
private def unprintableRanges : List (Nat × Nat) := rangesOf CharTable.unprintable
private def identStartRanges : List (Nat × Nat) := rangesOf CharTable.identifierStart
private def identContinueRanges : List (Nat × Nat) := rangesOf CharTable.identifierContinue

/-! ## ASCII classes -/

/-- An ASCII letter. -/
def isLetter (c : Char) : Bool :=
  ('a' ≤ c && c ≤ 'z') || ('A' ≤ c && c ≤ 'Z')

/-- An ASCII digit. -/
def isDigit (c : Char) : Bool := '0' ≤ c && c ≤ '9'

/-- A hexadecimal digit. -/
def isHexDigit (c : Char) : Bool :=
  isDigit c || ('a' ≤ c && c ≤ 'f') || ('A' ≤ c && c ≤ 'F')

/-- The first character of an ASCII identifier; `$` counts as a letter. -/
def isNameStart (c : Char) : Bool := isLetter c || c == '_' || c == '$'

/-- A later character of an ASCII identifier. -/
def isNameChar (c : Char) : Bool := isNameStart c || isDigit c

/-! ## Unicode classes -/

/-- White space, line breaks and separators included. -/
def isBlank (c : Char) : Bool :=
  let n := c.toNat
  (9 ≤ n && n ≤ 13) || (28 ≤ n && n ≤ 32) || n == 0x85 || n == 0xA0 || n == 0x1680 ||
    (0x2000 ≤ n && n ≤ 0x200A) || n == 0x2028 || n == 0x2029 || n == 0x202F || n == 0x205F ||
    n == 0x3000

/-- The value of a decimal digit of any script. -/
def decimalValue? (c : Char) : Option Nat :=
  let n := c.toNat
  if n < 128 then if isDigit c then some (n - 48) else none
  else (decimalRanges.find? fun r => r.1 ≤ n && n ≤ r.2).map fun r => (n - r.1) % 10

/-- A decimal digit of any script. -/
def isDecimal (c : Char) : Bool := (decimalValue? c).isSome

/-- A digit of any kind, superscripts and circled digits included. -/
def isAnyDigit (c : Char) : Bool :=
  if c.toNat < 128 then isDigit c else isDecimal c || inRanges otherDigitRanges c.toNat

/-- A letter or number of any script, or the underscore. -/
def isWord (c : Char) : Bool :=
  if c.toNat < 128 then isLetter c || isDigit c || c == '_' else inRanges wordRanges c.toNat

/-- An upper-case letter of any script. -/
def isUpper (c : Char) : Bool :=
  if c.toNat < 128 then 'A' ≤ c && c ≤ 'Z' else inRanges upperRanges c.toNat

/-- A character that a shown text holds as it is. -/
def isPrintable (c : Char) : Bool :=
  if c.toNat < 128 then 32 ≤ c.toNat && c.toNat ≤ 126 else !inRanges unprintableRanges c.toNat

/-- A non-empty text of identifier characters of any script that starts with a letter or an
underscore. -/
def isIdentifier (s : String) : Bool :=
  match s.toList with
  | [] => false
  | c :: cs => start c && cs.all continues
where
  start (c : Char) : Bool :=
    if c.toNat < 128 then isLetter c || c == '_' else inRanges identStartRanges c.toNat
  continues (c : Char) : Bool :=
    if c.toNat < 128 then isLetter c || isDigit c || c == '_'
    else inRanges identContinueRanges c.toNat

/-! ## Case -/

/-- A run of code points that a case map moves by one distance. -/
structure CaseRun where
  first : Nat
  count : Nat
  stride : Nat
  shift : Int

/-- The image of a code point that lies on the run. -/
def CaseRun.image? (r : CaseRun) (n : Nat) : Option Char :=
  if r.first ≤ n ∧ (n - r.first) % r.stride = 0 ∧ (n - r.first) / r.stride < r.count then
    some (Char.ofNat ((n : Int) + r.shift).toNat)
  else none

/-- The runs of a table. -/
def caseRuns (table : String) : List CaseRun :=
  go (tableNumbers table)
where
  go : List Int → List CaseRun
    | first :: count :: stride :: shift :: rest =>
      ⟨first.toNat, count.toNat, stride.toNat, shift⟩ :: go rest
    | _ => []

private def longForms (table : String) : List (Nat × List Char) :=
  let ns := (tableNumbers table).map Int.toNat
  go ns.length ns
where
  go : Nat → List Nat → List (Nat × List Char)
    | fuel + 1, c :: k :: rest => (c, (rest.take k).map Char.ofNat) :: go fuel (rest.drop k)
    | _, _ => []

private def upperRuns : List CaseRun := caseRuns CharTable.toUpper
/-- The runs of code points that have a lower-case form. -/
def lowerRuns : List CaseRun := caseRuns CharTable.toLower
private def upperLong : List (Nat × List Char) := longForms CharTable.toUpperLong

/-- The upper-case form of a character, which may be several characters. -/
def upperChar (c : Char) : List Char :=
  let n := c.toNat
  if n < 128 then [if 'a' ≤ c && c ≤ 'z' then Char.ofNat (n - 32) else c]
  else match upperLong.lookup n with
    | some cs => cs
    | none => [(upperRuns.findSome? (·.image? n)).getD c]

/-- The lower-case form of a character, which may be several characters. -/
def lowerChar (c : Char) : List Char :=
  let n := c.toNat
  if n < 128 then [if 'A' ≤ c && c ≤ 'Z' then Char.ofNat (n + 32) else c]
  else if n == 0x130 then ['i', Char.ofNat 0x307]
  else [(lowerRuns.findSome? (·.image? n)).getD c]

/-- The lower-case form of a text, character by character. -/
def lower (s : String) : String := String.ofList (s.toList.flatMap lowerChar)

/-- The upper-case form of a text, character by character. -/
def upper (s : String) : String := String.ofList (s.toList.flatMap upperChar)

/-- A text with its first character in upper case. -/
def capitalizeFirst (s : String) : String :=
  match s.toList with
  | [] => ""
  | c :: cs => String.ofList (upperChar c ++ cs)

/-- A text with its first character in lower case. -/
def lowerFirst (s : String) : String :=
  match s.toList with
  | [] => ""
  | c :: cs => String.ofList (lowerChar c ++ cs)

/-- Whether the first character of a text is an upper-case letter. -/
def startsUpper (s : String) : Bool :=
  match s.toList with
  | [] => false
  | c :: _ => isUpper c

end WidgetBridge.Text
