import WidgetBridge.Text.EntityTable
import WidgetBridge.Text.Pattern
import WidgetBridge.Value

/-!
# Character references

Markup writes characters as references: `&name;`, `&#number;` or `&#xnumber;`. `unescape` replaces
them by the rules for markup with errors, so the closing semicolon may be missing where a name is
known without it, and numbers that stand for no character have fixed replacements.
-/

namespace WidgetBridge.Text.Entity

private def hexText (s : String) : String :=
  String.ofList ((splitAt s '+').map fun n => Char.ofNat (hexValue n.toList))

/-- The names of characters with what they stand for. -/
def names : Assoc String :=
  (tableWords EntityTable.entities).map fun w =>
    let entry := String.ofList w
    match cutAt? entry "=" with
    | some (name, points) => (name, hexText points)
    | none => (entry, "")

/-- The names that may stand without the closing semicolon. -/
def bareNames : List String := (tableWords EntityTable.bareNames).map String.ofList

/-- What a name stands for, given with or without its semicolon. -/
def named? (name : String) : Option String :=
  if hasTail name ";" then Assoc.get? names (take name (name.length - 1))
  else if bareNames.contains name then Assoc.get? names name
  else none

/-- What the longest known beginning of a name stands for, with the rest of the name. Beginnings
of one character do not count. -/
def longestNamed? (name : String) : (length : Nat) → Option String
  | 0 => none
  | 1 => none
  | n + 2 =>
    match named? (take name (n + 2)) with
    | some s => some (s ++ drop name (n + 2))
    | none => longestNamed? name (n + 1)

/-- The characters that the numbers from 128 to 159 stand for. -/
def westernPoints : List Nat :=
  [0x20AC, 0x81, 0x201A, 0x192, 0x201E, 0x2026, 0x2020, 0x2021, 0x2C6, 0x2030, 0x160, 0x2039,
    0x152, 0x8D, 0x17D, 0x8F, 0x90, 0x2018, 0x2019, 0x201C, 0x201D, 0x2022, 0x2013, 0x2014, 0x2DC,
    0x2122, 0x161, 0x203A, 0x153, 0x9D, 0x17E, 0x178]

/-- Whether a number stands for nothing. -/
def isVoidPoint (n : Nat) : Bool :=
  (1 ≤ n && n ≤ 8) || n == 0xB || (0xE ≤ n && n ≤ 0x1F) || n == 0x7F ||
    (0xFDD0 ≤ n && n ≤ 0xFDEF) || n % 0x10000 == 0xFFFE || n % 0x10000 == 0xFFFF

/-- What a number stands for. -/
def numbered (n : Nat) : String :=
  let one := fun n => String.singleton (Char.ofNat n)
  if n == 0 then one 0xFFFD
  else if 0x80 ≤ n && n ≤ 0x9F then one ((westernPoints[n - 0x80]?).getD n)
  else if (0xD800 ≤ n && n ≤ 0xDFFF) || n > 0x10FFFF then one 0xFFFD
  else if isVoidPoint n then ""
  else one n

private def decimalDigit : Pattern := Pattern.char isDigit

/-- A reference: a decimal or hexadecimal number, or a name. -/
def reference : Pattern :=
  Pattern.lit "&" ++
    ((Pattern.lit "#" ++ Pattern.group 1 (Pattern.many1 decimalDigit) ++
        Pattern.opt (Pattern.lit ";")) <|>
      (Pattern.lit "#" ++ Pattern.oneOf "xX" ++ Pattern.group 2 (Pattern.many1 Pattern.hex) ++
        Pattern.opt (Pattern.lit ";")) <|>
      Pattern.group 3 (Pattern.rep true 1 (some 32) (Pattern.noneOf "\t\n\x0c <&#;") ++
        Pattern.opt (Pattern.lit ";")))

/-- What a reference stands for. -/
def replacement (m : Pattern.Match) : String :=
  match m.group? 1, m.group? 2 with
  | some ds, _ => numbered (ds.toList.foldl (fun n c => n * 10 + (c.toNat - '0'.toNat)) 0)
  | none, some ds => numbered (hexValue ds.toList)
  | none, none =>
    let name := m.get 3
    match named? name with
    | some s => s
    | none => (longestNamed? name (name.length - 1)).getD ("&" ++ name)

/-- A text with its references replaced. -/
def unescape (s : String) : String := reference.replaceAll replacement s

end WidgetBridge.Text.Entity
