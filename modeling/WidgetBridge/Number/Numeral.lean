import WidgetBridge.Number.Shortest
import WidgetBridge.Text.Basic

/-!
# Numerals

The written forms of numbers. `showFloat` writes the shortest digits that read back, positionally
for magnitudes from `10 ^ -4` up to `10 ^ 16` and with an exponent beyond; `readInt?` and
`readFloat?` accept surrounding blanks, single underscores between digits and the decimal digits
of every script.
-/

namespace WidgetBridge.Number

open WidgetBridge.Text

/-! ## Writing -/

/-- The decimal digits of a natural number. -/
def digitsOf (n : Nat) : List Char := Nat.toDigits 10 n

/-- An integer in decimal. -/
def showInt (i : Int) : String :=
  match i with
  | .ofNat n => String.ofList (digitsOf n)
  | .negSucc n => String.ofList ('-' :: digitsOf (n + 1))

private def showExponent (e : Int) : List Char :=
  let ds := digitsOf e.natAbs
  'e' :: (if e < 0 then '-' else '+') :: (if ds.length < 2 then '0' :: ds else ds)

/-- Digits with a point and at least one place, or with an exponent where the first digit stands
below `10 ^ -4` or at `10 ^ 16` and above. -/
def showDecimal (d : Decimal) : List Char :=
  let ds := digitsOf d.digits
  let lead : Int := ds.length + d.exponent - 1
  if lead < -4 ∨ 16 ≤ lead then
    match ds with
    | [] => []
    | first :: [] => first :: showExponent lead
    | first :: more => first :: '.' :: more ++ showExponent lead
  else if 0 ≤ d.exponent then ds ++ List.replicate d.exponent.toNat '0' ++ ['.', '0']
  else if 0 ≤ lead then ds.take (lead.toNat + 1) ++ '.' :: ds.drop (lead.toNat + 1)
  else '0' :: '.' :: List.replicate (-lead - 1).toNat '0' ++ ds

/-- A double as the shortest numeral that reads back. -/
def showFloat (x : Float) : String :=
  match Binary.ofFloat? x with
  | none => if x.isNaN then "nan" else if signBit x then "-inf" else "inf"
  | some b =>
    let body := if b.mantissa = 0 then ['0', '.', '0'] else showDecimal b.shortest
    String.ofList (if b.negative then '-' :: body else body)

/-- A whole double written out in full with one place. -/
def showWhole (x : Float) : String :=
  match Binary.ofFloat? x with
  | none => showFloat x
  | some b =>
    let body := digitsOf (b.num / b.den) ++ ['.', '0']
    String.ofList (if b.negative then '-' :: body else body)

/-- A number for source text: a whole double below `10 ^ 15` in magnitude is written out with one
place, any other as the shortest numeral. -/
def formatFloat (x : Float) : String :=
  if isWhole x && x.abs < 1e15 then showWhole x else showFloat x

/-! ## Reading -/

/-- Digits with single underscores between them; the result is their values. -/
def digitRun? (value? : Char → Option Nat) (cs : List Char) : Option (List Nat) :=
  go false cs
where
  go (afterDigit : Bool) : List Char → Option (List Nat)
    | [] => if afterDigit then some [] else none
    | '_' :: rest => if afterDigit then go false rest else none
    | c :: rest => do
      let d ← value? c
      let ds ← go true rest
      return d :: ds

/-- The number that a list of digits writes in a base. -/
def ofDigits (base : Nat) (ds : List Nat) : Nat := ds.foldl (fun acc d => acc * base + d) 0

/-- A sign and what follows it. -/
def splitSign : List Char → Bool × List Char
  | '-' :: cs => (true, cs)
  | '+' :: cs => (false, cs)
  | cs => (false, cs)

/-- An integer in decimal digits of any script. -/
def readInt? (s : String) : Option Int := do
  let (negative, body) := splitSign (trimChars s.toList)
  let ds ← digitRun? decimalValue? body
  let n := ofDigits 10 ds
  return if negative then -(n : Int) else (n : Int)

/-- The value of a digit below a base of at most sixteen, in any script. -/
def digitIn? (base : Nat) (c : Char) : Option Nat :=
  ((hexDigit? c).or (decimalValue? c)).filter (· < base)

/-- A natural number in digits of a base; blanks may follow. -/
def readDigits? (base : Nat) (cs : List Char) : Option Nat :=
  (digitRun? (digitIn? base) (dropEndWhile isBlank cs)).map (ofDigits base)

/-- An integer in hexadecimal digits, with or without the mark `0x`. -/
def readHex? (s : String) : Option Int := do
  let (negative, body) := splitSign (trimChars s.toList)
  let body := match body with
    | '0' :: 'x' :: rest => unmark rest
    | '0' :: 'X' :: rest => unmark rest
    | cs => cs
  let ds ← digitRun? (digitIn? 16) body
  let n := ofDigits 16 ds
  return if negative then -(n : Int) else (n : Int)
where
  unmark : List Char → List Char
    | '_' :: rest => rest
    | rest => rest

/-- A signed decimal fraction before rounding: `digits * 10 ^ exponent`. -/
structure Fraction where
  negative : Bool
  digits : Nat
  exponent : Int

/-- The double nearest to a decimal fraction. -/
def Fraction.toFloat (f : Fraction) : Float :=
  let size : Int := (digitsOf f.digits).length + f.exponent
  let x :=
    if f.digits = 0 then 0.0
    else if 400 < size then 1.0 / 0.0
    else if size < -400 then 0.0
    else if f.exponent < 0 then Float.ofScientific f.digits true (-f.exponent).toNat
    else Float.ofScientific f.digits false f.exponent.toNat
  if f.negative then -x else x

/-- The values of digits, of which there may be none. -/
def optionalRun? (cs : List Char) : Option (List Nat) :=
  if cs.isEmpty then some [] else digitRun? decimalValue? cs

/-- A signed exponent. -/
def readExponent? (cs : List Char) : Option Int := do
  let (negative, body) := splitSign cs
  let ds ← digitRun? decimalValue? body
  let n := ofDigits 10 ds
  return if negative then -(n : Int) else (n : Int)

private def asciiLower (cs : List Char) : List Char :=
  cs.map fun c => if 'A' ≤ c && c ≤ 'Z' then Char.ofNat (c.toNat + 32) else c

/-- A floating-point number: digits with an optional point and exponent, or an infinity, or the
value that is not a number. -/
def readFloat? (s : String) : Option Float := do
  let (negative, body) := splitSign (trimChars s.toList)
  let word := String.ofList (asciiLower body)
  if word == "inf" || word == "infinity" then
    return if negative then -(1.0 / 0.0) else 1.0 / 0.0
  else if word == "nan" then return 0.0 / 0.0
  else
    let mantissa := body.takeWhile fun c => c != 'e' && c != 'E'
    let tail := body.drop mantissa.length
    let whole := mantissa.takeWhile (· != '.')
    let places := (mantissa.drop whole.length).drop 1
    if whole.isEmpty && places.isEmpty then none
    else
      let ds ← optionalRun? whole
      let fs ← optionalRun? places
      let e ← if tail.isEmpty then some 0 else readExponent? (tail.drop 1)
      return Fraction.toFloat ⟨negative, ofDigits 10 (ds ++ fs), e - fs.length⟩

end WidgetBridge.Number
