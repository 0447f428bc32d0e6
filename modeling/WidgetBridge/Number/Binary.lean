/-!
# Floating-point numbers as exact fractions

A finite double is `m * 2 ^ q` for integers `m` and `q`. `Binary.ofFloat?` reads both off the bit
pattern, so that rounding and printing are exact integer arithmetic.
-/

namespace WidgetBridge.Number

/-- A finite double, taken apart: its value is `mantissa * 2 ^ exponent`, negated if `negative`. -/
structure Binary where
  negative : Bool
  mantissa : Nat
  exponent : Int
  /-- Whether the gap to the next smaller double is half the gap to the next larger one. -/
  narrowBelow : Bool
  deriving Repr, DecidableEq

/-- The sign bit of a double. -/
def signBit (x : Float) : Bool := x.toBits.toNat / Nat.pow 2 63 = 1

/-- The parts of a finite double; `none` for infinities and for what is not a number. -/
def Binary.ofFloat? (x : Float) : Option Binary :=
  let bits := x.toBits.toNat
  let fraction : Nat := bits % Nat.pow 2 52
  let biased : Nat := bits / Nat.pow 2 52 % 2048
  let negative : Bool := bits / Nat.pow 2 63 = 1
  if biased = 2047 then none
  else if biased = 0 then some ⟨negative, fraction, -1074, false⟩
  else some ⟨negative, fraction + Nat.pow 2 52, (biased : Int) - 1075, fraction = 0 ∧ 1 < biased⟩

/-- Numerator of `mantissa * 2 ^ exponent` as a fraction. -/
def Binary.num (b : Binary) : Nat := b.mantissa * Nat.pow 2 b.exponent.toNat

/-- Denominator of `mantissa * 2 ^ exponent` as a fraction. -/
def Binary.den (b : Binary) : Nat := Nat.pow 2 (-b.exponent).toNat

/-- The integer nearest to `num / den`; a half goes to the even neighbour. -/
def roundHalfEven (num den : Nat) : Nat :=
  let low := num / den
  let twice := 2 * (num % den)
  if twice < den then low
  else if den < twice then low + 1
  else if low % 2 = 0 then low else low + 1

/-- A double that is a whole number. -/
def isWhole (x : Float) : Bool :=
  match Binary.ofFloat? x with
  | none => false
  | some b => b.num % b.den = 0

/-- The whole number that a double is nearest to, a half going to the even neighbour. -/
def roundFloat? (x : Float) : Option Int :=
  (Binary.ofFloat? x).map fun b =>
    let r := roundHalfEven b.num b.den
    if b.negative then -(r : Int) else (r : Int)

/-- The whole number that a double holds after its fraction is cut off. -/
def truncate? (x : Float) : Option Int :=
  (Binary.ofFloat? x).map fun b =>
    let r := b.num / b.den
    if b.negative then -(r : Int) else (r : Int)

/-- The double nearest to a decimal fraction with `places` places that is itself nearest to `x`. -/
def roundPlaces (x : Float) (places : Nat) : Float :=
  match Binary.ofFloat? x with
  | none => x
  | some b =>
    let r := roundHalfEven (b.num * Nat.pow 10 places) b.den
    let y := Float.ofScientific r true places
    if b.negative then -y else y

end WidgetBridge.Number
