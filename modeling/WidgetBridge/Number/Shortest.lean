import WidgetBridge.Number.Binary

/-!
# The shortest decimal that reads back

`shortest` gives the fewest decimal digits that round to a given double, and of the decimals with
that many digits the nearest one. `Binary.reads` states when a decimal rounds to the double: it
lies in the interval between the midpoints to the two neighbours, whose ends count exactly when
the mantissa is even.
-/

namespace WidgetBridge.Number

/-- A positive decimal number `digits * 10 ^ exponent`. -/
structure Decimal where
  digits : Nat
  exponent : Int
  deriving Repr, DecidableEq

/-- Four times a value, and both ends of its rounding interval, over one denominator, when the
decimal unit is `10 ^ p`. -/
structure Scaled where
  low : Nat
  value : Nat
  high : Nat
  unit : Nat

/-- The rounding interval of a double measured in units of `10 ^ p`. -/
def Binary.scale (b : Binary) (p : Int) : Scaled :=
  let up := Nat.pow 2 b.exponent.toNat * Nat.pow 10 (-p).toNat
  let down := Nat.pow 2 (-b.exponent).toNat * Nat.pow 10 p.toNat
  { low := (4 * b.mantissa - if b.narrowBelow then 1 else 2) * up
    value := 4 * b.mantissa * up
    high := (4 * b.mantissa + 2) * up
    unit := 4 * down }

/-- Whether the decimal `d`, in the unit of `s`, rounds to the double that `s` measures. -/
def Scaled.reads (s : Scaled) (even : Bool) (d : Nat) : Bool :=
  if even then s.low ≤ d * s.unit && d * s.unit ≤ s.high
  else s.low < d * s.unit && d * s.unit < s.high

/-- Of the two neighbours of the value on the decimal grid, the one that reads back; of two such
the nearer, and at equal distance the even one. -/
def Scaled.pick? (s : Scaled) (even : Bool) : Option Nat :=
  let d := s.value / s.unit
  let below := s.reads even d && d != 0
  let above := s.reads even (d + 1)
  let rest := s.value % s.unit
  if below && above then
    if 2 * rest < s.unit || (2 * rest = s.unit && d % 2 = 0) then some d else some (d + 1)
  else if below then some d
  else if above then some (d + 1)
  else none

/-- The place of the first digit: the `k` with `10 ^ k ≤ value < 10 ^ (k + 1)`. -/
def Binary.magnitude (b : Binary) : Int :=
  if b.den ≤ b.num then ((Nat.toDigits 10 (b.num / b.den)).length : Int) - 1
  else -(climb 400 1 (b.num * 10) : Int)
where
  climb : Nat → Nat → Nat → Nat
    | 0, j, _ => j
    | fuel + 1, j, n => if b.den ≤ n then j else climb fuel (j + 1) (n * 10)

/-- Removes trailing zeros from the digits. -/
def Decimal.normalize : Nat → Decimal → Decimal
  | 0, d => d
  | fuel + 1, d =>
    if d.digits % 10 = 0 && d.digits != 0 then normalize fuel ⟨d.digits / 10, d.exponent + 1⟩
    else d

/-- The first grid, from one digit on, that holds a decimal which reads back. -/
def Binary.search (b : Binary) (k : Int) : Nat → Nat → Decimal
  | 0, n => ⟨(b.scale (k - n)).value / (b.scale (k - n)).unit, k - n⟩
  | fuel + 1, n =>
    match (b.scale (k - n)).pick? (b.mantissa % 2 = 0) with
    | some d => ⟨d, k - n⟩
    | none => search b k fuel (n + 1)

/-- The shortest decimal that rounds to a double other than zero. -/
def Binary.shortest (b : Binary) : Decimal :=
  (b.search b.magnitude 17 0).normalize 20

end WidgetBridge.Number
