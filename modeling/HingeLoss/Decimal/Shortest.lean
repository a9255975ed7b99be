import HingeLoss.Decimal.Binary

/-!
# The fewest digits that read back

A positive double is the nearest double to every real number of an interval around it, the ends of
which belong to it exactly when its significand is even. `shortest` tries decimal grids with one,
two, and up to seventeen significant digits. On each grid only the two neighbours of the value can
lie in the interval, so the first grid with a hit has the fewest digits, and of two hits the nearer
one is taken.
-/

namespace HingeLoss.Decimal

/-- A decimal number without sign: `digits * 10 ^ exponent`. -/
structure Digits where
  digits : Nat
  exponent : Int
deriving DecidableEq, Repr

namespace Digits

def text (number : Digits) : List Char :=
  Nat.toDigits 10 number.digits

/-- The place of the decimal point, counted from the left of the first digit. -/
def pointPlace (number : Digits) : Int :=
  number.text.length + number.exponent

/-- The same number without zeros at its end. -/
def trimmed (number : Digits) : Digits :=
  go number.digits number.digits number.exponent
where
  go : Nat → Nat → Int → Digits
    | 0, digits, exponent => ⟨digits, exponent⟩
    | fuel + 1, digits, exponent =>
        if digits ≠ 0 ∧ digits % 10 = 0 then go fuel (digits / 10) (exponent + 1)
        else ⟨digits, exponent⟩

end Digits

/-- A power as a fraction: numerator and denominator, one of which is one. -/
def powerParts (base : Nat) (exponent : Int) : Nat × Nat :=
  (Nat.pow base exponent.toNat, Nat.pow base (-exponent).toNat)

/-- A quarter of the gap above a double, its interval and its value counted in such quarters. -/
structure RoundingInterval where
  quarter : Int
  low : Nat
  value : Nat
  high : Nat
  closed : Bool

/-- The reals that round to `significand * 2 ^ exponent`. Below a power of two the gap is half
as wide. -/
def RoundingInterval.ofParts (significand : Nat) (exponent : Int) : RoundingInterval where
  quarter := exponent - 2
  low :=
    if significand = Binary.normalSignificand ∧ Binary.leastExponent < exponent then
      4 * significand - 1
    else
      4 * significand - 2
  value := 4 * significand
  high := 4 * significand + 2
  closed := significand % 2 == 0

namespace RoundingInterval

/-- Whether `multiple` steps of the grid lie in the interval, given the grid step and the quarter
brought to a common denominator. -/
def contains (interval : RoundingInterval) (step quarter multiple : Nat) : Bool :=
  if interval.closed then
    interval.low * quarter ≤ multiple * step && multiple * step ≤ interval.high * quarter
  else
    interval.low * quarter < multiple * step && multiple * step < interval.high * quarter

/-- The multiple of `10 ^ gridExponent` that lies in the interval and is nearest to the value. -/
def hit? (interval : RoundingInterval) (gridExponent : Int) : Option Digits :=
  let (tenUp, tenDown) := powerParts 10 gridExponent
  let (twoUp, twoDown) := powerParts 2 interval.quarter
  let step := tenUp * twoDown
  let quarter := twoUp * tenDown
  let below := interval.value * quarter / step
  let above := below + 1
  let belowFits := 0 < below && interval.contains step quarter below
  let aboveFits := interval.contains step quarter above
  let belowGap := interval.value * quarter - below * step
  let aboveGap := above * step - interval.value * quarter
  if belowFits && (!aboveFits || belowGap < aboveGap || (belowGap == aboveGap && below % 2 == 0))
  then some ⟨below, gridExponent⟩
  else if aboveFits then some ⟨above, gridExponent⟩
  else none

end RoundingInterval

/-- How many zeros follow the decimal point before the first digit of `numerator / denominator`,
which is less than one. -/
def leadingZeros (denominator : Nat) : Nat → Nat → Nat
  | 0, _ => 0
  | fuel + 1, numerator =>
      if denominator ≤ 10 * numerator then 0
      else leadingZeros denominator fuel (10 * numerator) + 1

/-- The place of the decimal point of `significand * 2 ^ exponent`, counted from the left of its
first digit. -/
def binaryPointPlace (significand : Nat) (exponent : Int) : Int :=
  let (up, down) := powerParts 2 exponent
  let whole := significand * up / down
  if whole = 0 then
    -(leadingZeros down (down.log2 + 1) (significand * up) : Int)
  else
    (Nat.toDigits 10 whole).length

/-- The shortest decimal number that reads back as `significand * 2 ^ exponent`, and among the
shortest the nearest. -/
def shortest (significand : Nat) (exponent : Int) : Digits :=
  let interval := RoundingInterval.ofParts significand exponent
  let place := binaryPointPlace significand exponent
  let hit := (List.range 17).findSome? fun (count : Nat) =>
    interval.hit? (place - (count + 1 : Nat))
  match hit with
  | some number => number.trimmed
  | none => ⟨significand, exponent⟩

end HingeLoss.Decimal
