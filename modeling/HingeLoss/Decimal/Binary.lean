/-!
# Doubles as exact numbers

A double is a sign with a significand scaled by a power of two, an infinity, or no number.
`Binary.ofFloat` reads these parts off the bits. Everything that writes a double in decimal works
on the exact parts, in natural number arithmetic, and never on rounded intermediate values.
-/

namespace HingeLoss.Decimal

/-- The parts of a double. A finite one stands for `significand * 2 ^ exponent`, with the sign. -/
inductive Binary where
  | notANumber
  | infinite (negative : Bool)
  | finite (negative : Bool) (significand : Nat) (exponent : Int)
deriving DecidableEq, Repr

namespace Binary

/-- The exponent of the smallest positive double, which is a power of two. -/
def leastExponent : Int := -1074

/-- Significands of normal doubles lie between this number and its double. -/
def normalSignificand : Nat := Nat.pow 2 52

/-- Takes a double apart into its sign, its biased exponent and its fraction, which has a leading
one unless the exponent is the least. -/
def ofFloat (value : Float) : Binary :=
  let bits := value.toBits.toNat
  let negative := bits / Nat.pow 2 63 == 1
  let biased := bits / normalSignificand % Nat.pow 2 11
  let fraction := bits % normalSignificand
  if biased = Nat.pow 2 11 - 1 then
    if fraction = 0 then .infinite negative else .notANumber
  else if biased = 0 then
    .finite negative fraction leastExponent
  else
    .finite negative (normalSignificand + fraction) (leastExponent + (biased - 1 : Nat))

end Binary

end HingeLoss.Decimal
