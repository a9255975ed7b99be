import HingeLoss.Decimal.Numeral
import HingeLoss.Decimal.Reading
import HingeLoss.Json.Source

/-!
# JSON numbers

A numeral without fraction and exponent is a whole number if it fits into 64 bits, unsigned when
positive and signed when negative. All other numerals are doubles, and so is a negative zero.
-/

namespace HingeLoss.Json

/-- A number as a text gives it. -/
inductive Number where
  | natural (value : Nat)
  /-- A negative whole number, by its absolute value. -/
  | negative (magnitude : Nat)
  | float (value : Float)

namespace Number

/-- The first number that is too large for 64 bits without sign. -/
def unsignedLimit : Nat := Nat.pow 2 64

/-- The largest magnitude of a negative number of 64 bits. -/
def signedLimit : Nat := Nat.pow 2 63

/-- The nearest double. -/
def toFloat : Number → Float
  | .natural value => Decimal.nearestDouble false value 0
  | .negative magnitude => Decimal.nearestDouble true magnitude 0
  | .float value => value

/-- The number as something that was met in the place of a wanted value. -/
def unexpected : Number → Unexpected
  | .natural value => .integer (toString value)
  | .negative magnitude => .integer ("-" ++ toString magnitude)
  | .float value => .float (Decimal.NumeralStyle.json.render value)

/-- The double nearest to `digits * 10 ^ exponent`, unless it is beyond all finite doubles. Reading
is correctly rounded, which JSON libraries promise only where they are asked to; that numbers come
back as they were written rests on it. -/
def ofParts (negative : Bool) (digits : Nat) (exponent : Int) : Except Fault Number :=
  let value := Decimal.nearestDouble negative digits exponent
  if value.isInf then .error .numberOutOfRange else .ok (.float value)

/-- The whole number with a sign, or the nearest double if it does not fit into 64 bits. A negative
zero is a double. -/
def ofWhole (negative : Bool) (value : Nat) : Except Fault Number :=
  if negative then
    if 0 < value ∧ value ≤ signedLimit then .ok (.negative value) else ofParts true value 0
  else if value < unsignedLimit then .ok (.natural value)
  else ofParts false value 0

end Number

namespace Reader

/-- Reads as many digits as there are, which may be none. -/
def digits : Reader (List Char) :=
  modifyGet fun source =>
    ((source.takeWhile isDigit).filterMap id, source.dropWhile isDigit)

/-- Reads the digits before the point: at least one, and nothing after a leading zero. -/
def wholeDigits : Reader (List Char) := do
  match ← get with
  | [] => throw .eofInValue
  | some '0' :: rest =>
      if rest.head?.any isDigit then throw .invalidNumber
      set rest
      return ['0']
  | character :: _ => if isDigit character then digits else throw .invalidNumber

/-- Reads an optional fraction: a point and at least one digit. -/
def fraction : Reader (Option (List Char)) := do
  match ← get with
  | some '.' :: rest =>
      set rest
      let found ← digits
      if found.isEmpty then
        if (← get).isEmpty then throw .eofInValue else throw .invalidNumber
      return some found
  | _ => return none

/-- Reads an optional sign, which is true for a minus. -/
def exponentSign : Reader Bool := do
  match ← get with
  | some '+' :: rest =>
      set rest
      return false
  | some '-' :: rest =>
      set rest
      return true
  | _ => return false

/-- Reads an optional exponent: its mark, an optional sign, and at least one digit. -/
def exponent : Reader (Option Int) := do
  match ← get with
  | some mark :: rest =>
      if mark = 'e' ∨ mark = 'E' then
        set rest
        let negative ← exponentSign
        let found ← digits
        if found.isEmpty then
          if (← get).isEmpty then throw .eofInValue else throw .invalidNumber
        let value : Int := Decimal.digitsValue found
        return some (if negative then -value else value)
      else return none
  | _ => return none

/-- Reads a number behind its sign. -/
def unsignedNumber (negative : Bool) : Reader Number := do
  let whole ← wholeDigits
  let fractionDigits ← fraction
  let exponentValue ← exponent
  if fractionDigits.isNone && exponentValue.isNone then
    liftM (Number.ofWhole negative (Decimal.digitsValue whole))
  else
    let places := fractionDigits.getD []
    liftM (Number.ofParts negative (Decimal.digitsValue (whole ++ places))
      (exponentValue.getD 0 - places.length))

/-- Reads a number, the first character of which has been seen. -/
def number : Reader Number := do
  match ← get with
  | some '-' :: rest =>
      set rest
      unsignedNumber true
  | _ => unsignedNumber false

end Reader

end HingeLoss.Json
