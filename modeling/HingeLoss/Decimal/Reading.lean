/-!
# Reading decimal numbers

A decimal numeral denotes a digit string scaled by a power of ten, and the double read from it is
the nearest one. The module also reads counts, which are whole numbers of limited size.
-/

namespace HingeLoss.Decimal

/-- The number that decimal digits spell. -/
def digitsValue (digits : List Char) : Nat :=
  digits.foldl (fun value digit => 10 * value + (digit.toNat - '0'.toNat)) 0

/-- The double nearest to `digits * 10 ^ exponent`, with the sign. Numbers beyond every finite
double become infinite and numbers below every positive double become zero, so the power of ten is
only computed when it is of moderate size. The exact number is rounded once, however many digits it
has; a reader that rounds the digits and the scaled number separately may return a neighbour of this
double instead. -/
def nearestDouble (negative : Bool) (digits : Nat) (exponent : Int) : Float :=
  let place := (Nat.toDigits 10 digits).length + exponent
  let magnitude : Float :=
    if digits = 0 ∨ place < -330 then 0
    else if 310 < place then 1 / 0
    else Float.ofScientific digits (exponent < 0) exponent.natAbs
  if negative then -magnitude else magnitude

/-- Why a text is no numeral. -/
inductive NumeralFault where
  | invalidFloat
  | emptyFloat
  | invalidDigit
  | emptyCount
  | tooLarge
deriving DecidableEq, Repr

def NumeralFault.message : NumeralFault → String
  | .invalidFloat => "invalid float literal"
  | .emptyFloat => "cannot parse float from empty string"
  | .invalidDigit => "invalid digit found in string"
  | .emptyCount => "cannot parse integer from empty string"
  | .tooLarge => "number too large to fit in target type"

/-- An optional sign and what follows it; `true` for a minus sign. -/
def splitSign : List Char → Bool × List Char
  | '-' :: rest => (true, rest)
  | '+' :: rest => (false, rest)
  | text => (false, text)

/-- The exponent behind its mark: an optional sign and at least one digit. -/
def exponentPart? (text : List Char) : Option Int :=
  let (negative, digits) := splitSign text
  if digits.isEmpty || !digits.all Char.isDigit then none
  else if negative then some (-(digitsValue digits : Int))
  else some (digitsValue digits)

/-- An unsigned numeral: digits with at most one point, at least one digit, and an optional
exponent. -/
def magnitude? (text : List Char) : Option (Nat × Int) :=
  let whole := text.takeWhile Char.isDigit
  let afterWhole := text.dropWhile Char.isDigit
  let (fraction, rest) :=
    match afterWhole with
    | '.' :: tail => (tail.takeWhile Char.isDigit, tail.dropWhile Char.isDigit)
    | tail => ([], tail)
  if whole.isEmpty && fraction.isEmpty then none
  else
    let digits := digitsValue (whole ++ fraction)
    let scale : Int := -(fraction.length : Int)
    match rest with
    | [] => some (digits, scale)
    | mark :: tail =>
        if mark = 'e' ∨ mark = 'E' then (exponentPart? tail).map fun exponent =>
          (digits, scale + exponent)
        else none

/-- Reads a double: a signed numeral, or one of the words for infinity and for no number, in any
mix of upper and lower case. -/
def readFloat (text : String) : Except NumeralFault Float :=
  if text.isEmpty then .error .emptyFloat
  else
    let (negative, unsigned) := splitSign text.toList
    let word := unsigned.map Char.toLower
    if word = "inf".toList ∨ word = "infinity".toList then
      .ok (if negative then -(1 / 0) else 1 / 0)
    else if word = "nan".toList then .ok (0 / 0)
    else
      match magnitude? unsigned with
      | some (digits, exponent) => .ok (nearestDouble negative digits exponent)
      | none => .error .invalidFloat

/-- Adds digits to a count from left to right; the first digit that is none, or that takes the
count past the limit, decides the fault. -/
def countDigits (limit : Nat) : Nat → List Char → Except NumeralFault Nat
  | value, [] => .ok value
  | value, digit :: rest =>
      if !digit.isDigit then .error .invalidDigit
      else
        let next := 10 * value + (digit.toNat - '0'.toNat)
        if limit < next then .error .tooLarge else countDigits limit next rest

/-- Reads a count up to a limit, which may carry a plus sign. -/
def readCount (limit : Nat) (text : String) : Except NumeralFault Nat :=
  match text.toList with
  | [] => .error .emptyCount
  | ['+'] => .error .invalidDigit
  | '+' :: digits => countDigits limit 0 digits
  | digits => countDigits limit 0 digits

end HingeLoss.Decimal
