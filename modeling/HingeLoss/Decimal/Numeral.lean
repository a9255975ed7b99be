import HingeLoss.Decimal.Shortest

/-!
# Numerals

How a double is written, once its digits are chosen: where positional notation ends, how a whole
number is marked, how an exponent is signed, and what stands for the values that are no finite
number. A format is one `NumeralStyle`; the writing itself is shared.
-/

namespace HingeLoss.Decimal

/-- A way of writing doubles. -/
structure NumeralStyle where
  /-- The places of the decimal point for which a number is written out, all of them if absent. -/
  positional : Option (Int × Int)
  /-- What follows the digits of a whole number that is written out. -/
  wholeMark : String
  /-- Whether a nonnegative exponent carries a sign. -/
  signedExponent : Bool
  notANumber : String
  infinity : String
  negativeInfinity : String

namespace NumeralStyle

/-- Plain text: every digit is written out, and a whole number shows no point. -/
def plain : NumeralStyle where
  positional := none
  wholeMark := ""
  signedExponent := false
  notANumber := "NaN"
  infinity := "inf"
  negativeInfinity := "-inf"

/-- Numbers in JSON documents, where no text stands for infinities and missing numbers. -/
def json : NumeralStyle where
  positional := some (-4, 16)
  wholeMark := ".0"
  signedExponent := true
  notANumber := "null"
  infinity := "null"
  negativeInfinity := "null"

/-- Numbers in log events. -/
def field : NumeralStyle where
  positional := some (-3, 16)
  wholeMark := ".0"
  signedExponent := false
  notANumber := "NaN"
  infinity := "inf"
  negativeInfinity := "-inf"

/-- Positional notation, filled up with zeros on either side of the digits. -/
def writtenOut (style : NumeralStyle) (number : Digits) : String :=
  let place := number.pointPlace
  let text := number.text
  if place ≤ 0 then
    "0." ++ String.ofList (List.replicate (-place).toNat '0' ++ text)
  else if (text.length : Int) ≤ place then
    String.ofList (text ++ List.replicate (place - text.length).toNat '0') ++ style.wholeMark
  else
    String.ofList (text.take place.toNat) ++ "." ++ String.ofList (text.drop place.toNat)

/-- One digit before the point, and an exponent. -/
def scientific (style : NumeralStyle) (number : Digits) : String :=
  let exponent := number.pointPlace - 1
  let sign := if exponent < 0 then "-" else if style.signedExponent then "+" else ""
  let mantissa :=
    match number.text with
    | [] => ""
    | [digit] => String.ofList [digit]
    | digit :: rest => String.ofList (digit :: '.' :: rest)
  mantissa ++ "e" ++ sign ++ toString exponent.natAbs

/-- The text of a positive number: written out in the range of the style, and with an exponent
outside of it. -/
def positive (style : NumeralStyle) (number : Digits) : String :=
  match style.positional with
  | none => style.writtenOut number
  | some (least, most) =>
      if least ≤ number.pointPlace ∧ number.pointPlace ≤ most then style.writtenOut number
      else style.scientific number

/-- The text of a double. Its digits are the fewest that read back as the same double. -/
def render (style : NumeralStyle) (value : Float) : String :=
  match Binary.ofFloat value with
  | .notANumber => style.notANumber
  | .infinite false => style.infinity
  | .infinite true => style.negativeInfinity
  | .finite negative significand exponent =>
      let sign := if negative then "-" else ""
      if significand = 0 then sign ++ "0" ++ style.wholeMark
      else sign ++ style.positive (shortest significand exponent)

end NumeralStyle

end HingeLoss.Decimal
