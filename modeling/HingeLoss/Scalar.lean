import HingeLoss.Decimal.Numeral

/-!
# Scalars

Problems are stated over a type of numbers with arithmetic, comparisons and a text form. Programs
run over `Float`; because no definition assumes more than this interface, the same definitions can
be read over exact numbers.
-/

namespace HingeLoss

/-- The numbers of a problem. Nothing is required of the operations: on doubles, a missing number
differs from itself and addition is not associative. -/
class Scalar (K : Type) extends
    Zero K, One K, Add K, Neg K, Mul K, Div K, LT K, LE K, BEq K, OfScientific K where
  decidableLT : DecidableLT K
  decidableLE : DecidableLE K
  /-- Whether the number is neither infinite nor missing. -/
  isFinite : K → Bool
  text : K → String

-- A type that already has a zero and a one keeps them.
attribute [instance (low)] Scalar.toZero Scalar.toOne

namespace Scalar

variable {K : Type} [Scalar K]

instance : DecidableLT K := Scalar.decidableLT

instance : DecidableLE K := Scalar.decidableLE

def two : K := 1 + 1

/-- The larger of a number and zero; zero if the number is missing. -/
def positivePart (value : K) : K :=
  if 0 < value then value else 0

/-- The sum of a list, added up from zero and from left to right. -/
def total (values : List K) : K :=
  values.foldl (· + ·) 0

end Scalar

instance : Scalar Float where
  zero := 0.0
  one := 1.0
  decidableLT := inferInstance
  decidableLE := inferInstance
  isFinite := Float.isFinite
  text := Decimal.NumeralStyle.plain.render

end HingeLoss
