import HingeLoss.Scalar

/-!
# Rational scalars

The exact reading of a problem: every rational number is finite, and no operation rounds.
-/

namespace HingeLoss

instance : Scalar Rat where
  zero := 0
  one := 1
  decidableLT := inferInstance
  decidableLE := inferInstance
  isFinite _ := true
  text value := toString value

end HingeLoss
