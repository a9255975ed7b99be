import HingeLoss.Standard.Linear

/-!
# Quadratic forms

A quadratic form is a sum of coefficients times products of two variables, plus a linear form
without constant, plus a constant. The key of a product is a pair of variables, and its coefficient
is the whole coefficient of that product.
-/

namespace HingeLoss

/-- `constant + linear + Σ coefficient * first * second`. -/
structure QuadraticForm (K : Type) where
  products : Coefficients (VarId × VarId) K
  /-- The linear part, the constant of which is zero in every form made from expressions. -/
  linear : LinearForm K
  constant : K

namespace QuadraticForm

variable {K : Type}

def isLinear (form : QuadraticForm K) : Bool := form.products.isEmpty

/-- The distinct variables of the form, in increasing order. -/
def variableIds (form : QuadraticForm K) : List VarId :=
  VarId.sortedDistinct
    (form.products.keys.flatMap (fun (first, second) => [first, second]) ++ form.linear.variableIds)

variable [Scalar K]

def zero : QuadraticForm K := ⟨.empty, .zero, 0⟩

/-- A linear form, the constant of which becomes the constant of the quadratic form. -/
def ofLinear (linear : LinearForm K) : QuadraticForm K :=
  ⟨.empty, { linear with constant := 0 }, linear.constant⟩

/-- `coefficient * variable ^ 2`. -/
def square (id : VarId) (coefficient : K) : QuadraticForm K :=
  ⟨.single (id, id) coefficient, .zero, 0⟩

/-- The sum of two forms: products, linear parts and constants are added separately. -/
def add (left right : QuadraticForm K) : QuadraticForm K :=
  ⟨left.products.add right.products, left.linear.add right.linear,
    left.constant + right.constant⟩

/-- A multiple of a form, with the factor on the right of each coefficient. -/
def scale (form : QuadraticForm K) (factor : K) : QuadraticForm K :=
  ⟨form.products.scale factor, form.linear.scale factor, form.constant * factor⟩

/-- The value of the form when each variable has the given value. -/
def valueAt (form : QuadraticForm K) (values : VarId → K) : K :=
  form.products.entries.foldr
    (fun (pair, coefficient) rest => coefficient * (values pair.1 * values pair.2) + rest)
    (form.linear.valueAt values + form.constant)

end QuadraticForm

end HingeLoss
