import HingeLoss.Expression.Sign

/-!
# Curvature

The composition rules of disciplined convex programming. They certify from the shape of an
expression that it is constant, affine, convex or concave; an expression that no rule covers has
unknown curvature, even if it happens to be convex.
-/

namespace HingeLoss

/-- How an expression depends on its variables, as far as the rules certify it. -/
inductive Curvature where
  | constant
  | affine
  | convex
  | concave
  | unknown
deriving DecidableEq, Repr

namespace Curvature

/-- Known to be convex; constant and affine functions are. -/
def isConvex : Curvature → Bool
  | .constant | .affine | .convex => true
  | _ => false

def isConcave : Curvature → Bool
  | .constant | .affine | .concave => true
  | _ => false

def isAffine : Curvature → Bool
  | .constant | .affine => true
  | _ => false

/-- Known to be constant. An expression of this curvature need not be a literal. -/
def isConstant : Curvature → Bool
  | .constant => true
  | _ => false

/-- The curvature of the opposite, which turns convex and concave functions over. -/
def negate : Curvature → Curvature
  | .convex => .concave
  | .concave => .convex
  | other => other

/-- The curvature of a sum: that of the part that is further from constant, unless a convex part
meets a concave one. -/
def add : Curvature → Curvature → Curvature
  | .unknown, _ => .unknown
  | _, .unknown => .unknown
  | .constant, right => right
  | left, .constant => left
  | .affine, right => right
  | left, .affine => left
  | .convex, .convex => .convex
  | .concave, .concave => .concave
  | .convex, .concave => .unknown
  | .concave, .convex => .unknown

/-- The curvature of a multiple. A zero factor leaves nothing but a constant, and every factor
that is not positive otherwise turns the function over. -/
def scale {K : Type} [Scalar K] (factor : K) (curvature : Curvature) : Curvature :=
  if factor == 0 then .constant
  else if 0 < factor then curvature
  else curvature.negate

/-- The curvature of the positive part, which is convex and increasing. -/
def positivePart (inner : Curvature) : Curvature :=
  if inner.isConstant then .constant
  else if inner.isConvex then .convex
  else .unknown

/-- The curvature of the square, which is convex, increasing above zero and decreasing below. -/
def square (inner : Curvature) (sign : Sign) : Curvature :=
  if inner.isConstant then .constant
  else if inner.isAffine then .convex
  else if (inner.isConvex && sign.isNonneg) || (inner.isConcave && sign.isNonpos) then .convex
  else .unknown

/-- The curvature of a product from those of its factors and the values of its literal factors.
Unless both factors are constant, one of them must be a literal; the left one is looked at
first. -/
def product {K : Type} [Scalar K] (left right : Curvature) (leftValue rightValue : Option K) :
    Curvature :=
  if left.isConstant && right.isConstant then .constant
  else
    match leftValue, rightValue with
    | some factor, _ => right.scale factor
    | none, some factor => left.scale factor
    | none, none => .unknown

end Curvature

namespace Expression

variable {K : Type} [Scalar K]

mutual

/-- The curvature of an expression, with one composition rule for each kind of node. -/
def curvature : Expression K → Curvature
  | .var _ => .affine
  | .const _ => .constant
  | .add left right => left.curvature.add right.curvature
  | .neg body => body.curvature.negate
  | .mul left right =>
      .product left.curvature right.curvature left.constant? right.constant?
  | .sum terms => sumCurvature .constant terms
  | .pos body => body.curvature.positivePart
  | .square body => body.curvature.square body.sign

/-- Adds the curvatures of the terms to `accumulated`. -/
def sumCurvature (accumulated : Curvature) : List (Expression K) → Curvature
  | [] => accumulated
  | term :: rest => sumCurvature (accumulated.add term.curvature) rest

end

/-- The rules certify the expression as convex. -/
def isConvex (expression : Expression K) : Bool := expression.curvature.isConvex

def isConcave (expression : Expression K) : Bool := expression.curvature.isConcave

def isAffine (expression : Expression K) : Bool := expression.curvature.isAffine

end Expression

end HingeLoss
