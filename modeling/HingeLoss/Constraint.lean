import HingeLoss.Expression.Curvature

/-!
# Constraints

A constraint holds an expression at zero or above zero. Comparisons are reduced to one of the two
by taking a difference, from which a literal zero on the right is left out.
-/

namespace HingeLoss

/-- A constraint of an optimization problem. -/
inductive Constraint (K : Type) where
  /-- The expression equals zero. -/
  | zero (expression : Expression K)
  /-- The expression is at least zero. -/
  | nonneg (expression : Expression K)

namespace Constraint

variable {K : Type}

/-- The expression that is held at zero or above it. -/
def expression : Constraint K → Expression K
  | .zero expression => expression
  | .nonneg expression => expression

/-- The distinct variables of a constraint, in increasing order. -/
def variableIds (constraint : Constraint K) : List VarId :=
  constraint.expression.variableIds

variable [Scalar K]

/-- `left - right`, or `left` itself if `right` is a literal zero. -/
def difference (left right : Expression K) : Expression K :=
  match right with
  | .const value => if value == 0 then left else left.sub right
  | _ => left.sub right

/-- The constraint that two expressions are equal. -/
def equal (left right : Expression K) : Constraint K := .zero (difference left right)

/-- The constraint that the left expression is at most the right one; their difference is taken the
other way round. -/
def atMost (left right : Expression K) : Constraint K := .nonneg (difference right left)

/-- The constraint that the left expression is at least the right one. -/
def atLeast (left right : Expression K) : Constraint K := .nonneg (difference left right)

/-- The rule of disciplined convex programming: only affine expressions may be held at zero, and
only concave ones above it. -/
def isDcp : Constraint K → Bool
  | .zero expression => expression.isAffine
  | .nonneg expression => expression.isConcave

end Constraint

end HingeLoss
