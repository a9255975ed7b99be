import HingeLoss.Expression.Basic

/-!
# Evaluation

The value of an expression at an assignment of values to variables. Every variable of the
expression needs a value, also one that is multiplied by zero.
-/

namespace HingeLoss

/-- Values for some of the variables. -/
abbrev Assignment (K : Type) := VarId → Option K

namespace Expression

variable {K : Type} [Scalar K]

mutual

/-- The value of the expression, absent if a variable has none. Sums are added up from zero, from
left to right. -/
def eval (assignment : Assignment K) : Expression K → Option K
  | .var v => assignment v.id
  | .const value => some value
  | .add left right =>
      (left.eval assignment).bind fun leftValue =>
        (right.eval assignment).map fun rightValue => leftValue + rightValue
  | .neg body => (body.eval assignment).map fun value => -value
  | .mul left right =>
      (left.eval assignment).bind fun leftValue =>
        (right.eval assignment).map fun rightValue => leftValue * rightValue
  | .sum terms => evalSum assignment 0 terms
  | .pos body => (body.eval assignment).map Scalar.positivePart
  | .square body => (body.eval assignment).map fun value => value * value

/-- Adds the values of the terms to `accumulated`. -/
def evalSum (assignment : Assignment K) (accumulated : K) : List (Expression K) → Option K
  | [] => some accumulated
  | term :: rest =>
      (term.eval assignment).bind fun value => evalSum assignment (accumulated + value) rest

end

end Expression

end HingeLoss
