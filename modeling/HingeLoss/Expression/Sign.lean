import HingeLoss.Expression.Basic

/-!
# Signs

What the shape of an expression tells about the sign of its values.
-/

namespace HingeLoss

/-- What is known about the sign of the values of an expression. -/
inductive Sign where
  | nonnegative
  | nonpositive
  | zero
  | unknown
deriving DecidableEq, Repr

namespace Sign

/-- No value is negative. The sign of zero counts on both sides. -/
def isNonneg : Sign → Bool
  | .nonnegative | .zero => true
  | _ => false

def isNonpos : Sign → Bool
  | .nonpositive | .zero => true
  | _ => false

def negate : Sign → Sign
  | .nonnegative => .nonpositive
  | .nonpositive => .nonnegative
  | .zero => .zero
  | .unknown => .unknown

/-- The sign of a number; a missing number has none. -/
def ofValue {K : Type} [Scalar K] (value : K) : Sign :=
  if value == 0 then .zero
  else if 0 < value then .nonnegative
  else if value < 0 then .nonpositive
  else .unknown

/-- The sign of a sum. Nothing is known once values of both signs may meet. -/
def add : Sign → Sign → Sign
  | .zero, right => right
  | left, .zero => left
  | .nonnegative, .nonnegative => .nonnegative
  | .nonpositive, .nonpositive => .nonpositive
  | _, _ => .unknown

/-- The sign of a product. Zero wins over everything, also over an unknown sign. -/
def mul : Sign → Sign → Sign
  | .zero, _ => .zero
  | _, .zero => .zero
  | .nonnegative, .nonnegative => .nonnegative
  | .nonpositive, .nonpositive => .nonnegative
  | .nonnegative, .nonpositive => .nonpositive
  | .nonpositive, .nonnegative => .nonpositive
  | _, _ => .unknown

end Sign

namespace Expression

variable {K : Type} [Scalar K]

mutual

/-- The sign of an expression, from the signs of its parts. A variable has one only if it is
declared to be nonnegative. -/
def sign : Expression K → Sign
  | .var v => if v.nonneg then .nonnegative else .unknown
  | .const value => .ofValue value
  | .add left right => left.sign.add right.sign
  | .neg body => body.sign.negate
  | .mul left right => left.sign.mul right.sign
  | .sum terms => sumSign .zero terms
  | .pos _ => .nonnegative
  | .square _ => .nonnegative

/-- Adds the signs of the terms to `accumulated`. -/
def sumSign (accumulated : Sign) : List (Expression K) → Sign
  | [] => accumulated
  | term :: rest => sumSign (accumulated.add term.sign) rest

end

end Expression

end HingeLoss
