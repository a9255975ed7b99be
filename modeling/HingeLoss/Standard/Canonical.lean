import HingeLoss.Expression.Curvature
import HingeLoss.Standard.Cone
import HingeLoss.Standard.Quadratic

/-!
# Canonical forms

Canonicalization turns an expression into a linear or quadratic form plus cone constraints on
auxiliary variables. Affine parts become linear. A positive part is replaced by an auxiliary
variable that lies above it. A square is kept as a quadratic term where one is allowed, which is in
sums and nonnegative multiples of an objective, and is otherwise replaced by an auxiliary variable
above it, bounded by a second-order cone: `x² ≤ t` exactly when `‖(2x, t - 1)‖ ≤ t + 1`.

The auxiliary variables are drawn from the supply in the order in which the parts are met, from
left to right and inside out. What was drawn before a failure stays drawn.
-/

namespace HingeLoss

/-- Why an expression or a problem breaks the rules of disciplined convex programming. -/
inductive NotDcp where
  /-- The curvature of an objective that is not convex, and the positions of the constraints that
  break their rule. -/
  | violations (objective : Option Curvature) (constraints : List Nat)
  | productOfNonConstants
  | quadraticOutsideObjective
  | described (text : String)

/-- A linear form, or a quadratic one where it is allowed. -/
inductive StandardForm (K : Type) where
  | linear (form : LinearForm K)
  | quadratic (form : QuadraticForm K)

namespace StandardForm

variable {K : Type}

/-- The form as a linear one; a quadratic form is refused. -/
def toLinear : StandardForm K → Except NotDcp (LinearForm K)
  | .linear form => .ok form
  | .quadratic _ => .error .quadraticOutsideObjective

variable [Scalar K]

/-- The form as a quadratic one; a linear form has no products. -/
def toQuadratic : StandardForm K → QuadraticForm K
  | .linear form => .ofLinear form
  | .quadratic form => form

/-- The sum of two forms, which is linear if both are. -/
def add : StandardForm K → StandardForm K → StandardForm K
  | .linear left, .linear right => .linear (left.add right)
  | left, right => .quadratic (left.toQuadratic.add right.toQuadratic)

/-- A multiple of a form, which is of the same kind. -/
def scale (factor : K) : StandardForm K → StandardForm K
  | .linear form => .linear (form.scale factor)
  | .quadratic form => .quadratic (form.scale factor)

/-- The value of the form when each variable has the given value. -/
def valueAt (values : VarId → K) : StandardForm K → K
  | .linear form => form.valueAt values
  | .quadratic form => form.valueAt values

end StandardForm

/-- A form together with the constraints that give its auxiliary variables their meaning. -/
structure Canonical (K : Type) where
  form : StandardForm K
  cones : List (Cone K)
  auxiliaries : List VarId

/-- Steps that draw auxiliary variables and may fail. -/
abbrev Canonicalizing := ExceptT NotDcp (StateM Supply)

namespace Canonical

variable {K : Type}

/-- A linear form that needs no auxiliary variables. -/
def ofLinear (form : LinearForm K) : Canonical K := ⟨.linear form, [], []⟩

/-- The linear form of a canonical result, with its constraints left aside. -/
def linearForm (canonical : Canonical K) : Canonicalizing (LinearForm K) :=
  liftM canonical.form.toLinear

/-- The same constraints and auxiliaries, followed by new ones, under another form. -/
def extend (canonical : Canonical K) (form : StandardForm K) (cones : List (Cone K))
    (auxiliaries : List VarId) : Canonical K :=
  ⟨form, canonical.cones ++ cones, canonical.auxiliaries ++ auxiliaries⟩

variable [Scalar K]

/-- The sum of two results. The constraints and auxiliaries of the left one come first. -/
def add (left right : Canonical K) : Canonical K :=
  left.extend (left.form.add right.form) right.cones right.auxiliaries

/-- A multiple of a result, the constraints of which stay as they are. -/
def scale (factor : K) (canonical : Canonical K) : Canonical K :=
  { canonical with form := canonical.form.scale factor }

/-- Replaces a result with the linear form `form` by an auxiliary variable above its positive
part. -/
def positivePart (inner : Canonical K) (form : LinearForm K) : Canonicalizing (Canonical K) := do
  let id ← freshId
  let bound := LinearForm.ofVariable id
  return inner.extend (.linear bound) [.nonneg bound, .nonneg (bound.add form.neg)] [id]

/-- The square of a result with the linear form `form` as a quadratic term, on the variable that
the form is or on an auxiliary variable equal to it. -/
def quadraticSquare (inner : Canonical K) (form : LinearForm K) :
    Canonicalizing (Canonical K) := do
  match form.singleVariable? with
  | some id => return inner.extend (.quadratic (.square id 1)) [] []
  | none =>
      let id ← freshId
      let equal := Cone.zero ((LinearForm.ofVariable id).add form.neg)
      return inner.extend (.quadratic (.square id 1)) [equal] [id]

/-- Replaces a result with the linear form `form` by an auxiliary variable above its square. -/
def boundedSquare (inner : Canonical K) (form : LinearForm K) : Canonicalizing (Canonical K) := do
  let id ← freshId
  let bound := LinearForm.ofVariable id
  let cone := Cone.secondOrder (bound.add (.ofConstant 1))
    [form.scale Scalar.two, bound.add (.ofConstant (-1))]
  return inner.extend (.linear bound) [.nonneg bound, cone] [id]

end Canonical

namespace Expression

variable {K : Type} [Scalar K]

mutual

/-- The canonical form of an expression. With `quadraticAllowed`, squares in sums and in
nonnegative multiples stay quadratic. -/
def canonicalize (quadraticAllowed : Bool) : Expression K → Canonicalizing (Canonical K)
  | .var v => return .ofLinear (.ofVariable v.id)
  | .const value => return .ofLinear (.ofConstant value)
  | .add left right => do
      let leftResult ← left.canonicalize quadraticAllowed
      let rightResult ← right.canonicalize quadraticAllowed
      return leftResult.add rightResult
  | .neg body => do
      let inner ← body.canonicalize false
      let form ← inner.linearForm
      return inner.extend (.linear form.neg) [] []
  | .mul left right =>
      match left.constant?, right.constant? with
      | some factor, _ => do
          let inner ← right.canonicalize (quadraticAllowed && 0 ≤ factor)
          return inner.scale factor
      | none, some factor => do
          let inner ← left.canonicalize (quadraticAllowed && 0 ≤ factor)
          return inner.scale factor
      | none, none => throw .productOfNonConstants
  | .sum terms => canonicalizeSum quadraticAllowed (.ofLinear .zero) terms
  | .pos body => do
      let inner ← body.canonicalize false
      let form ← inner.linearForm
      inner.positivePart form
  | .square body => do
      let inner ← body.canonicalize false
      let form ← inner.linearForm
      if quadraticAllowed then inner.quadraticSquare form else inner.boundedSquare form

/-- Adds the canonical forms of the terms to `accumulated`. -/
def canonicalizeSum (quadraticAllowed : Bool) (accumulated : Canonical K) :
    List (Expression K) → Canonicalizing (Canonical K)
  | [] => return accumulated
  | term :: rest => do
      let result ← term.canonicalize quadraticAllowed
      canonicalizeSum quadraticAllowed (accumulated.add result) rest

end

end Expression

end HingeLoss
