import HingeLoss.Standard.Linear

/-!
# Cones

The constraints of a problem in standard form: linear forms held at zero, linear forms held above
zero, and lists of linear forms whose length is bounded by another one.
-/

namespace HingeLoss

/-- A constraint in standard form. -/
inductive Cone (K : Type) where
  | zero (form : LinearForm K)
  | nonneg (form : LinearForm K)
  /-- The Euclidean length of the entries is at most the bound. -/
  | secondOrder (bound : LinearForm K) (entries : List (LinearForm K))

namespace Cone

variable {K : Type}

/-- How many rows the constraint takes. -/
def dimension : Cone K → Nat
  | .zero _ => 1
  | .nonneg _ => 1
  | .secondOrder _ entries => 1 + entries.length

/-- The linear forms of the constraint, one for each row. -/
def forms : Cone K → List (LinearForm K)
  | .zero form => [form]
  | .nonneg form => [form]
  | .secondOrder bound entries => bound :: entries

variable [Scalar K]

/-- The constraint holds when each variable has the given value. That a length is bounded is said
without roots: the bound is not negative, and the sum of the squares is at most its square. -/
def HoldsAt (cone : Cone K) (values : VarId → K) : Prop :=
  match cone with
  | .zero form => form.valueAt values = 0
  | .nonneg form => 0 ≤ form.valueAt values
  | .secondOrder bound entries =>
      0 ≤ bound.valueAt values ∧
        Scalar.total (entries.map fun entry => entry.valueAt values * entry.valueAt values) ≤
          bound.valueAt values * bound.valueAt values

end Cone

end HingeLoss
