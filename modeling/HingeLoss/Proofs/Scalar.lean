import HingeLoss.Scalar.Rational
import Mathlib.Algebra.BigOperators.Group.List.Basic
import Mathlib.Algebra.Order.Ring.Rat
import Mathlib.Tactic.Linarith
import Mathlib.Tactic.Ring

/-!
# Exact arithmetic

Over the rational numbers the operations of the scalar interface are the ordinary ones: nothing is
rounded, sums do not depend on their order, and comparisons are decided by the usual order. The
lemmas here bring what the interface derives from its operations into the forms that the library of
ordered fields knows.
-/

namespace HingeLoss

namespace Scalar

@[simp]
theorem two_eq : (two : ℚ) = 2 := by
  simp only [two]
  norm_num

@[simp]
theorem positivePart_eq_max (value : ℚ) : positivePart value = max value 0 := by
  simp only [positivePart]
  rcases lt_or_ge 0 value with positive | nonpositive
  · rw [if_pos positive, max_eq_left positive.le]
  · rw [if_neg (not_lt.2 nonpositive), max_eq_right nonpositive]

@[simp]
theorem total_eq_sum (values : List ℚ) : total values = values.sum := by
  rw [total, List.sum_eq_foldl]

end Scalar

end HingeLoss
