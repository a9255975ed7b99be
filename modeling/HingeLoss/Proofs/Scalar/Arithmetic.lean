import HingeLoss.Scalar.Rational
import Mathlib.Algebra.Order.Ring.Rat
import Mathlib.Tactic.Ring

/-!
# Arithmetic up to the sign of zero

Some arithmetic is exact however numbers are represented. Multiplying by one, turning a sign and
adding zero change nothing but the sign of a zero, which no comparison sees. Rational numbers and
doubles have these laws in common, and they suffice wherever numbers are only carried from one place
to another.
-/

namespace HingeLoss

namespace Scalar

variable {K : Type} [Scalar K]

/-- Both are numbers, and they are equal as numbers. -/
def Same (left right : K) : Prop := (left == right) = true

end Scalar

open Scalar (Same)

/-- Scalars whose arithmetic with zero, one and signs is exact. Nothing is said about other sums and
products, which may be rounded. -/
class LawfulArithmetic (K : Type) [Scalar K] : Prop where
  same_symm {left right : K} (same : Same left right) : Same right left
  same_trans {first second third : K} (same : Same first second) (next : Same second third) :
    Same first third
  same_of_isFinite {value : K} (finite : Scalar.isFinite value = true) : Same value value
  isFinite_zero : Scalar.isFinite (0 : K) = true
  isFinite_one : Scalar.isFinite (1 : K) = true
  one_mul {value : K} (finite : Scalar.isFinite value = true) : 1 * value = value
  mul_neg_one (value : K) : value * -1 = -value
  neg_neg (value : K) : - -value = value
  same_neg {left right : K} (same : Same left right) : Same (-left) (-right)
  neg_zero_same : Same (-0 : K) 0
  zero_mul_same {value : K} (finite : Scalar.isFinite value = true) : Same (0 * value) 0
  add_zero_same {value zero : K} (number : Same value value) (isZero : Same zero 0) :
    Same (value + zero) value
  zero_add_same {value zero : K} (isZero : Same zero 0) (number : Same value value) :
    Same (zero + value) value
  /-- An infinite partial sum stays infinite, so sums of finite numbers are numbers. -/
  same_add_finite {value added : K} (number : Same value value)
    (finite : Scalar.isFinite added = true) : Same (value + added) (value + added)
  same_two_mul {left right : K} (finite : Scalar.isFinite left = true) (same : Same left right) :
    Same (Scalar.two * left) (Scalar.two * right)

variable {K : Type} [Scalar K] [LawfulArithmetic K]

namespace Scalar.Same

variable {first second third : K}

theorem symm (same : Same first second) : Same second first := LawfulArithmetic.same_symm same

theorem trans (same : Same first second) (next : Same second third) : Same first third :=
  LawfulArithmetic.same_trans same next

theorem left (same : Same first second) : Same first first := same.trans same.symm

theorem right (same : Same first second) : Same second second := same.symm.trans same

theorem neg (same : Same first second) : Same (-first) (-second) := LawfulArithmetic.same_neg same

end Scalar.Same

namespace LawfulArithmetic

theorem same_zero : Same (0 : K) 0 := same_of_isFinite isFinite_zero

theorem same_one : Same (1 : K) 1 := same_of_isFinite isFinite_one

theorem same_total {values : List K}
    (finite : ∀ value ∈ values, Scalar.isFinite value = true) :
    Same (Scalar.total values) (Scalar.total values) := by
  have fromStart : ∀ start : K, Same start start →
      Same (values.foldl (· + ·) start) (values.foldl (· + ·) start) := by
    induction values with
    | nil => exact fun start number => number
    | cons value rest ih =>
        rw [List.forall_mem_cons] at finite
        intro start number
        exact ih finite.2 _ (same_add_finite number finite.1)
  exact fromStart 0 same_zero

end LawfulArithmetic

section Rationals

@[simp]
theorem Scalar.same_iff_eq {left right : ℚ} : Same left right ↔ left = right := beq_iff_eq

instance : LawfulArithmetic ℚ where
  same_symm := by simp [eq_comm]
  same_trans same next := by simp_all
  same_of_isFinite := by simp
  isFinite_zero := rfl
  isFinite_one := rfl
  one_mul _ := one_mul _
  mul_neg_one := mul_neg_one
  neg_neg := neg_neg
  same_neg := by simp
  neg_zero_same := Scalar.same_iff_eq.2 neg_zero
  zero_mul_same := by simp
  add_zero_same _ isZero := by simp_all
  zero_add_same isZero _ := by simp_all
  same_add_finite := by simp
  same_two_mul _ same := by simp_all

end Rationals

end HingeLoss
