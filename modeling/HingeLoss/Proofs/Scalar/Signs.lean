import HingeLoss.Scalar.Rational
import Mathlib.Algebra.Order.Ring.Rat

/-!
# Signs of scalars

The rules of disciplined convex programming look at numbers only through comparisons with zero. What
they need of these comparisons is little, and it holds of rational numbers and of doubles alike:
every finite number is negative, zero or positive, and a negative one is nothing else.
-/

namespace HingeLoss

/-- Scalars that compare with zero as numbers do. Nothing is said about missing numbers, which are
neither negative nor zero nor positive. -/
class LawfulSigns (K : Type) [Scalar K] : Prop where
  neg_or_zero_or_pos {value : K} (finite : Scalar.isFinite value = true) :
    value < 0 ∨ (value == 0) = true ∨ 0 < value
  not_zero_of_neg {value : K} (negative : value < 0) : (value == 0) = false
  not_pos_of_neg {value : K} (negative : value < 0) : ¬0 < value
  not_neg_of_nonneg {value : K} (nonneg : 0 ≤ value) : ¬value < 0

namespace LawfulSigns

theorem zero_or_pos_of_not_neg {K : Type} [Scalar K] [LawfulSigns K] {value : K}
    (finite : Scalar.isFinite value = true) (notNegative : ¬value < 0) :
    (value == 0) = true ∨ 0 < value :=
  (neg_or_zero_or_pos finite).resolve_left notNegative

/-- Comparisons that are all read off one order of a number and zero are lawful. -/
theorem of_order {K : Type} [Scalar K] (order : K → Option Ordering)
    (finite : ∀ value, Scalar.isFinite value = true → (order value).isSome)
    (neg : ∀ value : K, value < 0 ↔ order value = some .lt)
    (zero : ∀ value : K, (value == 0) = (order value == some .eq))
    (pos : ∀ value : K, 0 < value ↔ order value = some .gt)
    (nonneg : ∀ value : K, 0 ≤ value ↔ (order value).any Ordering.isGE = true) :
    LawfulSigns K where
  neg_or_zero_or_pos {value} isFinite := by
    rcases Option.isSome_iff_exists.1 (finite value isFinite) with ⟨comparison, compared⟩
    rw [neg, zero, pos, compared]
    cases comparison <;> simp
  not_zero_of_neg {value} negative := by
    rw [neg] at negative
    rw [zero, negative]
    rfl
  not_pos_of_neg {value} negative := by
    rw [neg] at negative
    rw [pos, negative]
    simp
  not_neg_of_nonneg {value} isNonneg := by
    rw [nonneg] at isNonneg
    rw [neg]
    intro negative
    simp [negative] at isNonneg

instance : LawfulSigns ℚ where
  neg_or_zero_or_pos {value} _ := by
    rw [beq_iff_eq]
    exact lt_trichotomy value 0
  not_zero_of_neg negative := beq_false_of_ne negative.ne
  not_pos_of_neg negative := not_lt_of_gt negative
  not_neg_of_nonneg nonneg := not_lt_of_ge nonneg

section Doubles

open Float.Model (UnpackedFloat)

/-- How a double compares with zero; a missing number does not. -/
def orderWithZero (value : Float) : Option Ordering :=
  value.toModel.unpack.compare (.zero .positive)

theorem compare_zero_left (unpacked : UnpackedFloat) :
    UnpackedFloat.compare (.zero .positive) unpacked =
      (unpacked.compare (.zero .positive)).map Ordering.swap := by
  rcases unpacked with (_ | _) | _ | _ | ⟨_ | _, mantissa, exponent, positive⟩ <;> rfl

theorem isSome_compare_zero {unpacked : UnpackedFloat} (finite : unpacked.isFinite = true) :
    (unpacked.compare (.zero .positive)).isSome = true := by
  rcases unpacked with sign | _ | sign | ⟨_ | _, mantissa, exponent, positive⟩
  · exact absurd finite Bool.false_ne_true
  · exact absurd finite Bool.false_ne_true
  · rfl
  · rfl
  · rfl

instance : LawfulSigns Float := by
  apply of_order orderWithZero
  case finite => exact fun value finite => isSome_compare_zero finite
  case neg =>
    intro value
    change decide ((orderWithZero value == some .lt) = true) = true ↔ _
    simp
  case zero => exact fun value => rfl
  case pos =>
    intro value
    change decide ((UnpackedFloat.compare (.zero .positive) value.toModel.unpack == some .lt) =
      true) = true ↔ _
    rw [compare_zero_left]
    change decide (((orderWithZero value).map Ordering.swap == some .lt) = true) = true ↔ _
    rcases orderWithZero value with _ | _ | _ | _ <;> decide
  case nonneg =>
    intro value
    change decide ((UnpackedFloat.compare (.zero .positive) value.toModel.unpack).any
      Ordering.isLE = true) = true ↔ _
    rw [compare_zero_left]
    change decide (((orderWithZero value).map Ordering.swap).any Ordering.isLE = true) = true ↔ _
    rcases orderWithZero value with _ | _ | _ | _ <;> decide

end Doubles

end LawfulSigns

end HingeLoss
