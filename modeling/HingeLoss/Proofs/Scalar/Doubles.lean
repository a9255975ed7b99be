import HingeLoss.Proofs.Decimal.Finite
import HingeLoss.Proofs.Scalar.Arithmetic

/-!
# Exact arithmetic of doubles

Doubles obey the laws that hold up to the sign of zero. A factor of one shifts the significand up
and rounding shifts it down again, so nothing is lost; a missing number only arises from infinite
numbers, never from a finite addend.
-/

namespace HingeLoss

open Float.Model Float.Model.UnpackedFloat
open Decimal (IsCanonical)
open Scalar (Same)

namespace Doubles

theorem eq_of_unpack_eq {left right : Float}
    (same : left.toModel.unpack = right.toModel.unpack) : left = right := by
  rw [← Decimal.ofModel_pack left, same, Decimal.ofModel_pack]

/-- The sign of a double is turned without touching its other parts. -/
theorem unpack_neg (value : Float) : (-value).toModel.unpack = value.toModel.unpack.neg := by
  change UnpackedFloat.unpack Format.binary64
    (UnpackedFloat.pack Format.binary64 value.toModel.unpack.neg) = value.toModel.unpack.neg
  rcases parts : value.toModel.unpack with sign | _ | sign | ⟨sign, significand, exponent, positive⟩
  · cases sign <;> rfl
  · rfl
  · cases sign <;> rfl
  · rcases Decimal.isCanonical_of_unpack parts with ⟨canonical, finite⟩
    exact Decimal.unpack_pack canonical finite (-sign)

theorem neg_neg_double (value : Float) : - -value = value := by
  apply eq_of_unpack_eq
  rw [unpack_neg, unpack_neg]
  rcases value.toModel.unpack with (_ | _) | _ | (_ | _) | ⟨_ | _, significand, exponent, positive⟩
  all_goals rfl

section Zeros

/-- The parts are those of a zero. -/
def IsZero (parts : UnpackedFloat) : Prop := ∃ sign, parts = .zero sign

theorem same_iff {left right : Float} :
    Same left right ↔ left.toModel.unpack ≠ .notANumber ∧
      (left = right ∨ IsZero left.toModel.unpack ∧ IsZero right.toModel.unpack) := by
  change left.toModel.unpack.beq right.toModel.unpack = true ↔ _
  rw [beq_iff_ne_notANumber_and_eq]
  constructor
  · rintro ⟨number, -, same | ⟨first, second⟩ | ⟨first, second⟩⟩
    · exact ⟨number, .inl (eq_of_unpack_eq same)⟩
    · exact ⟨number, .inr ⟨⟨_, first⟩, ⟨_, second⟩⟩⟩
    · exact ⟨number, .inr ⟨⟨_, first⟩, ⟨_, second⟩⟩⟩
  · rintro ⟨number, rfl | ⟨⟨sign, first⟩, ⟨other, second⟩⟩⟩
    · exact ⟨number, number, .inl rfl⟩
    · rw [first, second]
      cases sign <;> cases other <;> simp

theorem same_self_iff {value : Float} : Same value value ↔ value.toModel.unpack ≠ .notANumber := by
  rw [same_iff]
  simp

theorem same_zero_iff {value : Float} :
    Same value (0 : Float) ↔ IsZero value.toModel.unpack := by
  rw [same_iff]
  constructor
  · rintro ⟨-, rfl | ⟨isZero, -⟩⟩
    · exact ⟨.positive, rfl⟩
    · exact isZero
  · intro isZero
    refine ⟨?_, .inr ⟨isZero, .positive, rfl⟩⟩
    rcases isZero with ⟨sign, parts⟩
    rw [parts]
    exact UnpackedFloat.noConfusion

end Zeros

section Sums

variable {value added : Float}

/-- Adding a zero does nothing to the parts, except that the sign of a zero may change. -/
theorem add_of_isZero (isZero : IsZero added.toModel.unpack)
    (number : value.toModel.unpack ≠ .notANumber) :
    Same (value + added) value ∧ Same (added + value) value := by
  rcases isZero with ⟨sign, zero⟩
  have unchanged : ∀ sum : Float,
      sum = .ofModel (.pack value.toModel.unpack) → Same sum value := by
    rintro sum rfl
    rw [Decimal.ofModel_pack]
    exact same_self_iff.2 number
  have toLeft : value + added =
      .ofModel (.pack (UnpackedFloat.add Format.binary64 value.toModel.unpack (.zero sign))) := by
    rw [← zero]
    rfl
  have toRight : added + value =
      .ofModel (.pack (UnpackedFloat.add Format.binary64 (.zero sign) value.toModel.unpack)) := by
    rw [← zero]
    rfl
  rcases parts : value.toModel.unpack with
    other | _ | other | ⟨other, significand, exponent, positive⟩
  case infinity =>
    rw [parts] at toLeft toRight unchanged
    exact ⟨unchanged _ toLeft, unchanged _ toRight⟩
  case notANumber => exact absurd parts number
  case zero =>
    rw [parts] at toLeft toRight
    have sums : ∀ sum : Float, (∃ sign, sum = .ofModel (.pack (.zero sign))) → Same sum value := by
      rintro sum ⟨sign, rfl⟩
      have isZero : IsZero (Float.ofModel (.pack (.zero sign))).toModel.unpack :=
        ⟨sign, unpack_packedZero⟩
      refine same_iff.2 ⟨?_, .inr ⟨isZero, other, parts⟩⟩
      rcases isZero with ⟨sign, isZero⟩
      rw [isZero]
      exact UnpackedFloat.noConfusion
    constructor
    · apply sums _ ⟨if other == sign then other else .positive, ?_⟩
      rw [toLeft]
      cases other <;> cases sign <;> rfl
    · apply sums _ ⟨if sign == other then sign else .positive, ?_⟩
      rw [toRight]
      cases other <;> cases sign <;> rfl
  case finite =>
    rw [parts] at toLeft toRight unchanged
    exact ⟨unchanged _ toLeft, unchanged _ toRight⟩

theorem isNaN_normalize (mantissa exponent : Int) :
    (UnpackedFloat.normalize Format.binary64 mantissa exponent .positive).isNaN = false := by
  rw [UnpackedFloat.normalize]
  cases compare mantissa 0 with
  | lt => exact Decimal.isNaN_roundWithAccuracy _ _ _ _
  | eq => rfl
  | gt => exact Decimal.isNaN_roundWithAccuracy _ _ _ _

/-- Only two infinite numbers can add up to a missing one. -/
theorem isNaN_add (number : value.toModel.unpack.isNaN = false)
    (finite : added.toModel.unpack.isFinite = true) :
    (value + added).toModel.unpack.isNaN = false := by
  apply Decimal.isNaN_unpack_pack
  revert number finite
  cases value.toModel.unpack with
  | notANumber => exact fun number _ => absurd number Bool.noConfusion
  | infinity sign =>
      cases added.toModel.unpack with
      | notANumber | infinity _ => exact fun _ finite => absurd finite Bool.noConfusion
      | zero _ | finite _ _ _ _ => exact fun _ _ => rfl
  | zero sign =>
      cases added.toModel.unpack with
      | notANumber | infinity _ => exact fun _ finite => absurd finite Bool.noConfusion
      | zero other => cases sign <;> cases other <;> exact fun _ _ => rfl
      | finite _ _ _ _ => exact fun _ _ => rfl
  | finite sign significand exponent positive =>
      cases added.toModel.unpack with
      | notANumber | infinity _ => exact fun _ finite => absurd finite Bool.noConfusion
      | zero _ => exact fun _ _ => rfl
      | finite _ _ _ _ => exact fun _ _ => isNaN_normalize _ _

end Sums

section Products

/-- A factor of one leaves the parts as they are, and its sign turns theirs. -/
theorem roundWithAccuracy_mul_one {significand : Nat} {exponent : Int}
    (canonical : IsCanonical significand exponent) (sign : Sign) :
    roundWithAccuracy Format.binary64 sign (significand * 2 ^ 52) (exponent + -52) .exact =
      .finite sign significand exponent canonical.positive := by
  have positive := canonical.positive
  have bits : 52 ≤ (significand * 2 ^ 52).log2 :=
    (Nat.le_log2 (by omega)).2 (Nat.le_mul_of_pos_left _ positive)
  apply Decimal.roundWithAccuracy_eq canonical (Decimal.Represents.exact _)
  · rw [Decimal.targetExponent_eq]
    omega
  · have value : ((significand * 2 ^ 52 : ℕ) : ℚ) * 2 ^ (exponent + -52) =
        significand * 2 ^ exponent := by
      rw [zpow_add₀ two_ne_zero]
      push_cast
      norm_num
      ring
    rw [value]
    exact Decimal.RoundingInterval.holds_self positive

/-- Multiplying by one, on either side and with either sign, changes at most the sign. -/
theorem mul_unit (value : Float) (sign : Sign) :
    UnpackedFloat.mul Format.binary64 value.toModel.unpack
        (.finite sign (2 ^ 52) (-52) (by norm_num)) =
      match sign with
      | .positive => value.toModel.unpack
      | .negative => value.toModel.unpack.neg := by
  rcases parts : value.toModel.unpack with
    other | _ | other | ⟨other, significand, exponent, positive⟩
  case infinity => cases sign <;> cases other <;> rfl
  case notANumber => cases sign <;> rfl
  case zero => cases sign <;> cases other <;> rfl
  case finite =>
    rcases Decimal.isCanonical_of_unpack parts with ⟨canonical, -⟩
    change roundWithAccuracy Format.binary64 (other * sign) (significand * 2 ^ 52)
      (exponent + -52) .exact = _
    rw [roundWithAccuracy_mul_one canonical]
    cases sign <;> cases other <;> rfl

theorem mul_comm_parts (left right : UnpackedFloat) :
    UnpackedFloat.mul Format.binary64 left right =
      UnpackedFloat.mul Format.binary64 right left := by
  have signs : ∀ first second : Sign, first * second = second * first := by
    intro first second
    cases first <;> cases second <;> rfl
  cases left <;> cases right <;>
    simp only [UnpackedFloat.mul, signs, Nat.mul_comm, Int.add_comm]

theorem mul_comm_double (left right : Float) : left * right = right * left :=
  congrArg (fun parts => Float.ofModel (.pack parts))
    (mul_comm_parts left.toModel.unpack right.toModel.unpack)

theorem isZero_mul {value factor : Float} (isZero : IsZero value.toModel.unpack)
    (finite : factor.toModel.unpack.isFinite = true) : IsZero (value * factor).toModel.unpack := by
  have product : ∃ sign, UnpackedFloat.mul Format.binary64 value.toModel.unpack
      factor.toModel.unpack = .zero sign := by
    rcases isZero with ⟨sign, zero⟩
    rw [zero]
    revert finite
    cases factor.toModel.unpack with
    | notANumber | infinity _ => exact fun finite => absurd finite Bool.noConfusion
    | zero _ | finite _ _ _ _ => exact fun _ => ⟨_, rfl⟩
  rcases product with ⟨sign, product⟩
  refine ⟨sign, ?_⟩
  change UnpackedFloat.unpack Format.binary64 (UnpackedFloat.pack Format.binary64
    (UnpackedFloat.mul Format.binary64 value.toModel.unpack factor.toModel.unpack)) = _
  rw [product]
  exact unpack_packedZero

/-- A product of finite numbers may be infinite but not missing. -/
theorem isNaN_mul {value factor : Float} (finite : value.toModel.unpack.isFinite = true)
    (factorFinite : factor.toModel.unpack.isFinite = true) :
    (value * factor).toModel.unpack.isNaN = false := by
  apply Decimal.isNaN_unpack_pack
  revert finite factorFinite
  cases value.toModel.unpack with
  | notANumber | infinity _ => exact fun finite _ => absurd finite Bool.noConfusion
  | zero _ =>
      cases factor.toModel.unpack with
      | notANumber | infinity _ => exact fun _ finite => absurd finite Bool.noConfusion
      | zero _ | finite _ _ _ _ => exact fun _ _ => rfl
  | finite _ _ _ _ =>
      cases factor.toModel.unpack with
      | notANumber | infinity _ => exact fun _ finite => absurd finite Bool.noConfusion
      | zero _ => exact fun _ _ => rfl
      | finite _ _ _ _ => exact fun _ _ => Decimal.isNaN_roundWithAccuracy _ _ _ _

end Products

theorem notANumber_iff {value : Float} :
    value.toModel.unpack ≠ .notANumber ↔ value.toModel.unpack.isNaN = false := by
  rw [← Bool.not_eq_true, isNaN_iff]

theorem isNaN_of_isFinite {value : Float} (finite : value.toModel.unpack.isFinite = true) :
    value.toModel.unpack.isNaN = false := by
  revert finite
  cases value.toModel.unpack with
  | notANumber | infinity _ => exact fun finite => absurd finite Bool.noConfusion
  | zero _ | finite _ _ _ _ => exact fun _ => rfl

end Doubles

open Doubles

instance : LawfulArithmetic Float where
  same_symm same := by
    rw [same_iff] at same ⊢
    rcases same with ⟨number, rfl | ⟨left, right⟩⟩
    · exact ⟨number, .inl rfl⟩
    · refine ⟨?_, .inr ⟨right, left⟩⟩
      rcases right with ⟨sign, isZero⟩
      rw [isZero]
      exact UnpackedFloat.noConfusion
  same_trans same next := by
    rw [same_iff] at same next ⊢
    rcases same with ⟨number, rfl | ⟨first, second⟩⟩
    · exact next
    · rcases next with ⟨-, rfl | ⟨-, third⟩⟩
      · exact ⟨number, .inr ⟨first, second⟩⟩
      · exact ⟨number, .inr ⟨first, third⟩⟩
  same_of_isFinite finite := same_self_iff.2 (notANumber_iff.2 (isNaN_of_isFinite finite))
  isFinite_zero := rfl
  isFinite_one := rfl
  one_mul {value} _ := by
    change Float.ofModel (.pack (UnpackedFloat.mul Format.binary64
      (.finite .positive (2 ^ 52) (-52) (by norm_num)) value.toModel.unpack)) = value
    rw [mul_comm_parts, mul_unit, Decimal.ofModel_pack]
  mul_neg_one value := by
    change Float.ofModel (.pack (UnpackedFloat.mul Format.binary64 value.toModel.unpack
      (.finite .negative (2 ^ 52) (-52) (by norm_num)))) = _
    rw [mul_unit]
    rfl
  neg_neg := neg_neg_double
  neg_zero_same := same_zero_iff.2 ⟨.negative, rfl⟩
  same_neg {left right} same := by
    rw [same_iff] at same ⊢
    rw [notANumber_iff, unpack_neg, unpack_neg]
    rcases same with ⟨number, same⟩
    refine ⟨Decimal.isNaN_neg (notANumber_iff.1 number), ?_⟩
    rcases same with rfl | ⟨⟨sign, first⟩, other, second⟩
    · exact .inl rfl
    · rw [first, second]
      exact .inr ⟨⟨-sign, rfl⟩, -other, rfl⟩
  zero_mul_same finite := by
    exact same_zero_iff.2 (isZero_mul ⟨.positive, rfl⟩ finite)
  add_zero_same number isZero := (add_of_isZero (same_zero_iff.1 isZero) (same_self_iff.1 number)).1
  zero_add_same isZero number := (add_of_isZero (same_zero_iff.1 isZero) (same_self_iff.1 number)).2
  same_add_finite number finite := by
    rw [same_self_iff, notANumber_iff] at number ⊢
    exact isNaN_add number finite
  same_two_mul {left right} finite same := by
    have number : (Scalar.two * left : Float).toModel.unpack.isNaN = false :=
      isNaN_mul rfl finite
    refine same_iff.2 ⟨notANumber_iff.2 number, ?_⟩
    rcases same_iff.1 same with ⟨-, rfl | ⟨first, second⟩⟩
    · exact .inl rfl
    · rw [mul_comm_double _ left, mul_comm_double _ right]
      exact .inr ⟨isZero_mul first rfl, isZero_mul second rfl⟩

end HingeLoss
