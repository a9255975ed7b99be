import HingeLoss.Expression.Curvature
import HingeLoss.Proofs.Scalar

/-!
# Signs and curvatures as statements about numbers

A sign says on which side of zero a value lies. A curvature says on which side of the strict value
of an expression a loose value may lie, one in which more atoms are larger than they have to be: not
below it for a convex expression, not above it for a concave one. Each composition rule is one lemma
about these readings.
-/

namespace HingeLoss

namespace Sign

/-- What a sign says about a value. -/
def Describes (sign : Sign) (value : ℚ) : Prop :=
  (sign.isNonneg = true → 0 ≤ value) ∧ (sign.isNonpos = true → value ≤ 0)

theorem describes_nonnegative {value : ℚ} (nonneg : 0 ≤ value) : nonnegative.Describes value :=
  ⟨fun _ => nonneg, fun claimed => by simp [isNonpos] at claimed⟩

theorem describes_unknown (value : ℚ) : unknown.Describes value :=
  ⟨fun claimed => by simp [isNonneg] at claimed, fun claimed => by simp [isNonpos] at claimed⟩

theorem describes_zero : zero.Describes 0 :=
  ⟨fun _ => le_refl 0, fun _ => le_refl 0⟩

theorem Describes.eq_zero {value : ℚ} (describes : zero.Describes value) : value = 0 :=
  le_antisymm (describes.2 rfl) (describes.1 rfl)

theorem describes_ofValue (value : ℚ) : (ofValue value).Describes value := by
  simp only [ofValue]
  split
  case isTrue isZero =>
    have valueZero : value = 0 := by simpa using isZero
    rw [valueZero]
    exact describes_zero
  case isFalse =>
    split
    case isTrue positive =>
      exact describes_nonnegative positive.le
    case isFalse =>
      split
      case isTrue negative =>
        exact ⟨fun claimed => by simp [isNonneg] at claimed, fun _ => negative.le⟩
      case isFalse => exact describes_unknown value

theorem Describes.negate {sign : Sign} {value : ℚ} (describes : sign.Describes value) :
    sign.negate.Describes (-value) := by
  cases sign <;> simp_all [Describes, Sign.negate, isNonneg, isNonpos]

theorem Describes.add {left right : Sign} {leftValue rightValue : ℚ}
    (describesLeft : left.Describes leftValue) (describesRight : right.Describes rightValue) :
    (left.add right).Describes (leftValue + rightValue) := by
  simp only [Describes] at *
  cases left <;> cases right <;> simp [Sign.add, isNonneg, isNonpos] at * <;>
    first | linarith | (constructor <;> linarith)

theorem Describes.mul {left right : Sign} {leftValue rightValue : ℚ}
    (describesLeft : left.Describes leftValue) (describesRight : right.Describes rightValue) :
    (left.mul right).Describes (leftValue * rightValue) := by
  have zeroLeft : left = .zero → leftValue = 0 := by
    rintro rfl
    exact describesLeft.eq_zero
  have zeroRight : right = .zero → rightValue = 0 := by
    rintro rfl
    exact describesRight.eq_zero
  cases left <;> cases right <;>
    simp_all [Describes, Sign.mul, isNonneg, isNonpos, mul_nonneg, mul_nonneg_of_nonpos_of_nonpos,
      mul_nonpos_of_nonneg_of_nonpos, mul_nonpos_of_nonpos_of_nonneg]

end Sign

namespace Curvature

@[simp]
theorem isConvex_add (left right : Curvature) :
    (left.add right).isConvex = (left.isConvex && right.isConvex) := by
  cases left <;> cases right <;> rfl

@[simp]
theorem isConcave_add (left right : Curvature) :
    (left.add right).isConcave = (left.isConcave && right.isConcave) := by
  cases left <;> cases right <;> rfl

@[simp]
theorem isConvex_negate (curvature : Curvature) :
    curvature.negate.isConvex = curvature.isConcave := by
  cases curvature <;> rfl

@[simp]
theorem isConcave_negate (curvature : Curvature) :
    curvature.negate.isConcave = curvature.isConvex := by
  cases curvature <;> rfl

theorem isAffine_eq (curvature : Curvature) :
    curvature.isAffine = (curvature.isConvex && curvature.isConcave) := by
  cases curvature <;> rfl

@[simp]
theorem isConstant_add (left right : Curvature) :
    (left.add right).isConstant = (left.isConstant && right.isConstant) := by
  cases left <;> cases right <;> rfl

@[simp]
theorem isConstant_negate (curvature : Curvature) :
    curvature.negate.isConstant = curvature.isConstant := by
  cases curvature <;> rfl

@[simp]
theorem isConstant_positivePart (curvature : Curvature) :
    curvature.positivePart.isConstant = curvature.isConstant := by
  cases curvature <;> rfl

@[simp]
theorem isConstant_square (curvature : Curvature) (sign : Sign) :
    (curvature.square sign).isConstant = curvature.isConstant := by
  cases curvature <;> cases sign <;> rfl

/-- What a curvature says about a loose value beside a strict one. -/
def Bounds (curvature : Curvature) (strict loose : ℚ) : Prop :=
  (curvature.isConvex = true → strict ≤ loose) ∧ (curvature.isConcave = true → loose ≤ strict)

namespace Bounds

variable {curvature left right : Curvature} {strict loose value : ℚ}

theorem refl (curvature : Curvature) (value : ℚ) : curvature.Bounds value value :=
  ⟨fun _ => le_refl value, fun _ => le_refl value⟩

theorem unknown (strict loose : ℚ) : Curvature.unknown.Bounds strict loose :=
  ⟨fun claimed => by simp [isConvex] at claimed, fun claimed => by simp [isConcave] at claimed⟩

theorem eq_of_isAffine (bounds : curvature.Bounds strict loose)
    (affine : curvature.isAffine = true) : loose = strict := by
  rw [isAffine_eq, Bool.and_eq_true] at affine
  exact le_antisymm (bounds.2 affine.2) (bounds.1 affine.1)

theorem eq_of_isConstant (bounds : curvature.Bounds strict loose)
    (constant : curvature.isConstant = true) : loose = strict := by
  apply bounds.eq_of_isAffine
  cases curvature <;> simp_all [isConstant, isAffine]

theorem add {leftStrict leftLoose rightStrict rightLoose : ℚ}
    (boundsLeft : left.Bounds leftStrict leftLoose)
    (boundsRight : right.Bounds rightStrict rightLoose) :
    (left.add right).Bounds (leftStrict + rightStrict) (leftLoose + rightLoose) := by
  constructor
  · intro convex
    rw [isConvex_add, Bool.and_eq_true] at convex
    exact add_le_add (boundsLeft.1 convex.1) (boundsRight.1 convex.2)
  · intro concave
    rw [isConcave_add, Bool.and_eq_true] at concave
    exact add_le_add (boundsLeft.2 concave.1) (boundsRight.2 concave.2)

theorem negate (bounds : curvature.Bounds strict loose) :
    curvature.negate.Bounds (-strict) (-loose) := by
  constructor
  · intro convex
    rw [isConvex_negate] at convex
    exact neg_le_neg (bounds.2 convex)
  · intro concave
    rw [isConcave_negate] at concave
    exact neg_le_neg (bounds.1 concave)

theorem scale (bounds : curvature.Bounds strict loose) (factor : ℚ) :
    (curvature.scale factor).Bounds (strict * factor) (loose * factor) := by
  simp only [Curvature.scale]
  split
  case isTrue isZero =>
    have factorZero : factor = 0 := by simpa using isZero
    simpa [factorZero] using refl .constant 0
  case isFalse =>
    split
    case isTrue positive =>
      constructor
      · intro convex
        exact mul_le_mul_of_nonneg_right (bounds.1 convex) positive.le
      · intro concave
        exact mul_le_mul_of_nonneg_right (bounds.2 concave) positive.le
    case isFalse notPositive =>
      -- A factor that is not positive turns both inequalities around.
      have nonpositive : factor ≤ 0 := not_lt.1 notPositive
      constructor
      · intro convex
        rw [isConvex_negate] at convex
        exact mul_le_mul_of_nonpos_right (bounds.2 convex) nonpositive
      · intro concave
        rw [isConcave_negate] at concave
        exact mul_le_mul_of_nonpos_right (bounds.1 concave) nonpositive

theorem product_left (bounds : curvature.Bounds strict loose) (factor : ℚ)
    (rightValue : Option ℚ) :
    (product .constant curvature (some factor) rightValue).Bounds (strict * factor)
      (loose * factor) := by
  simp only [product]
  split
  case isTrue bothConstant =>
    have constant : curvature.isConstant = true := by simpa [isConstant] using bothConstant
    rw [bounds.eq_of_isConstant constant]
    exact refl _ _
  case isFalse => exact bounds.scale factor

theorem product_right (bounds : curvature.Bounds strict loose) (factor : ℚ) :
    (product curvature .constant none (some factor)).Bounds (strict * factor)
      (loose * factor) := by
  simp only [product]
  split
  case isTrue bothConstant =>
    have constant : curvature.isConstant = true := by simpa [isConstant] using bothConstant
    rw [bounds.eq_of_isConstant constant]
    exact refl _ _
  case isFalse => exact bounds.scale factor

theorem positivePart (bounds : curvature.Bounds strict loose)
    (notConstant : curvature.isConstant = false) (above : max loose 0 ≤ value) :
    curvature.positivePart.Bounds (max strict 0) value := by
  simp only [Curvature.positivePart, notConstant, Bool.false_eq_true, if_false]
  split
  case isTrue convex =>
    constructor
    · intro _
      exact (max_le_max_right 0 (bounds.1 convex)).trans above
    · intro claimed
      simp [isConcave] at claimed
  case isFalse => exact unknown _ _

/-- A square is only certified as convex where it moves away from zero in the direction in which
its argument may be loose. -/
theorem square (bounds : curvature.Bounds strict loose) {sign : Sign}
    (describes : sign.Describes strict) (notConstant : curvature.isConstant = false)
    (above : loose * loose ≤ value) :
    (curvature.square sign).Bounds (strict * strict) value := by
  simp only [Curvature.square, notConstant, Bool.false_eq_true, if_false]
  split
  case isTrue affine =>
    rw [bounds.eq_of_isAffine affine] at above
    exact ⟨fun _ => above, fun claimed => by simp [isConcave] at claimed⟩
  case isFalse =>
    split
    case isTrue certified =>
      refine ⟨fun _ => le_trans ?_ above, fun claimed => by simp [isConcave] at claimed⟩
      simp only [Bool.or_eq_true, Bool.and_eq_true] at certified
      rcases certified with ⟨convex, nonneg⟩ | ⟨concave, nonpos⟩
      · have strictNonneg : 0 ≤ strict := describes.1 nonneg
        have below : strict ≤ loose := bounds.1 convex
        exact mul_self_le_mul_self strictNonneg below
      · have strictNonpos : strict ≤ 0 := describes.2 nonpos
        have above : loose ≤ strict := bounds.2 concave
        nlinarith
    case isFalse => exact unknown _ _

end Bounds

end Curvature

end HingeLoss
