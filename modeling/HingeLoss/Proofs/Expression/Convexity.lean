import HingeLoss.Proofs.Expression.Operators
import HingeLoss.Proofs.Expression.Signs

/-!
# Convexity of values

A curvature is a promise about the values of an expression along the segment between two points: a
convex expression stays below its chord, a concave one above it, an affine one on it, and a constant
one does not move at all. The rules keep this promise. Since they bound the value at a mixture by
the mixture of the values in the way in which they bound a strict value by a loose one, each rule is
used in that reading; only constancy needs an induction of its own, because nothing about the rules
for convex expressions says that the value stays the same.
-/

namespace HingeLoss

/-- The mixture of two numbers, with the given weight on the left one. -/
def mix (weight left right : ℚ) : ℚ := weight * left + (1 - weight) * right

/-- The mixture of two assignments, for each variable to which both give a value. -/
def Assignment.mix (weight : ℚ) (left right : Assignment ℚ) : Assignment ℚ := fun id =>
  (left id).bind fun leftValue =>
    (right id).map fun rightValue => HingeLoss.mix weight leftValue rightValue

section Mixtures

variable {weight : ℚ}

@[simp]
theorem mix_self (weight value : ℚ) : mix weight value value = value := by
  rw [mix]
  ring

theorem mix_add (weight left right otherLeft otherRight : ℚ) :
    mix weight (left + otherLeft) (right + otherRight) =
      mix weight left right + mix weight otherLeft otherRight := by
  simp only [mix]
  ring

theorem mix_neg (weight left right : ℚ) : mix weight (-left) (-right) = -mix weight left right := by
  simp only [mix]
  ring

theorem mix_mul_const (weight left right factor : ℚ) :
    mix weight (left * factor) (right * factor) = mix weight left right * factor := by
  simp only [mix]
  ring

theorem mix_le_mix (nonneg : 0 ≤ weight) (le_one : weight ≤ 1) {left right above higher : ℚ}
    (leftBelow : left ≤ above) (rightBelow : right ≤ higher) :
    mix weight left right ≤ mix weight above higher := by
  have otherNonneg : 0 ≤ 1 - weight := sub_nonneg.2 le_one
  exact add_le_add (mul_le_mul_of_nonneg_left leftBelow nonneg)
    (mul_le_mul_of_nonneg_left rightBelow otherNonneg)

theorem mix_nonneg (nonneg : 0 ≤ weight) (le_one : weight ≤ 1) {left right : ℚ}
    (leftNonneg : 0 ≤ left) (rightNonneg : 0 ≤ right) : 0 ≤ mix weight left right := by
  have below := mix_le_mix nonneg le_one leftNonneg rightNonneg
  rwa [mix_self] at below

/-- The positive part is convex. -/
theorem max_mix_le (nonneg : 0 ≤ weight) (le_one : weight ≤ 1) (left right : ℚ) :
    max (mix weight left right) 0 ≤ mix weight (max left 0) (max right 0) := by
  apply max_le
  · exact mix_le_mix nonneg le_one (le_max_left _ _) (le_max_left _ _)
  · exact mix_nonneg nonneg le_one (le_max_right _ _) (le_max_right _ _)

/-- The square is convex. -/
theorem mix_mul_self_le (nonneg : 0 ≤ weight) (le_one : weight ≤ 1) (left right : ℚ) :
    mix weight left right * mix weight left right ≤ mix weight (left * left) (right * right) := by
  have otherNonneg : 0 ≤ 1 - weight := sub_nonneg.2 le_one
  have gap : mix weight (left * left) (right * right) -
      mix weight left right * mix weight left right =
        weight * (1 - weight) * ((left - right) * (left - right)) := by
    simp only [mix]
    ring
  have gapNonneg : 0 ≤ weight * (1 - weight) * ((left - right) * (left - right)) :=
    mul_nonneg (mul_nonneg nonneg otherNonneg) (mul_self_nonneg _)
  linarith

end Mixtures

namespace Curvature

/-- A multiple is only constant if the factor is zero or there is nothing to multiply. -/
theorem isConstant_of_scale {curvature : Curvature} {factor : ℚ}
    (constant : (curvature.scale factor).isConstant = true) :
    factor = 0 ∨ curvature.isConstant = true := by
  simp only [scale] at constant
  split at constant
  case isTrue isZero => exact .inl (by simpa using isZero)
  case isFalse =>
    right
    split at constant
    case isTrue => exact constant
    case isFalse => rwa [isConstant_negate] at constant

end Curvature

namespace Expression

section Constancy

variable {expression : Expression ℚ}

/-- If a sum counts as constant, so does each of its terms. -/
theorem isConstant_of_mem_sum {terms : List (Expression ℚ)}
    (constant : (sum terms).curvature.isConstant = true) :
    ∀ term ∈ terms, term.curvature.isConstant = true := by
  induction terms using List.reverseRecOn with
  | nil => simp
  | append_singleton terms term ih =>
      rw [curvature_sum_snoc, Curvature.isConstant_add, Bool.and_eq_true] at constant
      intro other member
      rcases List.mem_append.1 member with inTerms | isLast
      · exact ih constant.1 other inTerms
      · rw [List.mem_singleton.1 isLast]
        exact constant.2

/-- A product that counts as constant has the same value everywhere if each factor that counts as
constant has. -/
theorem valueAt_mul_eq_of_isConstant {left right : Expression ℚ} {first second : VarId → ℚ}
    (constant : (mul left right).curvature.isConstant = true)
    (fromLeft : left.curvature.isConstant = true → left.valueAt first = left.valueAt second)
    (fromRight : right.curvature.isConstant = true → right.valueAt first = right.valueAt second) :
    (mul left right).valueAt first = (mul left right).valueAt second := by
  simp only [curvature, Curvature.product] at constant
  simp only [valueAt]
  split at constant
  case isTrue both =>
    rw [Bool.and_eq_true] at both
    rw [fromLeft both.1, fromRight both.2]
  case isFalse =>
    split at constant
    case h_1 factor literal =>
      obtain rfl := constant?_eq_some.1 literal
      rcases Curvature.isConstant_of_scale constant with rfl | rightConstant
      · simp only [valueAt, zero_mul]
      · rw [fromRight rightConstant, valueAt, valueAt]
    case h_2 factor _ literal =>
      obtain rfl := constant?_eq_some.1 literal
      rcases Curvature.isConstant_of_scale constant with rfl | leftConstant
      · simp only [valueAt, mul_zero]
      · rw [fromLeft leftConstant, valueAt, valueAt]
    case h_3 => simp [Curvature.isConstant] at constant

/-- An expression that counts as constant has the same value at all points. -/
theorem valueAt_eq_of_isConstant (constant : expression.curvature.isConstant = true)
    (first second : VarId → ℚ) : expression.valueAt first = expression.valueAt second := by
  induction expression with
  | var leaf => simp [curvature, Curvature.isConstant] at constant
  | const value => rfl
  | add left right ihLeft ihRight =>
      rw [curvature, Curvature.isConstant_add, Bool.and_eq_true] at constant
      rw [valueAt, valueAt, ihLeft constant.1, ihRight constant.2]
  | neg body ih =>
      rw [curvature, Curvature.isConstant_negate] at constant
      rw [valueAt, valueAt, ih constant]
  | mul left right ihLeft ihRight => exact valueAt_mul_eq_of_isConstant constant ihLeft ihRight
  | sum terms ih =>
      have each := isConstant_of_mem_sum constant
      have same : terms.map (valueAt first) = terms.map (valueAt second) := by
        apply List.map_congr_left
        intro term term_mem
        exact ih term term_mem (each term term_mem)
      rw [valueAt_sum, valueAt_sum, same]
  | pos body ih =>
      rw [curvature, Curvature.isConstant_positivePart] at constant
      rw [valueAt, valueAt, ih constant]
  | square body ih =>
      rw [curvature, Curvature.isConstant_square] at constant
      rw [valueAt, valueAt, ih constant]

end Constancy

section Chords

variable {expression left right : Expression ℚ} {terms : List (Expression ℚ)}
  {first second : VarId → ℚ} {weight : ℚ}

/-- The mixture of two points. -/
def mixAt (weight : ℚ) (first second : VarId → ℚ) (id : VarId) : ℚ :=
  mix weight (first id) (second id)

theorem flagsHoldAt_mixAt (nonneg : 0 ≤ weight) (le_one : weight ≤ 1)
    (firstFlags : expression.FlagsHoldAt first) (secondFlags : expression.FlagsHoldAt second) :
    expression.FlagsHoldAt (mixAt weight first second) := by
  intro leaf leaf_mem flagged
  exact mix_nonneg nonneg le_one (firstFlags leaf leaf_mem flagged)
    (secondFlags leaf leaf_mem flagged)

/-- The curvature of the expression says how its value at the mixture of two points lies to the
mixture of its values. -/
def KeepsCurvature (expression : Expression ℚ) (weight : ℚ) (first second : VarId → ℚ) : Prop :=
  expression.curvature.Bounds (expression.valueAt (mixAt weight first second))
    (mix weight (expression.valueAt first) (expression.valueAt second))

theorem keepsCurvature_of_isConstant (constant : expression.curvature.isConstant = true) :
    expression.KeepsCurvature weight first second := by
  rw [KeepsCurvature, valueAt_eq_of_isConstant constant first second,
    valueAt_eq_of_isConstant constant (mixAt weight first second) second, mix_self]
  exact .refl _ _

theorem keepsCurvature_add (fromLeft : left.KeepsCurvature weight first second)
    (fromRight : right.KeepsCurvature weight first second) :
    (add left right).KeepsCurvature weight first second := by
  simp only [KeepsCurvature, valueAt, mix_add]
  exact fromLeft.add fromRight

/-- A product keeps its curvature if its factors do: one of them is a literal, or both count as
constant, or nothing is known of it. -/
theorem keepsCurvature_mul (fromLeft : left.KeepsCurvature weight first second)
    (fromRight : right.KeepsCurvature weight first second) :
    (mul left right).KeepsCurvature weight first second := by
  cases leftLiteral : left.constant? with
  | some factor =>
      obtain rfl := constant?_eq_some.1 leftLiteral
      simp only [KeepsCurvature, valueAt, mul_comm factor, mix_mul_const]
      exact fromRight.product_left factor right.constant?
  | none =>
      cases rightLiteral : right.constant? with
      | some factor =>
          obtain rfl := constant?_eq_some.1 rightLiteral
          simp only [KeepsCurvature, curvature, valueAt, mix_mul_const, leftLiteral]
          exact fromLeft.product_right factor
      | none =>
          by_cases constant : (mul left right).curvature.isConstant = true
          · exact keepsCurvature_of_isConstant constant
          · have unknown : (mul left right).curvature = .unknown := by
              simp only [curvature, leftLiteral, rightLiteral, Curvature.product] at constant ⊢
              split at constant
              case isTrue => simp [Curvature.isConstant] at constant
              case isFalse notBoth => rw [if_neg notBoth]
            rw [KeepsCurvature, unknown]
            exact .unknown _ _

theorem keepsCurvature_sum
    (each : ∀ term ∈ terms, term.KeepsCurvature weight first second) :
    (sum terms).KeepsCurvature weight first second := by
  induction terms using List.reverseRecOn with
  | nil => exact keepsCurvature_of_isConstant rfl
  | append_singleton terms term ih =>
      have fromTerms := ih fun other member => each other (List.mem_append_left _ member)
      have fromTerm := each term (by simp)
      simp only [KeepsCurvature, curvature_sum_snoc, valueAt_sum_snoc, mix_add]
      exact fromTerms.add fromTerm

/-- Every expression keeps its curvature between two points at which the flags of its variables
hold. -/
theorem keepsCurvature (nonneg : 0 ≤ weight) (le_one : weight ≤ 1)
    (firstFlags : expression.FlagsHoldAt first) (secondFlags : expression.FlagsHoldAt second) :
    expression.KeepsCurvature weight first second := by
  induction expression with
  | var leaf => exact .refl _ _
  | const value => exact keepsCurvature_of_isConstant rfl
  | add left right ihLeft ihRight =>
      rw [flagsHoldAt_add] at firstFlags secondFlags
      exact keepsCurvature_add (ihLeft firstFlags.1 secondFlags.1)
        (ihRight firstFlags.2 secondFlags.2)
  | neg body ih =>
      rw [flagsHoldAt_neg] at firstFlags secondFlags
      simp only [KeepsCurvature, valueAt, mix_neg]
      exact (ih firstFlags secondFlags).negate
  | mul left right ihLeft ihRight =>
      rw [flagsHoldAt_mul] at firstFlags secondFlags
      exact keepsCurvature_mul (ihLeft firstFlags.1 secondFlags.1)
        (ihRight firstFlags.2 secondFlags.2)
  | sum terms ih =>
      rw [flagsHoldAt_sum] at firstFlags secondFlags
      apply keepsCurvature_sum
      intro term term_mem
      exact ih term term_mem (firstFlags term term_mem) (secondFlags term term_mem)
  | pos body ih =>
      rw [flagsHoldAt_pos] at firstFlags secondFlags
      -- An atom of a constant is a constant, about which the rule for the atom does not speak.
      cases constant : body.curvature.isConstant with
      | true => exact keepsCurvature_of_isConstant (by simpa [curvature] using constant)
      | false =>
          have bounds := ih firstFlags secondFlags
          exact bounds.positivePart constant (max_mix_le nonneg le_one _ _)
  | square body ih =>
      rw [flagsHoldAt_square] at firstFlags secondFlags
      cases constant : body.curvature.isConstant with
      | true => exact keepsCurvature_of_isConstant (by simpa [curvature] using constant)
      | false =>
          have bounds := ih firstFlags secondFlags
          have describes := sign_describes_valueAt
            (flagsHoldAt_mixAt nonneg le_one firstFlags secondFlags)
          exact bounds.square describes constant (mix_mul_self_le nonneg le_one _ _)

end Chords

/-- The curvature of an expression is sound: between two assignments that suit it, a convex
expression lies below its chord, a concave one above it and an affine one on it, and a constant one
has only one value. -/
theorem eval_mix {expression : Expression ℚ} {left right : Assignment ℚ} {weight : ℚ}
    (suitsLeft : left.Suits expression) (suitsRight : right.Suits expression)
    (nonneg : 0 ≤ weight) (le_one : weight ≤ 1) :
    ∃ leftValue rightValue mixedValue, expression.eval left = some leftValue ∧
      expression.eval right = some rightValue ∧
        expression.eval (.mix weight left right) = some mixedValue ∧
          (expression.isConvex = true →
            mixedValue ≤ weight * leftValue + (1 - weight) * rightValue) ∧
          (expression.isConcave = true →
            weight * leftValue + (1 - weight) * rightValue ≤ mixedValue) ∧
          (expression.isAffine = true →
            mixedValue = weight * leftValue + (1 - weight) * rightValue) ∧
          (expression.curvature = .constant → leftValue = rightValue) := by
  rcases suitsLeft.exists_point with ⟨first, agreesLeft, firstFlags⟩
  rcases suitsRight.exists_point with ⟨second, agreesRight, secondFlags⟩
  have agreesMixed : ∀ id ∈ expression.occurrences,
      Assignment.mix weight left right id = some (mixAt weight first second id) := by
    intro id occurs
    rw [Assignment.mix, agreesLeft id occurs, agreesRight id occurs]
    rfl
  have bounds := keepsCurvature nonneg le_one firstFlags secondFlags
  refine ⟨_, _, _, eval_eq_valueAt agreesLeft, eval_eq_valueAt agreesRight,
    eval_eq_valueAt agreesMixed, bounds.1, bounds.2, ?_, ?_⟩
  · intro affine
    exact (bounds.eq_of_isAffine affine).symm
  · intro constant
    exact valueAt_eq_of_isConstant (by rw [constant]; rfl) first second

/-- The square of the sum of a positive part and a flagged variable is nine at one end and four at
the other. -/
theorem eval_mix_square_of_nonneg :
    let expression : Expression ℚ :=
      .square (.add (.pos (.var ⟨⟨1⟩, none, false⟩)) (.var ⟨⟨2⟩, none, true⟩))
    let left : Assignment ℚ := fun id => if id = ⟨1⟩ then some 3 else some 0
    let right : Assignment ℚ := fun id => if id = ⟨1⟩ then some (-3) else some 2
    left.Suits expression ∧ right.Suits expression ∧ expression.isConvex = true ∧
      ∃ mixedValue, expression.eval (.mix (1 / 3) left right) = some mixedValue ∧
        mixedValue ≤ 17 / 3 := by
  intro expression left right
  have suitsLeft : left.Suits expression := by
    constructor
    · simp [expression, left, occurrences]
    · simp [expression, left]
  have suitsRight : right.Suits expression := by
    constructor
    · simp [expression, right, occurrences]
    · simp [expression, right]
  have atLeft : expression.eval left = some 9 := by
    norm_num [expression, left, eval]
  have atRight : expression.eval right = some 4 := by
    norm_num [expression, right, eval]
  have third : (0 : ℚ) ≤ 1 / 3 ∧ (1 / 3 : ℚ) ≤ 1 := by norm_num
  rcases eval_mix suitsLeft suitsRight third.1 third.2 with
    ⟨leftValue, rightValue, mixedValue, evaluatedLeft, evaluatedRight, evaluated, below, -⟩
  obtain rfl : 9 = leftValue := Option.some.inj (atLeft.symm.trans evaluatedLeft)
  obtain rfl : 4 = rightValue := Option.some.inj (atRight.symm.trans evaluatedRight)
  have convex : expression.isConvex = true := rfl
  refine ⟨suitsLeft, suitsRight, convex, mixedValue, evaluated, (below convex).trans ?_⟩
  norm_num

end Expression

end HingeLoss
