import HingeLoss.Proofs.Expression.Nodes
import HingeLoss.Proofs.Expression.Rules
import HingeLoss.Proofs.Expression.Values
import Mathlib.Data.List.Induction

/-!
# Signs of values

The sign that is read off the shape of an expression is the sign of its values: at every assignment
that respects the flags of the variables, an expression takes no value on the other side of zero.
Each node follows the rule of its operation, and a sum the rule for adding one more term.
-/

namespace HingeLoss

/-- The assignment has a value for each variable of the expression, and a nonnegative one for those
that are flagged as nonnegative. -/
structure Assignment.Suits (assignment : Assignment ℚ) (expression : Expression ℚ) : Prop where
  defined : ∀ id ∈ expression.occurrences, ∃ value, assignment id = some value
  flags : ∀ leaf, .var leaf ∈ expression.nodes → leaf.nonneg = true →
    ∀ value, assignment leaf.id = some value → 0 ≤ value

/-- On the variables of an expression that it suits, an assignment is a point. -/
theorem Assignment.Suits.exists_point {assignment : Assignment ℚ} {expression : Expression ℚ}
    (suits : assignment.Suits expression) :
    ∃ point : VarId → ℚ, (∀ id ∈ expression.occurrences, assignment id = some (point id)) ∧
      expression.FlagsHoldAt point := by
  let point : VarId → ℚ := fun id => (assignment id).getD 0
  refine ⟨point, ?_, ?_⟩
  · intro id occurs
    rcases suits.defined id occurs with ⟨value, assigned⟩
    simp only [point, assigned, Option.getD_some]
  · intro leaf leaf_mem flagged
    cases assigned : assignment leaf.id with
    | none => simp [point, assigned]
    | some value =>
        have nonneg := suits.flags leaf leaf_mem flagged value assigned
        simpa only [point, assigned, Option.getD_some] using nonneg

namespace Expression

variable {expression : Expression ℚ} {terms : List (Expression ℚ)} {point : VarId → ℚ}

theorem describes_valueAt_sum
    (each : ∀ term ∈ terms, term.sign.Describes (term.valueAt point)) :
    (sum terms).sign.Describes ((sum terms).valueAt point) := by
  induction terms using List.reverseRecOn with
  | nil => exact Sign.describes_zero
  | append_singleton terms term ih =>
      have fromTerms := ih fun other member => each other (List.mem_append_left _ member)
      have fromTerm := each term (by simp)
      rw [sign_sum_snoc, valueAt_sum_snoc]
      exact fromTerms.add fromTerm

/-- Where the flags of its variables hold, an expression has a value of its sign. -/
theorem sign_describes_valueAt (flags : expression.FlagsHoldAt point) :
    expression.sign.Describes (expression.valueAt point) := by
  induction expression with
  | var leaf =>
      simp only [sign]
      split
      case isTrue flagged =>
        exact Sign.describes_nonnegative (flags leaf (self_mem_nodes _) flagged)
      case isFalse => exact Sign.describes_unknown _
  | const value => exact Sign.describes_ofValue value
  | add left right ihLeft ihRight =>
      rw [flagsHoldAt_add] at flags
      exact (ihLeft flags.1).add (ihRight flags.2)
  | neg body ih =>
      rw [flagsHoldAt_neg] at flags
      exact (ih flags).negate
  | mul left right ihLeft ihRight =>
      rw [flagsHoldAt_mul] at flags
      exact (ihLeft flags.1).mul (ihRight flags.2)
  | sum terms ih =>
      rw [flagsHoldAt_sum] at flags
      exact describes_valueAt_sum fun term term_mem => ih term term_mem (flags term term_mem)
  | pos body _ => exact Sign.describes_nonnegative (le_max_right _ 0)
  | square body _ => exact Sign.describes_nonnegative (mul_self_nonneg _)

/-- The sign of an expression is the sign of its value at every assignment that suits it. -/
theorem eval_has_sign {assignment : Assignment ℚ} (suits : assignment.Suits expression) :
    ∃ value, expression.eval assignment = some value ∧
      (expression.sign.isNonneg = true → 0 ≤ value) ∧
        (expression.sign.isNonpos = true → value ≤ 0) ∧
          (expression.sign = .zero → value = 0) := by
  rcases suits.exists_point with ⟨point, agrees, flags⟩
  have describes := sign_describes_valueAt flags
  refine ⟨_, eval_eq_valueAt agrees, describes.1, describes.2, ?_⟩
  intro isZero
  rw [isZero] at describes
  exact describes.eq_zero

/-- The product of the opposite of a positive part with the sum of a negative number and the
opposite of a flagged variable. -/
theorem eval_has_sign_of_nonpos_mul_nonpos :
    let free : Variable := ⟨⟨1⟩, none, false⟩
    let flagged : Variable := ⟨⟨2⟩, none, true⟩
    let expression : Expression ℚ :=
      .mul (.neg (.pos (.var free))) (.sum [.const (-2), .neg (.var flagged)])
    let assignment : Assignment ℚ := fun id => if id = ⟨1⟩ then some 3 else some 1
    assignment.Suits expression ∧ expression.sign = .nonnegative ∧
      ∃ value, expression.eval assignment = some value ∧ 0 ≤ value := by
  intro free flagged expression assignment
  have suits : assignment.Suits expression := by
    constructor
    · simp [expression, assignment, free, flagged, occurrences, listOccurrences]
    · simp [expression, assignment, free, flagged]
  have nonneg : expression.sign = .nonnegative := by
    norm_num [expression, free, flagged, sign, sumSign, Sign.ofValue, Sign.negate, Sign.add,
      Sign.mul]
  rcases eval_has_sign suits with ⟨value, evaluated, above, -, -⟩
  exact ⟨suits, nonneg, value, evaluated, above (by rw [nonneg]; rfl)⟩

end Expression

end HingeLoss
