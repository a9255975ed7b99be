import HingeLoss.Proofs.Standard.Faithfulness

/-!
# Exactness of canonical forms

The rules of disciplined convex programming place every atom where a value above the atom's own can
only do harm: a loose value of a convex expression lies above its value, and one of a concave
expression below. This fails for an atom of a constant, which the rules admit everywhere. What
remains of looseness under the rules is therefore the looseness of the atoms that count as constant.
-/

namespace HingeLoss

namespace Expression

/-- The atoms that the composition rules take for constants. -/
def isConstantAtom {K : Type} [Scalar K] (expression : Expression K) : Bool :=
  expression.isAtom && expression.curvature.isConstant

@[simp]
theorem isConstantAtom_pos {K : Type} [Scalar K] (body : Expression K) :
    body.pos.isConstantAtom = body.curvature.isConstant := by
  simp [isConstantAtom, isAtom, curvature]

@[simp]
theorem isConstantAtom_square {K : Type} [Scalar K] (body : Expression K) :
    body.square.isConstantAtom = body.curvature.isConstant := by
  simp [isConstantAtom, isAtom, curvature]

end Expression

namespace Loosened

variable {loose : Expression ℚ → Bool} {point : VarId → ℚ} {allowed : Bool}
  {expression : Expression ℚ} {value : ℚ}

/-- Loose values have the sign that an expression is known to have. -/
theorem sign_describes (loosened : Loosened loose point allowed expression value)
    (flags : expression.FlagsHoldAt point) : expression.sign.Describes value := by
  induction loosened with
  | var leaf =>
      simp only [Expression.sign]
      split
      case isTrue flagged =>
        exact Sign.describes_nonnegative (flags leaf (Expression.self_mem_nodes _) flagged)
      case isFalse => exact Sign.describes_unknown _
  | const value => exact Sign.describes_ofValue value
  | add _ _ ihLeft ihRight =>
      rw [Expression.flagsHoldAt_add] at flags
      exact (ihLeft flags.1).add (ihRight flags.2)
  | neg _ ih => exact (ih (Expression.flagsHoldAt_neg.1 flags)).negate
  | mulLeft factor _ ih =>
      rw [mul_comm]
      exact (Sign.describes_ofValue factor).mul (ih (Expression.flagsHoldAt_mul.1 flags).2)
  | mulRight factor _ _ ih =>
      exact (ih (Expression.flagsHoldAt_mul.1 flags).1).mul (Sign.describes_ofValue factor)
  | sumNil => exact Sign.describes_zero
  | sumSnoc _ _ ihTerms ihTerm =>
      rw [Expression.flagsHoldAt_sum_snoc] at flags
      rw [Expression.sign_sum_snoc]
      exact (ihTerms flags.1).add (ihTerm flags.2)
  | pos _ above _ _ => exact Sign.describes_nonnegative ((le_max_right _ 0).trans above)
  | squareKept _ _ => exact Sign.describes_nonnegative (mul_self_nonneg _)
  | squareAbove _ above _ _ =>
      exact Sign.describes_nonnegative ((mul_self_nonneg _).trans above)

section Atoms

-- Every atom is bounded by one that is loose only if it counts as a constant: it stays loose then,
-- and its argument was reached without changing it.
variable {body : Expression ℚ} {strict inner : ℚ}

theorem exists_bounds_pos (fromBody : Loosened Expression.isConstantAtom point false body strict)
    (bounds : body.curvature.Bounds strict inner) (above : max inner 0 ≤ value) :
    ∃ atom, Loosened Expression.isConstantAtom point allowed (.pos body) atom ∧
      (Expression.pos body).curvature.Bounds atom value := by
  cases constant : body.curvature.isConstant with
  | true =>
      rw [bounds.eq_of_isConstant constant] at above
      refine ⟨value, .pos fromBody above fun claimed => ?_, .refl _ _⟩
      simp [constant] at claimed
  | false => exact ⟨_, .pos fromBody (le_refl _) fun _ => rfl, bounds.positivePart constant above⟩

theorem exists_bounds_squareKept
    (fromBody : Loosened Expression.isConstantAtom point false body strict)
    (flags : body.FlagsHoldAt point) (bounds : body.curvature.Bounds strict inner) :
    ∃ atom, Loosened Expression.isConstantAtom point true (.square body) atom ∧
      (Expression.square body).curvature.Bounds atom (inner * inner) := by
  refine ⟨_, .squareKept fromBody, ?_⟩
  cases constant : body.curvature.isConstant with
  | true =>
      rw [bounds.eq_of_isConstant constant]
      exact .refl _ _
  | false => exact bounds.square (fromBody.sign_describes flags) constant (le_refl _)

theorem exists_bounds_squareAbove
    (fromBody : Loosened Expression.isConstantAtom point false body strict)
    (flags : body.FlagsHoldAt point) (bounds : body.curvature.Bounds strict inner)
    (above : inner * inner ≤ value) :
    ∃ atom, Loosened Expression.isConstantAtom point false (.square body) atom ∧
      (Expression.square body).curvature.Bounds atom value := by
  cases constant : body.curvature.isConstant with
  | true =>
      rw [bounds.eq_of_isConstant constant] at above
      refine ⟨value, .squareAbove fromBody above fun claimed => ?_, .refl _ _⟩
      simp [constant] at claimed
  | false =>
      exact ⟨_, .squareAbove fromBody (le_refl _) fun _ => rfl,
        bounds.square (fromBody.sign_describes flags) constant above⟩

end Atoms

/-- Under the composition rules, making all atoms loose instead of only those that count as constant
moves the value of a convex expression upwards, and that of a concave one downwards. -/
theorem exists_bounds (loosened : Loosened (fun _ => true) point allowed expression value)
    (flags : expression.FlagsHoldAt point) :
    ∃ strict, Loosened Expression.isConstantAtom point allowed expression strict ∧
      expression.curvature.Bounds strict value := by
  induction loosened with
  | var leaf => exact ⟨_, .var leaf, .refl _ _⟩
  | const value => exact ⟨_, .const value, .refl _ _⟩
  | add _ _ ihLeft ihRight =>
      rw [Expression.flagsHoldAt_add] at flags
      rcases ihLeft flags.1 with ⟨leftStrict, fromLeft, boundsLeft⟩
      rcases ihRight flags.2 with ⟨rightStrict, fromRight, boundsRight⟩
      exact ⟨_, .add fromLeft fromRight, boundsLeft.add boundsRight⟩
  | neg _ ih =>
      rcases ih (Expression.flagsHoldAt_neg.1 flags) with ⟨strict, fromBody, bounds⟩
      exact ⟨_, .neg fromBody, bounds.negate⟩
  | @mulLeft _ right _ factor _ ih =>
      rcases ih (Expression.flagsHoldAt_mul.1 flags).2 with ⟨strict, fromRight, bounds⟩
      exact ⟨_, .mulLeft factor fromRight, bounds.product_left factor right.constant?⟩
  | mulRight factor notLiteral _ ih =>
      rcases ih (Expression.flagsHoldAt_mul.1 flags).1 with ⟨strict, fromLeft, bounds⟩
      refine ⟨_, .mulRight factor notLiteral fromLeft, ?_⟩
      rw [Expression.curvature, notLiteral]
      exact bounds.product_right factor
  | sumNil => exact ⟨_, .sumNil, .refl _ _⟩
  | sumSnoc _ _ ihTerms ihTerm =>
      rw [Expression.flagsHoldAt_sum_snoc] at flags
      rcases ihTerms flags.1 with ⟨termsStrict, fromTerms, boundsTerms⟩
      rcases ihTerm flags.2 with ⟨termStrict, fromTerm, boundsTerm⟩
      refine ⟨_, .sumSnoc fromTerms fromTerm, ?_⟩
      rw [Expression.curvature_sum_snoc]
      exact boundsTerms.add boundsTerm
  | pos _ above _ ih =>
      rcases ih (Expression.flagsHoldAt_pos.1 flags) with ⟨strict, fromBody, bounds⟩
      exact exists_bounds_pos fromBody bounds above
  | squareKept _ ih =>
      have flagsBody := Expression.flagsHoldAt_square.1 flags
      rcases ih flagsBody with ⟨strict, fromBody, bounds⟩
      exact exists_bounds_squareKept fromBody flagsBody bounds
  | squareAbove _ above _ ih =>
      have flagsBody := Expression.flagsHoldAt_square.1 flags
      rcases ih flagsBody with ⟨strict, fromBody, bounds⟩
      exact exists_bounds_squareAbove fromBody flagsBody bounds above

/-- Without atoms of constants, a loose value stands to the value itself as the curvature of the
expression says. -/
theorem bounds_valueAt (loosened : Loosened (fun _ => true) point allowed expression value)
    (flags : expression.FlagsHoldAt point)
    (strictAtoms : ∀ node ∈ expression.nodes, node.isConstantAtom = false) :
    expression.curvature.Bounds (expression.valueAt point) value := by
  rcases loosened.exists_bounds flags with ⟨strict, fromStrict, bounds⟩
  rwa [fromStrict.eq_valueAt fun node member _ => strictAtoms node member] at bounds

end Loosened

namespace Expression

open Canonicalizing

/-- Where the constraints of a canonical form hold, the form lies on that side of the value of the
expression on which the curvature of the expression puts it, unless there are atoms of constants. -/
theorem canonicalize_bounds_value {expression : Expression ℚ} {allowed : Bool}
    {before after : Supply} {result : Canonical ℚ}
    (noConstantAtoms : ∀ node ∈ expression.nodes, node.isAtom = true → node.curvature ≠ .constant)
    (returns : (expression.canonicalize allowed).Returns before result after)
    {values : VarId → ℚ} (holds : ∀ cone ∈ result.cones, cone.HoldsAt values)
    (flags : expression.FlagsHoldAt values) {assignment : Assignment ℚ}
    (agrees : ∀ id ∈ expression.occurrences, assignment id = some (values id)) :
    ∃ value, expression.eval assignment = some value ∧
      (expression.isConvex = true → value ≤ result.form.valueAt values) ∧
        (expression.isConcave = true → result.form.valueAt values ≤ value) ∧
          (expression.isAffine = true → result.form.valueAt values = value) := by
  have strictAtoms : ∀ node ∈ expression.nodes, node.isConstantAtom = false := by
    intro node node_mem
    have notConstant := noConstantAtoms node node_mem
    cases atom : node.isAtom with
    | false => simp [isConstantAtom, atom]
    | true =>
        simp only [isConstantAtom, Curvature.isConstant]
        cases curvature : node.curvature <;> simp_all
  have loosened := (canonicalizes_of_returns returns).loosened_of_holdsAt holds
  have bounds := loosened.bounds_valueAt flags strictAtoms
  exact ⟨_, eval_eq_valueAt agrees, bounds.1, bounds.2, bounds.eq_of_isAffine⟩

theorem canonicalize_bounds_value_pos :
    let expression : Expression ℚ := .pos (.var ⟨⟨1⟩, none, false⟩)
    let values : VarId → ℚ := fun id => if id = ⟨1⟩ then -3 else 5
    ∃ result after, (expression.canonicalize false).Returns ⟨2⟩ result after ∧
      (∀ cone ∈ result.cones, cone.HoldsAt values) ∧
        ∃ value, expression.eval (.ofPoint values) = some value ∧
          value ≤ result.form.valueAt values := by
  intro expression values
  have derivation : Canonicalizes false ⟨2⟩ expression _ _ := .pos (.var ⟨⟨1⟩, none, false⟩) rfl
  have returns := returns_of_canonicalizes derivation
  have holds : ∀ cone ∈ [Cone.nonneg (LinearForm.ofVariable (⟨2⟩ : VarId)),
      .nonneg ((LinearForm.ofVariable ⟨2⟩).add (LinearForm.ofVariable ⟨1⟩).neg)],
      cone.HoldsAt values := by
    simp [Cone.HoldsAt, values]
    norm_num
  have noConstantAtoms : ∀ node ∈ expression.nodes,
      node.isAtom = true → node.curvature ≠ .constant := by
    simp [expression, nodes, isAtom, curvature, Curvature.positivePart, Curvature.isConstant,
      Curvature.isConvex]
  have flags : expression.FlagsHoldAt values := by
    simp [expression, FlagsHoldAt, nodes]
  rcases canonicalize_bounds_value noConstantAtoms returns holds flags (fun _ _ => rfl) with
    ⟨value, evaluated, below, -, -⟩
  exact ⟨_, _, returns, holds, value, evaluated, below rfl⟩

end Expression

end HingeLoss
