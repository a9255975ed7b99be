import HingeLoss.Proofs.Standard.Faithfulness
import HingeLoss.Proofs.Standard.Success

/-!
# Squares kept and squares bounded

A square may be kept as a quadratic term, or replaced by an auxiliary variable above it. The two
ways give different forms, different constraints and different auxiliary variables, but the same
minima: a kept square has the least of the values that the auxiliary variable of a bounded one may
take, and squares are only kept where a smaller value makes the whole smaller, in sums and in
multiples that are not negative.
-/

namespace HingeLoss

namespace Loosened

variable {loose : Expression ℚ → Bool} {point : VarId → ℚ} {allowed : Bool}
  {expression : Expression ℚ} {value : ℚ}

/-- Whatever is reached in one way is not below something that is reached in the other way. -/
theorem exists_le (loosened : Loosened loose point allowed expression value) (other : Bool) :
    ∃ lower ≤ value, Loosened loose point other expression lower := by
  induction loosened generalizing other with
  | var leaf => exact ⟨_, le_refl _, .var leaf⟩
  | const value => exact ⟨_, le_refl _, .const value⟩
  | add _ _ ihLeft ihRight =>
      rcases ihLeft other with ⟨leftLower, leftBelow, fromLeft⟩
      rcases ihRight other with ⟨rightLower, rightBelow, fromRight⟩
      exact ⟨_, add_le_add leftBelow rightBelow, .add fromLeft fromRight⟩
  | neg fromBody _ => exact ⟨_, le_refl _, .neg fromBody⟩
  | mulLeft factor fromRight ih =>
      by_cases nonneg : 0 ≤ factor
      · rcases ih (other && 0 ≤ factor) with ⟨lower, below, fromRight⟩
        exact ⟨_, mul_le_mul_of_nonneg_right below nonneg, .mulLeft factor fromRight⟩
      · -- Under a negative factor squares are bounded in both ways.
        simp only [nonneg, decide_false, Bool.and_false] at fromRight
        exact ⟨_, le_refl _, .mulLeft factor (by simpa [nonneg] using fromRight)⟩
  | mulRight factor notLiteral fromLeft ih =>
      by_cases nonneg : 0 ≤ factor
      · rcases ih (other && 0 ≤ factor) with ⟨lower, below, fromLeft⟩
        exact ⟨_, mul_le_mul_of_nonneg_right below nonneg, .mulRight factor notLiteral fromLeft⟩
      · simp only [nonneg, decide_false, Bool.and_false] at fromLeft
        exact ⟨_, le_refl _, .mulRight factor notLiteral (by simpa [nonneg] using fromLeft)⟩
  | sumNil => exact ⟨_, le_refl _, .sumNil⟩
  | sumSnoc _ _ ihTerms ihTerm =>
      rcases ihTerms other with ⟨termsLower, termsBelow, fromTerms⟩
      rcases ihTerm other with ⟨termLower, termBelow, fromTerm⟩
      exact ⟨_, add_le_add termsBelow termBelow, .sumSnoc fromTerms fromTerm⟩
  | pos fromBody above tight _ => exact ⟨_, le_refl _, .pos fromBody above tight⟩
  | squareKept fromBody _ =>
      cases other with
      | false => exact ⟨_, le_refl _, .squareAbove fromBody (le_refl _) fun _ => rfl⟩
      | true => exact ⟨_, le_refl _, .squareKept fromBody⟩
  | squareAbove fromBody above tight _ =>
      cases other with
      | false => exact ⟨_, le_refl _, .squareAbove fromBody above tight⟩
      | true => exact ⟨_, above, .squareKept fromBody⟩

end Loosened

/-- The auxiliary variables can be given values at which all constraints hold and the form is at
most the bound. -/
def Canonical.Attains (canonical : Canonical ℚ) (point : VarId → ℚ) (bound : ℚ) : Prop :=
  ExtendsTo point canonical.auxiliaries fun values =>
    (∀ cone ∈ canonical.cones, cone.HoldsAt values) ∧ canonical.form.valueAt values ≤ bound

/-- A canonical form attains a bound at a point exactly when a loose value of the expression
does. -/
theorem Canonicalizes.attains_iff {allowed : Bool} {before after : Supply}
    {expression : Expression ℚ} {result : Canonical ℚ} {point : VarId → ℚ} {bound : ℚ}
    (derivation : Canonicalizes allowed before expression result after)
    (issued : ∀ id ∈ expression.occurrences, before.Issued id) :
    result.Attains point bound ↔
      ∃ value ≤ bound, Loosened (fun _ => true) point allowed expression value := by
  rw [Canonical.Attains, derivation.auxiliaries_eq_drawn]
  constructor
  · rintro ⟨values, off, holds, below⟩
    refine ⟨_, below, (derivation.loosened_of_holdsAt holds).congr ?_⟩
    intro id occurs
    exact off id (issued id occurs).not_mem_drawn
  · rintro ⟨value, below, loosened⟩
    apply (derivation.extendsTo_of_loosened issued loosened).imp
    rintro values ⟨holds, reached⟩
    exact ⟨holds, reached.trans_le below⟩

namespace Expression

open Canonicalizing

/-- If an expression has a canonical form at all, it has one with squares kept and one with squares
bounded, from whatever supplies that have issued its variables, and the two attain the same bounds
at every point. -/
theorem canonicalize_attains_iff {expression : Expression ℚ} {allowed : Bool}
    {before after : Supply} {result : Canonical ℚ}
    (returns : (expression.canonicalize allowed).Returns before result after)
    {first second : Supply} (issuedFirst : ∀ id ∈ expression.occurrences, first.Issued id)
    (issuedSecond : ∀ id ∈ expression.occurrences, second.Issued id) :
    ∃ kept bounded afterKept afterBounded,
      (expression.canonicalize true).Returns first kept afterKept ∧
        (expression.canonicalize false).Returns second bounded afterBounded ∧
          ∀ point bound, kept.Attains point bound ↔ bounded.Attains point bound := by
  have literal := (canonicalizes_of_returns returns).hasLiteralProducts
  rcases exists_canonicalizes literal true first with ⟨kept, afterKept, fromKept⟩
  rcases exists_canonicalizes literal false second with ⟨bounded, afterBounded, fromBounded⟩
  refine ⟨kept, bounded, afterKept, afterBounded, returns_of_canonicalizes fromKept,
    returns_of_canonicalizes fromBounded, ?_⟩
  intro point bound
  rw [fromKept.attains_iff issuedFirst, fromBounded.attains_iff issuedSecond]
  constructor
  · rintro ⟨value, below, loosened⟩
    rcases loosened.exists_le false with ⟨lower, lowerBelow, fromOther⟩
    exact ⟨lower, lowerBelow.trans below, fromOther⟩
  · rintro ⟨value, below, loosened⟩
    rcases loosened.exists_le true with ⟨lower, lowerBelow, fromOther⟩
    exact ⟨lower, lowerBelow.trans below, fromOther⟩

/-- The square of `x + 1` under the factor zero, less twice the square of `x`. And the square of one
less than the positive part of `x`, which is four where `x` is three: there it attains four and
whatever is above. -/
theorem canonicalize_attains_iff_of_concave :
    let leaf : Variable := ⟨⟨1⟩, some "x", false⟩
    let expression : Expression ℚ :=
      .add (.mul (.const 0) (.square (.add (.var leaf) (.const 1))))
        (.mul (.square (.var leaf)) (.const (-2)))
    let shifted : Expression ℚ := .square (.add (.pos (.var leaf)) (.const (-1)))
    (expression.isConvex = false ∧ (∀ id ∈ expression.occurrences, (⟨2⟩ : Supply).Issued id) ∧
        ∃ kept bounded afterKept afterBounded,
          (expression.canonicalize true).Returns ⟨2⟩ kept afterKept ∧
            (expression.canonicalize false).Returns ⟨2⟩ bounded afterBounded ∧
              ∀ point bound, kept.Attains point bound ↔ bounded.Attains point bound) ∧
      ∃ kept bounded afterKept afterBounded,
        (shifted.canonicalize true).Returns ⟨2⟩ kept afterKept ∧
          (shifted.canonicalize false).Returns ⟨2⟩ bounded afterBounded ∧
            (∀ point bound, kept.Attains point bound ↔ bounded.Attains point bound) ∧
              ∀ bound, kept.Attains (fun _ => 3) bound ↔ 4 ≤ bound := by
  intro leaf expression shifted
  have notConvex : expression.isConvex = false := by
    norm_num [expression, isConvex, curvature, constant?, Curvature.product, Curvature.scale,
      Curvature.square, Curvature.add, Curvature.negate, Curvature.isConstant, Curvature.isAffine,
      Curvature.isConvex]
  have issued : ∀ id ∈ expression.occurrences, (⟨2⟩ : Supply).Issued id := by
    simp [expression, leaf, occurrences, Supply.Issued]
  have literal : expression.HasLiteralProducts := by simp [expression]
  rcases exists_canonicalizes literal true ⟨2⟩ with ⟨result, after, derivation⟩
  refine ⟨⟨notConvex, issued,
    canonicalize_attains_iff (returns_of_canonicalizes derivation) issued issued⟩, ?_⟩
  have shiftedIssued : ∀ id ∈ shifted.occurrences, (⟨2⟩ : Supply).Issued id := by
    simp [shifted, leaf, occurrences, Supply.Issued]
  have shiftedLiteral : shifted.HasLiteralProducts := by simp [shifted]
  rcases exists_canonicalizes shiftedLiteral true ⟨2⟩ with ⟨result, after, derivation⟩
  rcases canonicalize_attains_iff (returns_of_canonicalizes derivation) shiftedIssued
    shiftedIssued with ⟨kept, bounded, afterKept, afterBounded, fromKept, fromBounded, same⟩
  refine ⟨kept, bounded, afterKept, afterBounded, fromKept, fromBounded, same, ?_⟩
  intro bound
  rw [(canonicalizes_of_returns fromKept).attains_iff shiftedIssued]
  constructor
  · rintro ⟨value, below, loosened⟩
    change Loosened _ _ true (.square (.add (.pos (.var leaf)) (.const (-1)))) value at loosened
    cases loosened with
    | squareKept fromDifference =>
        cases fromDifference with
        | add fromPos fromOne =>
            cases fromOne
            cases fromPos with
            | pos fromLeaf atLeast _ =>
                cases fromLeaf
                have three_le := (le_max_left _ _).trans atLeast
                nlinarith
  · intro above
    have fromPos : Loosened (fun _ => true) (fun _ => 3) false (.pos (.var leaf)) 3 :=
      .pos (.var leaf) (by norm_num) (by simp)
    refine ⟨_, ?_, .squareKept (.add fromPos (.const (-1)))⟩
    norm_num
    exact above

end Expression

end HingeLoss
