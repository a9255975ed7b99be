import HingeLoss.Proofs.Standard.Auxiliaries
import HingeLoss.Proofs.Standard.Values

/-!
# Definiteness of canonical forms

The products of a canonical form are squares with nonnegative coefficients. Squares enter with
coefficient one, sums only merge them, and a factor that could turn a coefficient negative has made
sure beforehand that there are none: below a negative factor or a minus sign every square is
replaced by an auxiliary variable.
-/

namespace HingeLoss

namespace Coefficients

variable {κ : Type} [Ord κ]

/-- What holds of coefficients and is inherited by their sums holds after an addition. -/
theorem forall_mem_updateEntries [Std.LawfulEqOrd κ] {Property : κ → ℚ → Prop}
    (closed : ∀ key left right, Property key left → Property key right →
      Property key (left + right))
    {key : κ} {added : ℚ} (new : Property key added) {entries : List (κ × ℚ)}
    (each : ∀ entry ∈ entries, Property entry.1 entry.2) :
    ∀ entry ∈ updateEntries key (fun old => old.getD 0 + added) entries,
      Property entry.1 entry.2 := by
  have first : Property key (0 + added) := by rwa [zero_add]
  induction entries with
  | nil => exact List.forall_mem_singleton.2 first
  | cons head rest ih =>
      rcases head with ⟨headKey, coefficient⟩
      rcases List.forall_mem_cons.1 each with ⟨atHead, inRest⟩
      simp only [updateEntries]
      split
      case h_1 before => exact List.forall_mem_cons.2 ⟨first, each⟩
      case h_2 equal =>
        have sameKey : key = headKey := Std.LawfulEqOrd.eq_of_compare equal
        refine List.forall_mem_cons.2 ⟨?_, inRest⟩
        exact closed headKey coefficient added atHead (sameKey ▸ new)
      case h_3 after => exact List.forall_mem_cons.2 ⟨atHead, ih inRest⟩

theorem forall_mem_add [Std.TransOrd κ] [Std.LawfulEqOrd κ] (Property : κ → ℚ → Prop)
    (closed : ∀ key left right, Property key left → Property key right →
      Property key (left + right))
    {left right : Coefficients κ ℚ} (fromLeft : ∀ entry ∈ left.entries, Property entry.1 entry.2)
    (fromRight : ∀ entry ∈ right.entries, Property entry.1 entry.2) :
    ∀ entry ∈ (left.add right).entries, Property entry.1 entry.2 := by
  refine List.foldlRecOn (motive := fun sum : Coefficients κ ℚ =>
    ∀ entry ∈ sum.entries, Property entry.1 entry.2) right.entries _ fromLeft ?_
  intro sum each entry member
  exact forall_mem_updateEntries closed (fromRight entry member) each

end Coefficients

namespace QuadraticForm

/-- Every product is a square, and its coefficient is not negative. -/
def IsSumOfSquares (form : QuadraticForm ℚ) : Prop :=
  ∀ entry ∈ form.products.entries, entry.1.1 = entry.1.2 ∧ 0 ≤ entry.2

variable {form left right : QuadraticForm ℚ}

theorem isSumOfSquares_ofLinear (form : LinearForm ℚ) : (ofLinear form).IsSumOfSquares :=
  fun _ member => absurd member List.not_mem_nil

theorem isSumOfSquares_square (id : VarId) : (square id (1 : ℚ)).IsSumOfSquares :=
  List.forall_mem_singleton.2 ⟨rfl, zero_le_one⟩

theorem IsSumOfSquares.add (fromLeft : left.IsSumOfSquares) (fromRight : right.IsSumOfSquares) :
    (left.add right).IsSumOfSquares := by
  apply Coefficients.forall_mem_add fun (pair : VarId × VarId) coefficient =>
    pair.1 = pair.2 ∧ 0 ≤ coefficient
  · rintro pair leftCoefficient rightCoefficient ⟨square, leftNonneg⟩ ⟨-, rightNonneg⟩
    exact ⟨square, add_nonneg leftNonneg rightNonneg⟩
  · exact fromLeft
  · exact fromRight

theorem IsSumOfSquares.scale (squares : form.IsSumOfSquares) {factor : ℚ} (nonneg : 0 ≤ factor) :
    (form.scale factor).IsSumOfSquares := by
  change ∀ entry ∈ form.products.entries.map _, _
  rw [List.forall_mem_map]
  intro entry member
  rcases squares entry member with ⟨square, coefficientNonneg⟩
  exact ⟨square, mul_nonneg coefficientNonneg nonneg⟩

end QuadraticForm

namespace StandardForm

theorem isSumOfSquares_add {left right : StandardForm ℚ}
    (fromLeft : left.toQuadratic.IsSumOfSquares) (fromRight : right.toQuadratic.IsSumOfSquares) :
    (left.add right).toQuadratic.IsSumOfSquares := by
  cases left with
  | quadratic left => exact fromLeft.add fromRight
  | linear left =>
      cases right with
      | linear right => exact QuadraticForm.isSumOfSquares_ofLinear _
      | quadratic right => exact fromLeft.add fromRight

/-- A nonnegative factor keeps squares what they are, and any factor does if there are none. -/
theorem isSumOfSquares_scale {form : StandardForm ℚ} {factor : ℚ}
    (squares : form.toQuadratic.IsSumOfSquares)
    (allowed : 0 ≤ factor ∨ ∃ linear, form = .linear linear) :
    (form.scale factor).toQuadratic.IsSumOfSquares := by
  rcases allowed with nonneg | ⟨linear, rfl⟩
  · cases form with
    | linear form => exact QuadraticForm.isSumOfSquares_ofLinear _
    | quadratic form => exact squares.scale nonneg
  · exact QuadraticForm.isSumOfSquares_ofLinear _

end StandardForm

namespace Canonicalizes

variable {allowed : Bool} {before after : Supply} {expression : Expression ℚ}
  {result inner : Canonical ℚ}

/-- Whatever a negative factor multiplies has become linear. -/
theorem nonneg_or_exists_linear {factor : ℚ}
    (derivation : Canonicalizes (allowed && 0 ≤ factor) before expression inner after) :
    0 ≤ factor ∨ ∃ linear, inner.form = .linear linear := by
  by_cases nonneg : 0 ≤ factor
  · exact .inl nonneg
  · refine .inr (derivation.exists_linear ?_)
    rw [decide_eq_false nonneg, Bool.and_false]

theorem isSumOfSquares (derivation : Canonicalizes allowed before expression result after) :
    result.form.toQuadratic.IsSumOfSquares := by
  induction derivation with
  | var _ | const _ | neg _ _ _ | sumNil | pos _ _ _ | squareAbove _ _ _ =>
      exact QuadraticForm.isSumOfSquares_ofLinear _
  | add _ _ ihLeft ihRight => exact StandardForm.isSumOfSquares_add ihLeft ihRight
  | sumSnoc _ _ ihTerms ihTerm => exact StandardForm.isSumOfSquares_add ihTerms ihTerm
  | mulLeft factor fromRight ih =>
      exact StandardForm.isSumOfSquares_scale ih fromRight.nonneg_or_exists_linear
  | mulRight factor _ fromLeft ih =>
      exact StandardForm.isSumOfSquares_scale ih fromLeft.nonneg_or_exists_linear
  | squareVariable _ _ _ _ | squareEqual _ _ _ _ => exact QuadraticForm.isSumOfSquares_square _

end Canonicalizes

end HingeLoss
