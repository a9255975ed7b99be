import HingeLoss.Proofs.Standard.Derivation
import HingeLoss.Proofs.Standard.Lookup

/-!
# Canonical forms of weighted sums

The canonical form of a weighted sum of variables needs no auxiliary variables, and its coefficient
for a variable is the sum of the weights that the variable has, in their order. Below a minus sign
the coefficients change their signs and nothing else.
-/

namespace HingeLoss

open Scalar (Same)

namespace LinearForm

variable {K : Type} [Scalar K]

/-- The coefficient of a variable, which is zero for a variable that has none. -/
def coefficientAt (form : LinearForm K) (id : VarId) : K := (form.coefficients.get? id).getD 0

/-- The form that adds up an offset and weighted variables in their order. -/
def weightedSum (offset : K) (terms : List (K × VarId)) : LinearForm K :=
  terms.foldl (fun form term => form.add ((ofVariable term.2).scale term.1))
    (zero.add (ofConstant offset))

theorem coefficientAt_ofVariable (id other : VarId) :
    (ofVariable id : LinearForm K).coefficientAt other = if other = id then 1 else 0 := by
  rw [coefficientAt, ofVariable, Coefficients.get?_single]
  split
  · rfl
  · rfl

section Sums

variable [LawfulArithmetic K] {left right form : LinearForm K} {id : VarId}

theorem coefficientAt_add_of_right_zero (isZero : Same (right.coefficientAt id) 0)
    (number : Same (left.coefficientAt id) (left.coefficientAt id)) :
    Same ((left.add right).coefficientAt id) (left.coefficientAt id) := by
  rw [coefficientAt] at isZero
  rw [coefficientAt, add, Coefficients.get?_add]
  cases found : right.coefficients.get? id with
  | none => exact number
  | some added =>
      rw [found] at isZero
      exact LawfulArithmetic.add_zero_same number isZero

theorem coefficientAt_add_of_left_zero (isZero : Same (left.coefficientAt id) 0)
    (number : Same (right.coefficientAt id) (right.coefficientAt id)) :
    Same ((left.add right).coefficientAt id) (right.coefficientAt id) := by
  rw [coefficientAt] at number
  rw [coefficientAt, add, Coefficients.get?_add, coefficientAt]
  cases found : right.coefficients.get? id with
  | none => exact isZero
  | some added =>
      rw [found] at number
      exact LawfulArithmetic.zero_add_same isZero number

theorem coefficientAt_neg (number : Same (form.coefficientAt id) (form.coefficientAt id)) :
    Same (form.neg.coefficientAt id) (-form.coefficientAt id) := by
  rw [coefficientAt] at number
  rw [coefficientAt, neg, scale, Coefficients.get?_scale, coefficientAt]
  cases found : form.coefficients.get? id with
  | none => exact LawfulArithmetic.neg_zero_same.symm
  | some coefficient =>
      rw [found] at number
      change Same (coefficient * -1) (-coefficient)
      rw [LawfulArithmetic.mul_neg_one]
      exact number.neg

theorem constant_neg (form : LinearForm K) : form.neg.constant = -form.constant :=
  LawfulArithmetic.mul_neg_one form.constant

/-- What a form takes away of another one is the opposite where it has nothing of its own. -/
theorem coefficientAt_sub (isZero : Same (left.coefficientAt id) 0)
    (number : Same (right.coefficientAt id) (right.coefficientAt id)) :
    Same ((left.add right.neg).coefficientAt id) (-right.coefficientAt id) :=
  have negated := coefficientAt_neg number
  (coefficientAt_add_of_left_zero isZero negated.left).trans negated

end Sums

section WeightedSums

variable [LawfulArithmetic K]

theorem get?_scale_ofVariable {weight : K} (finite : Scalar.isFinite weight = true)
    (id other : VarId) :
    ((ofVariable id).scale weight).coefficients.get? other =
      if other = id then some weight else none := by
  rw [scale, Coefficients.get?_scale, ofVariable, Coefficients.get?_single]
  split
  · rw [Option.map_some, LawfulArithmetic.one_mul finite]
  · rfl

theorem coefficientAt_add_scale_ofVariable (form : LinearForm K) {id other : VarId} {weight : K}
    (finite : Scalar.isFinite weight = true) :
    (form.add ((ofVariable id).scale weight)).coefficientAt other =
      if other = id then form.coefficientAt other + weight else form.coefficientAt other := by
  rw [coefficientAt, add, Coefficients.get?_add, get?_scale_ofVariable finite]
  split
  · rfl
  · rfl

theorem coefficientAt_weightedSum {offset : K} {terms : List (K × VarId)}
    (finite : ∀ term ∈ terms, Scalar.isFinite term.1 = true) (id : VarId) :
    (weightedSum offset terms).coefficientAt id =
      Scalar.total ((terms.filter fun term => term.2 == id).map Prod.fst) := by
  have collected : ∀ form : LinearForm K,
      (terms.foldl (fun form term => form.add ((ofVariable term.2).scale term.1))
        form).coefficientAt id =
        ((terms.filter fun term => term.2 == id).map Prod.fst).foldl (· + ·)
          (form.coefficientAt id) := by
    induction terms with
    | nil => exact fun form => rfl
    | cons term rest ih =>
        rw [List.forall_mem_cons] at finite
        intro form
        rw [List.foldl_cons, ih finite.2, coefficientAt_add_scale_ofVariable form finite.1]
        by_cases same : term.2 = id
        · simp [same]
        · simp [same, Ne.symm same]
  exact collected _

theorem constant_weightedSum {offset : K} {terms : List (K × VarId)}
    (offsetFinite : Scalar.isFinite offset = true)
    (finite : ∀ term ∈ terms, Scalar.isFinite term.1 = true) :
    Same (weightedSum offset terms).constant offset := by
  have collected : ∀ form : LinearForm K, Same form.constant offset →
      Same (terms.foldl (fun form term => form.add ((ofVariable term.2).scale term.1))
        form).constant offset := by
    induction terms with
    | nil => exact fun form same => same
    | cons term rest ih =>
        rw [List.forall_mem_cons] at finite
        intro form same
        apply ih finite.2
        exact (LawfulArithmetic.add_zero_same same.left
          (LawfulArithmetic.zero_mul_same finite.1)).trans same
  exact collected _ (LawfulArithmetic.zero_add_same LawfulArithmetic.same_zero
    (LawfulArithmetic.same_of_isFinite offsetFinite))

end WeightedSums

end LinearForm

namespace Canonicalizes

variable {K : Type} [Scalar K] {allowed : Bool} {supply : Supply}

/-- A weighted sum of variables is what it looks like. -/
theorem weightedSum (offset : K) (terms : List (K × Variable)) :
    Canonicalizes allowed supply
      (.weightedSum offset (terms.map fun term => (term.1, .var term.2)))
      (.ofLinear (.weightedSum offset (terms.map fun term => (term.1, term.2.id)))) supply := by
  rw [Expression.weightedSum, List.map_map]
  induction terms using List.reverseRecOn with
  | nil => exact .sumSnoc .sumNil (.const offset)
  | append_singleton terms term ih =>
      rw [List.map_append, List.map_append, LinearForm.weightedSum, List.foldl_append]
      exact .sumSnoc ih (.mulLeft term.1 (.var term.2))

end Canonicalizes

end HingeLoss
