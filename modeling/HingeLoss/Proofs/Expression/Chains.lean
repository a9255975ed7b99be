import HingeLoss.Proofs.Expression.Values
import HingeLoss.Proofs.Scalar.Zeros

/-!
# Sums as chains of additions

A sum with a list of terms is an abbreviation for a chain of additions: every analysis goes through
the terms from left to right with an accumulator, and what the accumulator starts with is neutral.
For curvatures and signs the order of the terms does not matter either.
-/

namespace HingeLoss

open Scalar (EqOrZeros)

namespace Curvature

@[simp]
theorem constant_add (curvature : Curvature) : Curvature.constant.add curvature = curvature := by
  cases curvature <;> rfl

theorem add_right_comm (first second third : Curvature) :
    (first.add second).add third = (first.add third).add second := by
  cases first <;> cases second <;> cases third <;> rfl

end Curvature

namespace Sign

@[simp]
theorem zero_add (sign : Sign) : Sign.zero.add sign = sign := by
  cases sign <;> rfl

theorem add_right_comm (first second third : Sign) :
    (first.add second).add third = (first.add third).add second := by
  cases first <;> cases second <;> cases third <;> rfl

end Sign

namespace Expression

variable {K : Type}

/-- The terms added up by nodes with two parts, from left to right. -/
def chain (first : Expression K) (rest : List (Expression K)) : Expression K :=
  rest.foldl .add first

theorem occurrences_chain (first : Expression K) (rest : List (Expression K)) :
    (chain first rest).occurrences = (sum (first :: rest)).occurrences := by
  simp only [chain, occurrences, listOccurrences]
  induction rest generalizing first with
  | nil => simp [listOccurrences]
  | cons second rest ih => simp [ih, occurrences, listOccurrences]

variable [Scalar K]

theorem sumCurvature_eq_foldl (accumulated : Curvature) (terms : List (Expression K)) :
    sumCurvature accumulated terms =
      terms.foldl (fun accumulated term => accumulated.add term.curvature) accumulated := by
  induction terms generalizing accumulated with
  | nil => simp only [sumCurvature, List.foldl_nil]
  | cons term rest ih => simp only [sumCurvature, List.foldl_cons, ih]

theorem curvature_chain (first : Expression K) (rest : List (Expression K)) :
    (chain first rest).curvature = (sum (first :: rest)).curvature := by
  have added : ∀ left right : Expression K,
      left.curvature.add right.curvature = (add left right).curvature := by
    simp only [curvature, implies_true]
  rw [chain, curvature, sumCurvature, Curvature.constant_add, sumCurvature_eq_foldl]
  exact Eq.symm (List.foldl_hom curvature added)

/-- The curvature of a sum does not depend on the order of its terms. -/
theorem curvature_sum_of_perm {terms others : List (Expression K)} (perm : terms.Perm others) :
    (sum terms).curvature = (sum others).curvature := by
  simp only [curvature, sumCurvature_eq_foldl]
  apply perm.foldl_eq'
  intro first _ second _ accumulated
  exact Curvature.add_right_comm accumulated first.curvature second.curvature

theorem sumSign_eq_foldl (accumulated : Sign) (terms : List (Expression K)) :
    sumSign accumulated terms =
      terms.foldl (fun accumulated term => accumulated.add term.sign) accumulated := by
  induction terms generalizing accumulated with
  | nil => simp only [sumSign, List.foldl_nil]
  | cons term rest ih => simp only [sumSign, List.foldl_cons, ih]

theorem sign_chain (first : Expression K) (rest : List (Expression K)) :
    (chain first rest).sign = (sum (first :: rest)).sign := by
  have added : ∀ left right : Expression K,
      left.sign.add right.sign = (add left right).sign := by
    simp only [sign, implies_true]
  rw [chain, sign, sumSign, Sign.zero_add, sumSign_eq_foldl]
  exact Eq.symm (List.foldl_hom sign added)

/-- The sign of a sum does not depend on the order of its terms. -/
theorem sign_sum_of_perm {terms others : List (Expression K)} (perm : terms.Perm others) :
    (sum terms).sign = (sum others).sign := by
  simp only [sign, sumSign_eq_foldl]
  apply perm.foldl_eq'
  intro first _ second _ accumulated
  exact Sign.add_right_comm accumulated first.sign second.sign

section Values

variable {assignment : Assignment K}

/-- A chain starts from the value of its first term. -/
theorem eval_chain (first : Expression K) (rest : List (Expression K)) :
    (chain first rest).eval assignment =
      (first.eval assignment).bind fun value => evalSum assignment value rest := by
  rw [chain]
  induction rest generalizing first with
  | nil =>
      simp only [List.foldl_nil, evalSum]
      exact (Option.bind_fun_some _).symm
  | cons second rest ih =>
      rw [List.foldl_cons, ih]
      simp only [eval, evalSum]
      cases first.eval assignment with
      | none => rfl
      | some firstValue => cases second.eval assignment <;> rfl

theorem evalSum_eqOrZeros [LawfulZero K] {accumulated other : K}
    (same : EqOrZeros accumulated other) (terms : List (Expression K)) :
    Option.Rel EqOrZeros (evalSum assignment accumulated terms)
      (evalSum assignment other terms) := by
  induction terms generalizing accumulated other with
  | nil =>
      simp only [evalSum]
      exact .some same
  | cons term rest ih =>
      simp only [evalSum]
      cases term.eval assignment with
      | none => exact .none
      | some value => exact ih (same.add_right value)

theorem eval_sum_eqOrZeros [LawfulZero K] (first : Expression K) (rest : List (Expression K)) :
    Option.Rel EqOrZeros ((sum (first :: rest)).eval assignment)
      ((chain first rest).eval assignment) := by
  rw [eval_chain]
  simp only [eval, evalSum]
  cases first.eval assignment with
  | none => exact .none
  | some value => exact evalSum_eqOrZeros (EqOrZeros.zero_add value) rest

end Values

end Expression

end HingeLoss
