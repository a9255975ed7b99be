import HingeLoss.Proofs.Standard.Values
import HingeLoss.Proofs.Standard.WeightedSums
import Mathlib.Algebra.BigOperators.Group.Finset.Basic

/-!
# Evaluation as a homomorphism

A form stores its coefficients in a row, and a sum of forms is made by merging two such rows entry
by entry. Its value knows nothing of this. It is a sum over the distinct variables, or pairs of
variables, of the form, each of which has one coefficient, and evaluation takes sums, multiples and
opposites of forms to those of their values.

A quadratic form has two places for a constant. Both are counted, but the one in the linear part is
left at zero by everything that makes a quadratic form or computes with one, and so it is zero in
every canonical form.
-/

namespace HingeLoss

namespace Coefficients

variable {κ : Type} [Ord κ] [DecidableEq κ] [Std.TransOrd κ]

omit [DecidableEq κ] in
theorem nodup_keys {K : Type} (coefficients : Coefficients κ K) : coefficients.keys.Nodup :=
  List.pairwise_map.2 (coefficients.increasing.imp ne_of_compare_eq_lt)

theorem get?_of_mem [Std.LawfulEqOrd κ] {K : Type} {coefficients : Coefficients κ K} {entry : κ × K}
    (member : entry ∈ coefficients.entries) : coefficients.get? entry.1 = some entry.2 := by
  have found : entry ∈ coefficients.entries.filter fun other => other.1 == entry.1 :=
    List.mem_filter.2 ⟨member, beq_self_eq_true entry.1⟩
  rw [filter_eq_toList_get?, List.mem_map] at found
  rcases found with ⟨coefficient, stored, same⟩
  rw [Option.mem_toList.1 stored, ← same]

/-- Each key is there once, so a sum over the entries is a sum over the set of keys. -/
theorem sumAt_eq_sum_keys [Std.LawfulEqOrd κ] (coefficients : Coefficients κ ℚ) (weight : κ → ℚ) :
    coefficients.sumAt weight =
      ∑ key ∈ coefficients.keys.toFinset, (coefficients.get? key).getD 0 * weight key := by
  rw [List.sum_toFinset _ coefficients.nodup_keys, keys, List.map_map, sumAt]
  congr 1
  apply List.map_congr_left
  intro entry member
  rw [Function.comp_apply, get?_of_mem member, Option.getD_some]

end Coefficients

theorem LinearForm.valueAt_eq_sum_variableIds (form : LinearForm ℚ) (values : VarId → ℚ) :
    form.valueAt values =
      ∑ id ∈ form.variableIds.toFinset, form.coefficientAt id * values id + form.constant := by
  rw [valueAt_eq_sumAt, Coefficients.sumAt_eq_sum_keys]
  rfl

namespace QuadraticForm

variable {form left right : QuadraticForm ℚ}

/-- The coefficient of a product of two variables, which is zero for a product that has none. -/
def coefficientAt (form : QuadraticForm ℚ) (pair : VarId × VarId) : ℚ :=
  (form.products.get? pair).getD 0

theorem valueAt_eq_sum_products (form : QuadraticForm ℚ) (values : VarId → ℚ) :
    form.valueAt values =
      ∑ pair ∈ form.products.keys.toFinset,
          form.coefficientAt pair * (values pair.1 * values pair.2) +
        form.linear.valueAt values + form.constant := by
  rw [valueAt_eq_sumAt, Coefficients.sumAt_eq_sum_keys]
  rfl

/-- The constant stands apart: the linear part has none of its own. -/
def ConstantApart (form : QuadraticForm ℚ) : Prop := form.linear.constant = 0

theorem constantApart_ofLinear (form : LinearForm ℚ) : (ofLinear form).ConstantApart := rfl

theorem constantApart_square (id : VarId) (coefficient : ℚ) :
    (square id coefficient).ConstantApart := rfl

theorem ConstantApart.add (fromLeft : left.ConstantApart) (fromRight : right.ConstantApart) :
    (left.add right).ConstantApart := by
  change left.linear.constant + right.linear.constant = 0
  unfold ConstantApart at fromLeft fromRight
  rw [fromLeft, fromRight, add_zero]

theorem ConstantApart.scale (apart : form.ConstantApart) (factor : ℚ) :
    (form.scale factor).ConstantApart := by
  change form.linear.constant * factor = 0
  unfold ConstantApart at apart
  rw [apart, zero_mul]

end QuadraticForm

namespace StandardForm

variable {form left right : StandardForm ℚ}

/-- A quadratic form sets its constant apart; a linear one has a single constant anyway. -/
def ConstantApart : StandardForm ℚ → Prop
  | .linear _ => True
  | .quadratic form => form.ConstantApart

theorem constantApart_toQuadratic_iff : form.toQuadratic.ConstantApart ↔ form.ConstantApart := by
  cases form with
  | linear form => exact iff_of_true (QuadraticForm.constantApart_ofLinear form) trivial
  | quadratic form => exact Iff.rfl

theorem ConstantApart.add (fromLeft : left.ConstantApart) (fromRight : right.ConstantApart) :
    (left.add right).ConstantApart := by
  cases left with
  | linear left =>
      cases right with
      | linear right => trivial
      | quadratic right => exact (QuadraticForm.constantApart_ofLinear left).add fromRight
  | quadratic left =>
      exact QuadraticForm.ConstantApart.add fromLeft (constantApart_toQuadratic_iff.2 fromRight)

theorem ConstantApart.scale (apart : form.ConstantApart) (factor : ℚ) :
    (form.scale factor).ConstantApart := by
  cases form with
  | linear form => trivial
  | quadratic form => exact QuadraticForm.ConstantApart.scale apart factor

end StandardForm

namespace Canonicalizes

variable {allowed : Bool} {before after : Supply} {expression : Expression ℚ}
  {result : Canonical ℚ}

theorem constantApart (derivation : Canonicalizes allowed before expression result after) :
    result.form.ConstantApart := by
  induction derivation with
  | var _ | const _ | neg _ _ _ | sumNil | pos _ _ _ | squareAbove _ _ _ => trivial
  | add _ _ ihLeft ihRight => exact ihLeft.add ihRight
  | sumSnoc _ _ ihTerms ihTerm => exact ihTerms.add ihTerm
  | mulLeft factor _ ih => exact ih.scale factor
  | mulRight factor _ _ ih => exact ih.scale factor
  | squareVariable _ _ _ _ | squareEqual _ _ _ _ => exact QuadraticForm.constantApart_square _ _

/-- The linear part of a canonical form has no constant of its own. -/
theorem linear_constant (derivation : Canonicalizes allowed before expression result after) :
    result.form.toQuadratic.linear.constant = 0 :=
  StandardForm.constantApart_toQuadratic_iff.2 derivation.constantApart

end Canonicalizes

section Homomorphism

variable {Form : Type}

/-- Evaluation takes sums of forms to sums of numbers, and multiples to multiples. -/
structure EvaluatesLinearly (valueAt : Form → (VarId → ℚ) → ℚ) (add : Form → Form → Form)
    (scale : Form → ℚ → Form) : Prop where
  add : ∀ left right values,
    valueAt (add left right) values = valueAt left values + valueAt right values
  scale : ∀ form factor values, valueAt (scale form factor) values = factor * valueAt form values

/-- Sums and multiples of forms that have a property have it as well. -/
structure KeptBy (Property : Form → Prop) (add : Form → Form → Form)
    (scale : Form → ℚ → Form) : Prop where
  add : ∀ left right, Property left → Property right → Property (add left right)
  scale : ∀ form factor, Property form → Property (scale form factor)

end Homomorphism

namespace LinearForm

theorem evaluatesLinearly : EvaluatesLinearly valueAt add scale where
  add := valueAt_add
  scale form factor values := by rw [valueAt_scale, mul_comm]

end LinearForm

namespace QuadraticForm

theorem evaluatesLinearly : EvaluatesLinearly valueAt add scale where
  add := valueAt_add
  scale form factor values := by rw [valueAt_scale, mul_comm]

theorem constantApart_keptBy : KeptBy ConstantApart add scale where
  add _ _ := ConstantApart.add
  scale _ factor apart := apart.scale factor

end QuadraticForm

namespace StandardForm

theorem evaluatesLinearly :
    EvaluatesLinearly (fun form values => valueAt values form) add
      (fun form factor => scale factor form) where
  add := valueAt_add
  scale form factor values := by rw [valueAt_scale, mul_comm]

theorem constantApart_keptBy :
    KeptBy ConstantApart add (fun form factor => scale factor form) where
  add _ _ := ConstantApart.add
  scale _ factor apart := apart.scale factor

end StandardForm

/-- Evaluation of linear, quadratic and standard forms is a homomorphism, whichever keys the forms
have in common, and the value of a form is a sum over its distinct keys. Forms made from linear ones
and from squares, and what is computed from them, keep their constants apart. A form is recognized
as a single variable exactly if it is made of that variable alone, and then it has the value of the
variable everywhere. -/
theorem evaluation_is_homomorphism :
    EvaluatesLinearly LinearForm.valueAt LinearForm.add LinearForm.scale ∧
      EvaluatesLinearly QuadraticForm.valueAt QuadraticForm.add QuadraticForm.scale ∧
      EvaluatesLinearly (fun (form : StandardForm ℚ) values => form.valueAt values)
        StandardForm.add (fun form factor => form.scale factor) ∧
      KeptBy QuadraticForm.ConstantApart QuadraticForm.add QuadraticForm.scale ∧
      KeptBy StandardForm.ConstantApart StandardForm.add (fun form factor => form.scale factor) ∧
      (∀ (form : LinearForm ℚ) (values : VarId → ℚ),
        form.valueAt values =
            ∑ id ∈ form.variableIds.toFinset, form.coefficientAt id * values id + form.constant ∧
          form.neg.valueAt values = -form.valueAt values ∧
          ∀ id coefficient, (form.addTerm id coefficient).valueAt values =
            form.valueAt values + coefficient * values id) ∧
      (∀ (form : LinearForm ℚ) (id : VarId),
        (form.singleVariable? = some id ↔ form = .ofVariable id) ∧
          (form.singleVariable? = some id → ∀ values, form.valueAt values = values id)) ∧
      (∀ (form : QuadraticForm ℚ) (values : VarId → ℚ),
        form.valueAt values =
          ∑ pair ∈ form.products.keys.toFinset,
              form.coefficientAt pair * (values pair.1 * values pair.2) +
            form.linear.valueAt values + form.constant) ∧
      (∀ form : LinearForm ℚ, (QuadraticForm.ofLinear form).ConstantApart ∧
        ∀ values, (QuadraticForm.ofLinear form).valueAt values = form.valueAt values) ∧
      (∀ (id : VarId) (coefficient : ℚ), (QuadraticForm.square id coefficient).ConstantApart ∧
        ∀ values, (QuadraticForm.square id coefficient).valueAt values =
          coefficient * (values id * values id)) ∧
      ∀ form : StandardForm ℚ, (form.ConstantApart → form.toQuadratic.ConstantApart) ∧
        ∀ values, form.toQuadratic.valueAt values = form.valueAt values := by
  refine ⟨LinearForm.evaluatesLinearly, QuadraticForm.evaluatesLinearly,
    StandardForm.evaluatesLinearly, QuadraticForm.constantApart_keptBy,
    StandardForm.constantApart_keptBy, ?linear, ?single, QuadraticForm.valueAt_eq_sum_products,
    ?ofLinear, ?square, ?standard⟩
  case linear =>
    intro form values
    exact ⟨form.valueAt_eq_sum_variableIds values, form.valueAt_neg values,
      fun id coefficient => form.valueAt_addTerm id coefficient values⟩
  case single =>
    exact fun form id =>
      ⟨LinearForm.singleVariable?_eq_some_iff, LinearForm.valueAt_of_singleVariable?⟩
  case ofLinear =>
    exact fun form =>
      ⟨QuadraticForm.constantApart_ofLinear form, QuadraticForm.valueAt_ofLinear form⟩
  case square =>
    exact fun id coefficient =>
      ⟨QuadraticForm.constantApart_square id coefficient,
        QuadraticForm.valueAt_square id coefficient⟩
  case standard =>
    exact fun form => ⟨StandardForm.constantApart_toQuadratic_iff.2, form.valueAt_toQuadratic⟩

/-- A linear form and a quadratic one share a variable whose coefficients cancel, the product has
its larger variable first, and a difference turns out to be a single variable. -/
theorem evaluation_is_homomorphism_of_cancelling_terms :
    let x : VarId := ⟨1⟩
    let y : VarId := ⟨2⟩
    let left : LinearForm ℚ :=
      (LinearForm.ofConstant 1).addTerm x 2 |>.add ((LinearForm.ofVariable y).scale 3)
    let right : QuadraticForm ℚ := ⟨.single (y, x) 4, (LinearForm.ofVariable y).scale (-3), 5⟩
    let sum := (StandardForm.linear left).add (.quadratic right)
    let difference := ((LinearForm.ofVariable x).scale (2 : ℚ)).add (LinearForm.ofVariable x).neg
    right.ConstantApart ∧ sum.ConstantApart ∧ difference.singleVariable? = some x ∧
      ∀ values, sum.valueAt values = 2 * values x + 4 * (values y * values x) + 6 ∧
        difference.valueAt values = values x := by
  intro x y left right sum difference
  rcases evaluation_is_homomorphism with ⟨-, -, evaluates, -, kept, -, single, -⟩
  have rightApart : right.ConstantApart := zero_mul (-3)
  have isSingle : difference.singleVariable? = some x := by decide +kernel
  have sumApart := kept.add (.linear left) (.quadratic right) trivial rightApart
  refine ⟨rightApart, sumApart, isSingle, fun values => ⟨?_, (single _ _).2 isSingle values⟩⟩
  have leftValue : left.valueAt values = 2 * values x + 3 * values y + 1 := by
    simp only [left, LinearForm.valueAt_add, LinearForm.valueAt_addTerm,
      LinearForm.valueAt_ofConstant, LinearForm.valueAt_scale, LinearForm.valueAt_ofVariable]
    ring
  have rightValue : right.valueAt values = 4 * (values y * values x) - 3 * values y + 5 := by
    simp only [right, QuadraticForm.valueAt_eq_sumAt, Coefficients.sumAt_single,
      LinearForm.valueAt_scale, LinearForm.valueAt_ofVariable]
    ring
  calc sum.valueAt values
      = left.valueAt values + right.valueAt values :=
        evaluates.add (.linear left) (.quadratic right) values
    _ = 2 * values x + 4 * (values y * values x) + 6 := by
        rw [leftValue, rightValue]
        ring

end HingeLoss
