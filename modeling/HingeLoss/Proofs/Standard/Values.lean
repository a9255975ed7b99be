import HingeLoss.Proofs.Scalar
import HingeLoss.Standard.Canonical

/-!
# Values of standard forms

Evaluation turns the operations on forms into operations on numbers: the value of a sum is the sum
of the values, and the value of a multiple is the multiple of the value. Both linear and quadratic
forms are reduced to one fact about coefficient maps, whose weighted sum `sumAt` does not see in
which order entries were merged.
-/

namespace HingeLoss

namespace Coefficients

variable {κ : Type} [Ord κ]

/-- The sum of the coefficients, each multiplied by a weight of its key. -/
def sumAt (coefficients : Coefficients κ ℚ) (weight : κ → ℚ) : ℚ :=
  (coefficients.entries.map fun entry => entry.2 * weight entry.1).sum

@[simp]
theorem sumAt_empty (weight : κ → ℚ) : (empty : Coefficients κ ℚ).sumAt weight = 0 := rfl

@[simp]
theorem sumAt_single (key : κ) (coefficient : ℚ) (weight : κ → ℚ) :
    (single key coefficient).sumAt weight = coefficient * weight key := by
  simp [sumAt, single]

@[simp]
theorem sumAt_scale (coefficients : Coefficients κ ℚ) (factor : ℚ) (weight : κ → ℚ) :
    (coefficients.scale factor).sumAt weight = coefficients.sumAt weight * factor := by
  simp only [sumAt, scale, map, List.map_map]
  induction coefficients.entries with
  | nil => simp
  | cons entry rest ih =>
      simp only [List.map_cons, List.sum_cons, ih, Function.comp_apply]
      ring

variable [Std.TransOrd κ] [Std.LawfulEqOrd κ]

omit [Std.TransOrd κ] in
theorem sum_updateEntries (key : κ) (added : ℚ) (weight : κ → ℚ) (entries : List (κ × ℚ)) :
    ((updateEntries key (fun old => old.getD 0 + added) entries).map
        fun entry => entry.2 * weight entry.1).sum =
      (entries.map fun entry => entry.2 * weight entry.1).sum + added * weight key := by
  induction entries with
  | nil => simp [updateEntries]
  | cons head rest ih =>
      rcases head with ⟨headKey, coefficient⟩
      simp only [updateEntries]
      split
      case h_1 before =>
        simp only [List.map_cons, List.sum_cons, Option.getD_none]
        ring
      case h_2 equal =>
        have sameKey : key = headKey := Std.LawfulEqOrd.eq_of_compare equal
        simp only [List.map_cons, List.sum_cons, Option.getD_some, sameKey]
        ring
      case h_3 after =>
        simp only [List.map_cons, List.sum_cons, ih]
        ring

@[simp]
theorem sumAt_addAt (coefficients : Coefficients κ ℚ) (key : κ) (added : ℚ) (weight : κ → ℚ) :
    (coefficients.addAt key added).sumAt weight =
      coefficients.sumAt weight + added * weight key :=
  sum_updateEntries key added weight coefficients.entries

@[simp]
theorem sumAt_add (left right : Coefficients κ ℚ) (weight : κ → ℚ) :
    (left.add right).sumAt weight = left.sumAt weight + right.sumAt weight := by
  -- The entries of the right map go into the left one by one, so the left map is generalized.
  change (right.entries.foldl (fun sum entry => sum.addAt entry.1 entry.2) left).sumAt weight =
    left.sumAt weight + (right.entries.map fun entry => entry.2 * weight entry.1).sum
  induction right.entries generalizing left with
  | nil => simp
  | cons entry rest ih =>
      simp only [List.foldl_cons, ih, sumAt_addAt, List.map_cons, List.sum_cons]
      ring

end Coefficients

namespace LinearForm

theorem valueAt_eq_sumAt (form : LinearForm ℚ) (values : VarId → ℚ) :
    form.valueAt values = form.coefficients.sumAt values + form.constant := by
  simp only [valueAt, Coefficients.sumAt]
  induction form.coefficients.entries with
  | nil => simp
  | cons entry rest ih =>
      simp only [List.foldr_cons, ih, List.map_cons, List.sum_cons]
      ring

@[simp]
theorem valueAt_zero (values : VarId → ℚ) : (zero : LinearForm ℚ).valueAt values = 0 := rfl

@[simp]
theorem valueAt_ofVariable (id : VarId) (values : VarId → ℚ) :
    (ofVariable id).valueAt values = values id := by
  simp [valueAt_eq_sumAt, ofVariable]

@[simp]
theorem valueAt_ofConstant (value : ℚ) (values : VarId → ℚ) :
    (ofConstant value).valueAt values = value := rfl

@[simp]
theorem valueAt_addTerm (form : LinearForm ℚ) (id : VarId) (coefficient : ℚ)
    (values : VarId → ℚ) :
    (form.addTerm id coefficient).valueAt values =
      form.valueAt values + coefficient * values id := by
  simp only [valueAt_eq_sumAt, addTerm, Coefficients.sumAt_addAt]
  ring

@[simp]
theorem valueAt_add (left right : LinearForm ℚ) (values : VarId → ℚ) :
    (left.add right).valueAt values = left.valueAt values + right.valueAt values := by
  simp only [valueAt_eq_sumAt, add, Coefficients.sumAt_add]
  ring

@[simp]
theorem valueAt_scale (form : LinearForm ℚ) (factor : ℚ) (values : VarId → ℚ) :
    (form.scale factor).valueAt values = form.valueAt values * factor := by
  simp only [valueAt_eq_sumAt, scale, Coefficients.sumAt_scale]
  ring

@[simp]
theorem valueAt_neg (form : LinearForm ℚ) (values : VarId → ℚ) :
    form.neg.valueAt values = -form.valueAt values := by
  rw [neg, valueAt_scale]
  ring

/-- A form that is recognized as a single variable is made of that variable and nothing else. -/
theorem singleVariable?_eq_some_iff {form : LinearForm ℚ} {id : VarId} :
    form.singleVariable? = some id ↔ form = ofVariable id := by
  constructor
  · intro single
    rcases form with ⟨⟨entries, increasing⟩, constant⟩
    simp only [singleVariable?, beq_iff_eq] at single
    split at single
    case isFalse => simp at single
    case isTrue constantZero =>
      split at single
      case h_2 => simp at single
      case h_1 only coefficient =>
        obtain ⟨rfl, rfl⟩ : coefficient = 1 ∧ only = id := by simpa using single
        subst constantZero
        rfl
  · rintro rfl
    simp [singleVariable?, ofVariable, Coefficients.single]

theorem valueAt_of_singleVariable? {form : LinearForm ℚ} {id : VarId}
    (single : form.singleVariable? = some id) (values : VarId → ℚ) :
    form.valueAt values = values id := by
  rw [singleVariable?_eq_some_iff.1 single, valueAt_ofVariable]

end LinearForm

namespace QuadraticForm

theorem valueAt_eq_sumAt (form : QuadraticForm ℚ) (values : VarId → ℚ) :
    form.valueAt values =
      form.products.sumAt (fun pair => values pair.1 * values pair.2) +
        form.linear.valueAt values + form.constant := by
  simp only [valueAt, Coefficients.sumAt]
  induction form.products.entries with
  | nil => simp
  | cons entry rest ih =>
      simp only [List.foldr_cons, ih, List.map_cons, List.sum_cons]
      ring

@[simp]
theorem valueAt_ofLinear (form : LinearForm ℚ) (values : VarId → ℚ) :
    (ofLinear form).valueAt values = form.valueAt values := by
  simp [valueAt_eq_sumAt, LinearForm.valueAt_eq_sumAt, ofLinear]

@[simp]
theorem valueAt_square (id : VarId) (coefficient : ℚ) (values : VarId → ℚ) :
    (square id coefficient).valueAt values = coefficient * (values id * values id) := by
  simp [valueAt_eq_sumAt, square]

@[simp]
theorem valueAt_add (left right : QuadraticForm ℚ) (values : VarId → ℚ) :
    (left.add right).valueAt values = left.valueAt values + right.valueAt values := by
  simp only [valueAt_eq_sumAt, add, Coefficients.sumAt_add, LinearForm.valueAt_add]
  ring

@[simp]
theorem valueAt_scale (form : QuadraticForm ℚ) (factor : ℚ) (values : VarId → ℚ) :
    (form.scale factor).valueAt values = form.valueAt values * factor := by
  simp only [valueAt_eq_sumAt, scale, Coefficients.sumAt_scale, LinearForm.valueAt_scale]
  ring

end QuadraticForm

namespace StandardForm

@[simp]
theorem valueAt_toQuadratic (form : StandardForm ℚ) (values : VarId → ℚ) :
    form.toQuadratic.valueAt values = form.valueAt values := by
  cases form with
  | linear form => exact QuadraticForm.valueAt_ofLinear form values
  | quadratic form => rfl

@[simp]
theorem valueAt_add (left right : StandardForm ℚ) (values : VarId → ℚ) :
    (left.add right).valueAt values = left.valueAt values + right.valueAt values := by
  cases left with
  | linear left =>
      cases right with
      | linear right => exact LinearForm.valueAt_add left right values
      | quadratic right => simp [add, valueAt, toQuadratic]
  | quadratic left => cases right <;> simp [add, valueAt, toQuadratic]

@[simp]
theorem valueAt_scale (factor : ℚ) (form : StandardForm ℚ) (values : VarId → ℚ) :
    (form.scale factor).valueAt values = form.valueAt values * factor := by
  cases form with
  | linear form => exact LinearForm.valueAt_scale form factor values
  | quadratic form => exact QuadraticForm.valueAt_scale form factor values

end StandardForm

end HingeLoss
