import HingeLoss.Proofs.Standard.Values
import HingeLoss.Proofs.Supply

/-!
# Variables of standard forms

The operations on forms bring in no variables of their own, and a value only depends on the
variables that occur. This is what allows an assignment to be extended to fresh variables without
disturbing the forms that were made before them.
-/

namespace HingeLoss

namespace Coefficients

variable {κ K : Type} [Ord κ]

theorem sumAt_congr {coefficients : Coefficients κ ℚ} {left right : κ → ℚ}
    (agree : ∀ key ∈ coefficients.keys, left key = right key) :
    coefficients.sumAt left = coefficients.sumAt right := by
  simp only [sumAt]
  congr 1
  apply List.map_congr_left
  intro entry entry_mem
  rw [agree entry.1 (List.mem_map_of_mem entry_mem)]

@[simp]
theorem keys_empty : (empty : Coefficients κ K).keys = [] := rfl

@[simp]
theorem keys_single (key : κ) (coefficient : K) : (single key coefficient).keys = [key] := rfl

@[simp]
theorem keys_scale [Scalar K] (coefficients : Coefficients κ K) (factor : K) :
    (coefficients.scale factor).keys = coefficients.keys := by
  simp [keys, scale, map]

variable [Std.TransOrd κ] [Std.LawfulEqOrd κ] [Scalar K]

omit [Std.TransOrd κ] [Scalar K] in
theorem mem_map_updateEntries {key other : κ} {update : Option K → K} {entries : List (κ × K)} :
    other ∈ (updateEntries key update entries).map Prod.fst ↔
      other = key ∨ other ∈ entries.map Prod.fst := by
  induction entries with
  | nil => simp [updateEntries]
  | cons head rest ih =>
      rcases head with ⟨headKey, coefficient⟩
      simp only [updateEntries]
      split
      case h_1 => simp
      case h_2 equal =>
        have sameKey : key = headKey := Std.LawfulEqOrd.eq_of_compare equal
        simp [sameKey]
      case h_3 =>
        simp only [List.map_cons, List.mem_cons, ih]
        tauto

@[simp]
theorem mem_keys_addAt {coefficients : Coefficients κ K} {key other : κ} {added : K} :
    other ∈ (coefficients.addAt key added).keys ↔ other = key ∨ other ∈ coefficients.keys :=
  mem_map_updateEntries

@[simp]
theorem mem_keys_add {left right : Coefficients κ K} {key : κ} :
    key ∈ (left.add right).keys ↔ key ∈ left.keys ∨ key ∈ right.keys := by
  change key ∈ (left.add right).keys ↔ key ∈ left.keys ∨ key ∈ right.entries.map Prod.fst
  simp only [add]
  induction right.entries generalizing left with
  | nil => simp
  | cons entry rest ih =>
      simp only [List.foldl_cons, ih, mem_keys_addAt, List.map_cons, List.mem_cons]
      tauto

end Coefficients

namespace LinearForm

variable {K : Type}

theorem valueAt_congr {form : LinearForm ℚ} {left right : VarId → ℚ}
    (agree : ∀ id ∈ form.variableIds, left id = right id) :
    form.valueAt left = form.valueAt right := by
  rw [valueAt_eq_sumAt, valueAt_eq_sumAt, Coefficients.sumAt_congr agree]

@[simp]
theorem variableIds_ofConstant (value : K) : (ofConstant value).variableIds = [] := rfl

variable [Scalar K]

@[simp]
theorem variableIds_zero : (zero : LinearForm K).variableIds = [] := rfl

@[simp]
theorem variableIds_ofVariable (id : VarId) :
    (ofVariable id : LinearForm K).variableIds = [id] := rfl

@[simp]
theorem variableIds_scale (form : LinearForm K) (factor : K) :
    (form.scale factor).variableIds = form.variableIds :=
  Coefficients.keys_scale form.coefficients factor

@[simp]
theorem variableIds_neg (form : LinearForm K) : form.neg.variableIds = form.variableIds :=
  variableIds_scale form (-1)

@[simp]
theorem mem_variableIds_add {left right : LinearForm K} {id : VarId} :
    id ∈ (left.add right).variableIds ↔ id ∈ left.variableIds ∨ id ∈ right.variableIds :=
  Coefficients.mem_keys_add

theorem mem_variableIds_of_singleVariable? {form : LinearForm K} {id : VarId}
    (single : form.singleVariable? = some id) : id ∈ form.variableIds := by
  simp only [singleVariable?] at single
  split at single
  case isFalse => simp at single
  case isTrue =>
    split at single
    case h_2 => simp at single
    case h_1 _ only coefficient shape =>
      split at single
      case isFalse => simp at single
      case isTrue =>
        obtain rfl : only = id := by simpa using single
        simp [variableIds, Coefficients.keys, shape]

end LinearForm

namespace QuadraticForm

variable {K : Type}

theorem mem_variableIds {form : QuadraticForm K} {id : VarId} :
    id ∈ form.variableIds ↔
      (∃ pair ∈ form.products.keys, id = pair.1 ∨ id = pair.2) ∨ id ∈ form.linear.variableIds := by
  simp [variableIds]

theorem valueAt_congr {form : QuadraticForm ℚ} {left right : VarId → ℚ}
    (agree : ∀ id ∈ form.variableIds, left id = right id) :
    form.valueAt left = form.valueAt right := by
  have productsAgree : ∀ pair ∈ form.products.keys,
      left pair.1 * left pair.2 = right pair.1 * right pair.2 := by
    intro pair pair_mem
    rw [agree pair.1 (mem_variableIds.2 (.inl ⟨pair, pair_mem, .inl rfl⟩)),
      agree pair.2 (mem_variableIds.2 (.inl ⟨pair, pair_mem, .inr rfl⟩))]
  have linearAgree : ∀ id ∈ form.linear.variableIds, left id = right id := by
    intro id id_mem
    exact agree id (mem_variableIds.2 (.inr id_mem))
  rw [valueAt_eq_sumAt, valueAt_eq_sumAt, Coefficients.sumAt_congr productsAgree,
    LinearForm.valueAt_congr linearAgree]

variable [Scalar K]

@[simp]
theorem mem_variableIds_ofLinear {form : LinearForm K} {id : VarId} :
    id ∈ (ofLinear form).variableIds ↔ id ∈ form.variableIds := by
  simp [mem_variableIds, ofLinear, LinearForm.variableIds]

@[simp]
theorem mem_variableIds_square {id other : VarId} {coefficient : K} :
    other ∈ (square id coefficient).variableIds ↔ other = id := by
  simp [mem_variableIds, square]

@[simp]
theorem mem_variableIds_scale {form : QuadraticForm K} {factor : K} {id : VarId} :
    id ∈ (form.scale factor).variableIds ↔ id ∈ form.variableIds := by
  simp [mem_variableIds, scale]

@[simp]
theorem mem_variableIds_add {left right : QuadraticForm K} {id : VarId} :
    id ∈ (left.add right).variableIds ↔ id ∈ left.variableIds ∨ id ∈ right.variableIds := by
  simp only [mem_variableIds, add, Coefficients.mem_keys_add, LinearForm.mem_variableIds_add,
    or_and_right, exists_or]
  exact or_or_or_comm

end QuadraticForm

namespace StandardForm

variable {K : Type}

def variableIds : StandardForm K → List VarId
  | .linear form => form.variableIds
  | .quadratic form => form.variableIds

@[simp]
theorem variableIds_linear (form : LinearForm K) :
    (StandardForm.linear form).variableIds = form.variableIds := rfl

@[simp]
theorem variableIds_quadratic (form : QuadraticForm K) :
    (StandardForm.quadratic form).variableIds = form.variableIds := rfl

theorem valueAt_congr {form : StandardForm ℚ} {left right : VarId → ℚ}
    (agree : ∀ id ∈ form.variableIds, left id = right id) :
    form.valueAt left = form.valueAt right := by
  cases form with
  | linear form => exact LinearForm.valueAt_congr agree
  | quadratic form => exact QuadraticForm.valueAt_congr agree

variable [Scalar K]

@[simp]
theorem mem_variableIds_toQuadratic {form : StandardForm K} {id : VarId} :
    id ∈ form.toQuadratic.variableIds ↔ id ∈ form.variableIds := by
  cases form with
  | linear form => exact QuadraticForm.mem_variableIds_ofLinear
  | quadratic form => rfl

@[simp]
theorem mem_variableIds_scale {form : StandardForm K} {factor : K} {id : VarId} :
    id ∈ (form.scale factor).variableIds ↔ id ∈ form.variableIds := by
  cases form with
  | linear form => simp [scale, variableIds]
  | quadratic form => simp [scale, variableIds]

@[simp]
theorem mem_variableIds_add {left right : StandardForm K} {id : VarId} :
    id ∈ (left.add right).variableIds ↔ id ∈ left.variableIds ∨ id ∈ right.variableIds := by
  cases left with
  | linear left =>
      cases right with
      | linear right => exact LinearForm.mem_variableIds_add
      | quadratic right => simp [add, variableIds, toQuadratic]
  | quadratic left => cases right <;> simp [add, variableIds, toQuadratic]

end StandardForm

namespace Cone

def variableIds {K : Type} (cone : Cone K) : List VarId :=
  cone.forms.flatMap LinearForm.variableIds

section Kinds

variable {K : Type} {form bound : LinearForm K} {entries : List (LinearForm K)}

@[simp]
theorem variableIds_zero : (Cone.zero form).variableIds = form.variableIds := by
  simp [variableIds, forms]

@[simp]
theorem variableIds_nonneg : (Cone.nonneg form).variableIds = form.variableIds := by
  simp [variableIds, forms]

@[simp]
theorem variableIds_secondOrder :
    (Cone.secondOrder bound entries).variableIds =
      bound.variableIds ++ entries.flatMap LinearForm.variableIds := by
  simp [variableIds, forms]

end Kinds

theorem holdsAt_congr {cone : Cone ℚ} {left right : VarId → ℚ}
    (agree : ∀ id ∈ cone.variableIds, left id = right id) :
    cone.HoldsAt left ↔ cone.HoldsAt right := by
  have sameValue : ∀ form ∈ cone.forms, form.valueAt left = form.valueAt right := by
    intro form form_mem
    apply LinearForm.valueAt_congr
    intro id id_mem
    exact agree id (List.mem_flatMap.2 ⟨form, form_mem, id_mem⟩)
  cases cone with
  | zero form => simp [HoldsAt, sameValue form (by simp [forms])]
  | nonneg form => simp [HoldsAt, sameValue form (by simp [forms])]
  | secondOrder bound entries =>
      have sameBound := sameValue bound (by simp [forms])
      have sameSquares :
          entries.map (fun entry => entry.valueAt left * entry.valueAt left) =
            entries.map (fun entry => entry.valueAt right * entry.valueAt right) := by
        apply List.map_congr_left
        intro entry entry_mem
        rw [sameValue entry (by simp [forms, entry_mem])]
      simp only [HoldsAt, sameBound, sameSquares]

end Cone

end HingeLoss
