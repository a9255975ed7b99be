import HingeLoss.Constraint
import HingeLoss.Proofs.Expression.Nodes
import HingeLoss.Proofs.Expression.Rules
import HingeLoss.Proofs.Expression.Values
import Mathlib.Data.List.Induction

/-!
# Operators on expressions

What is known of the expressions that the operators build, from what is known of their operands: the
value at a point, the variables that occur, whether there are atoms, and whether products have
literal factors. The rules certify a sum exactly as far as they certify each of its terms, multiples
of affine expressions as affine, and a multiple of a hinge as convex unless a factor that is neither
zero nor positive turns it over.
-/

namespace HingeLoss

namespace Curvature

variable {K : Type} [Scalar K] {curvature : Curvature}

@[simp]
theorem isAffine_negate (curvature : Curvature) :
    curvature.negate.isAffine = curvature.isAffine := by
  cases curvature <;> rfl

@[simp]
theorem isAffine_add (left right : Curvature) :
    (left.add right).isAffine = (left.isAffine && right.isAffine) := by
  cases left <;> cases right <;> rfl

theorem isConcave_of_isAffine (affine : curvature.isAffine = true) :
    curvature.isConcave = true := by
  cases curvature <;> simp_all [isAffine, isConcave]

theorem isAffine_scale (factor : K) (affine : curvature.isAffine = true) :
    (curvature.scale factor).isAffine = true := by
  simp only [scale]
  split_ifs
  · rfl
  · exact affine
  · rwa [isAffine_negate]

/-- Scaling keeps something convex unless the factor turns it over. -/
theorem isConvex_scale_convex_iff (factor : K) :
    (convex.scale factor).isConvex = true ↔ (factor == 0) = true ∨ 0 < factor := by
  simp only [scale]
  split_ifs with isZero positive
  · simp [isConvex, isZero]
  · simp [isConvex, positive]
  · simp [isConvex, negate, isZero, positive]

end Curvature

namespace Expression

section Values

variable (point : VarId → ℚ)

@[simp]
theorem valueAt_sum (terms : List (Expression ℚ)) :
    (sum terms).valueAt point = (terms.map (valueAt point)).sum := by
  change sumAt point terms = _
  induction terms with
  | nil => rfl
  | cons term rest ih => rw [sumAt, ih, List.map_cons, List.sum_cons]

@[simp]
theorem valueAt_sumOf (terms : List (Expression ℚ)) :
    (sumOf terms).valueAt point = (terms.map (valueAt point)).sum := by
  rcases terms with _ | ⟨term, _ | ⟨other, rest⟩⟩
  · rfl
  · simp [sumOf]
  · exact valueAt_sum point (term :: other :: rest)

theorem valueAt_weightedSum (offset : ℚ) (terms : List (ℚ × Expression ℚ)) :
    (weightedSum offset terms).valueAt point =
      offset + (terms.map fun (coefficient, term) => coefficient * term.valueAt point).sum := by
  rw [weightedSum, valueAt_sum, List.map_cons, List.map_map, List.sum_cons]
  rfl

theorem valueAt_hinge (body : Expression ℚ) (squared : Bool) :
    (body.hinge squared).valueAt point =
      if squared then max (body.valueAt point) 0 ^ 2 else max (body.valueAt point) 0 := by
  cases squared with
  | false => rfl
  | true =>
      rw [if_pos rfl, pow_two]
      rfl

end Values

section Parts

variable {K : Type} {offset : K} {terms : List (K × Expression K)}

theorem isAtomFree_weightedSum (free : ∀ entry ∈ terms, entry.2.IsAtomFree) :
    (weightedSum offset terms).IsAtomFree := by
  rw [weightedSum, isAtomFree_sum, List.forall_mem_cons, List.forall_mem_map]
  apply And.intro (isAtomFree_const offset)
  intro entry member
  exact isAtomFree_mul.2 ⟨isAtomFree_const entry.1, free entry member⟩

theorem hasLiteralProducts_weightedSum (literal : ∀ entry ∈ terms, entry.2.HasLiteralProducts) :
    (weightedSum offset terms).HasLiteralProducts := by
  rw [weightedSum, hasLiteralProducts_sum, List.forall_mem_cons, List.forall_mem_map]
  apply And.intro (hasLiteralProducts_const offset)
  intro entry member
  exact hasLiteralProducts_mul.2
    ⟨.inl ⟨entry.1, rfl⟩, hasLiteralProducts_const entry.1, literal entry member⟩

theorem mem_occurrences_weightedSum {id : VarId} :
    id ∈ (weightedSum offset terms).occurrences ↔ ∃ entry ∈ terms, id ∈ entry.2.occurrences := by
  simp [weightedSum, scaled, occurrences, mem_listOccurrences]

theorem hasLiteralProducts_hinge {body : Expression K} (literal : body.HasLiteralProducts)
    (squared : Bool) : (body.hinge squared).HasLiteralProducts := by
  cases squared with
  | false => simpa [hinge] using literal
  | true => simpa [hinge] using literal

theorem pos_mem_nodes_hinge (body : Expression K) (squared : Bool) :
    .pos body ∈ (body.hinge squared).nodes := by
  cases squared <;> simp [hinge]

@[simp]
theorem occurrences_hinge (body : Expression K) (squared : Bool) :
    (body.hinge squared).occurrences = body.occurrences := by
  cases squared <;> rfl

variable [Scalar K]

theorem hasLiteralProducts_sumOf {terms : List (Expression K)}
    (literal : ∀ term ∈ terms, term.HasLiteralProducts) : (sumOf terms).HasLiteralProducts := by
  rcases terms with _ | ⟨term, _ | ⟨other, rest⟩⟩
  · exact hasLiteralProducts_const 0
  · exact literal term (by simp)
  · exact hasLiteralProducts_sum.2 literal

theorem mem_occurrences_sumOf {terms : List (Expression K)} {id : VarId} :
    id ∈ (sumOf terms).occurrences ↔ ∃ term ∈ terms, id ∈ term.occurrences := by
  rcases terms with _ | ⟨term, _ | ⟨other, rest⟩⟩
  · simp [sumOf, zero, occurrences]
  · simp [sumOf]
  · exact mem_listOccurrences

theorem mem_nodes_sumOf {terms : List (Expression K)} {term node : Expression K}
    (term_mem : term ∈ terms) (node_mem : node ∈ term.nodes) : node ∈ (sumOf terms).nodes := by
  rcases terms with _ | ⟨first, _ | ⟨other, rest⟩⟩
  · simp at term_mem
  · rw [List.mem_singleton] at term_mem
    exact term_mem ▸ node_mem
  · exact List.mem_cons_of_mem _ (mem_listNodes.2 ⟨term, term_mem, node_mem⟩)

end Parts

section Curvatures

variable {K : Type} [Scalar K] {body : Expression K} {terms : List (Expression K)}

theorem curvature_scaled (factor : K) (body : Expression K) :
    (scaled factor body).curvature =
      .product .constant body.curvature (some factor) body.constant? := by
  simp only [scaled, curvature, constant?]

theorem isAffine_scaled (factor : K) (affine : body.isAffine = true) :
    (scaled factor body).isAffine = true := by
  rw [isAffine, curvature_scaled, Curvature.product]
  split_ifs
  · rfl
  · exact Curvature.isAffine_scale factor affine

/-- A multiple of a variable is constant only if the variable is multiplied by zero. -/
theorem isConstant_scaled_var (factor : K) (leaf : Variable) :
    (scaled factor (var leaf)).curvature.isConstant = (factor == 0) := by
  rw [curvature_scaled, curvature]
  change (Curvature.scale factor .affine).isConstant = _
  rw [Curvature.scale]
  split_ifs with isZero positive
  · simp [Curvature.isConstant, isZero]
  · simp [Curvature.isConstant, isZero]
  · simp [Curvature.isConstant, Curvature.negate, isZero]

/-- Whatever holds of constants and is decided summand by summand holds of a sum exactly if it holds
of each of its terms. -/
theorem certified_sum {certified : Curvature → Bool} (constant : certified .constant = true)
    (add : ∀ left right, certified (left.add right) = (certified left && certified right)) :
    certified (sum terms).curvature = terms.all fun term => certified term.curvature := by
  induction terms using List.reverseRecOn with
  | nil => exact constant
  | append_singleton terms term ih =>
      rw [curvature_sum_snoc, add, ih, List.all_append, List.all_cons, List.all_nil, Bool.and_true]

theorem isAffine_sum (affine : ∀ term ∈ terms, term.isAffine = true) :
    (sum terms).isAffine = true := by
  rw [isAffine, certified_sum rfl Curvature.isAffine_add, List.all_eq_true]
  exact affine

theorem isConvex_sumOf_iff :
    (sumOf terms).isConvex = true ↔ ∀ term ∈ terms, term.isConvex = true := by
  rcases terms with _ | ⟨term, _ | ⟨other, rest⟩⟩
  · simp [sumOf, zero, isConvex, curvature, Curvature.isConvex]
  · simp [sumOf]
  · change (sum (term :: other :: rest)).isConvex = true ↔ _
    rw [isConvex, certified_sum rfl Curvature.isConvex_add, List.all_eq_true]
    rfl

theorem isAffine_weightedSum (offset : K) {terms : List (K × Expression K)}
    (affine : ∀ entry ∈ terms, entry.2.isAffine = true) :
    (weightedSum offset terms).isAffine = true := by
  refine isAffine_sum (List.forall_mem_cons.2 ⟨rfl, ?_⟩)
  rw [List.forall_mem_map]
  exact fun entry member => isAffine_scaled entry.1 (affine entry member)

theorem isConstant_weightedSum (offset : K) (terms : List (K × Expression K)) :
    (weightedSum offset terms).curvature.isConstant =
      terms.all fun entry => (scaled entry.1 entry.2).curvature.isConstant := by
  rw [weightedSum, certified_sum rfl Curvature.isConstant_add, List.all_cons, List.all_map]
  rfl

/-- The hinge of something affine is constant or convex, squared or not. -/
theorem curvature_hinge (affine : body.isAffine = true) (squared : Bool) :
    (body.hinge squared).curvature =
      if body.curvature.isConstant then .constant else .convex := by
  have part : (pos body).curvature =
      if body.curvature.isConstant then .constant else .convex := by
    rw [isAffine] at affine
    rw [curvature]
    cases shape : body.curvature <;>
      simp_all [Curvature.positivePart, Curvature.isConstant, Curvature.isConvex,
        Curvature.isAffine]
  cases squared with
  | false => exact part
  | true =>
      rw [hinge, if_pos rfl, curvature, part]
      split_ifs
      · rfl
      · rfl

/-- A multiple of the hinge of something affine is certified as convex unless the factor turns it
over and there is something to turn. -/
theorem isConvex_scaled_hinge_iff (affine : body.isAffine = true) (factor : K) (squared : Bool) :
    (scaled factor (body.hinge squared)).isConvex = true ↔
      body.curvature.isConstant = true ∨ (factor == 0) = true ∨ 0 < factor := by
  rw [isConvex, curvature_scaled, curvature_hinge affine]
  cases constant : body.curvature.isConstant with
  | true =>
      rw [if_pos rfl]
      exact iff_of_true rfl (.inl rfl)
  | false =>
      rw [if_neg Bool.false_ne_true]
      change (Curvature.convex.scale factor).isConvex = true ↔ _
      rw [Curvature.isConvex_scale_convex_iff]
      simp

end Curvatures

end Expression

namespace Constraint

section Parts

variable {K : Type} [Scalar K]

/-- A difference is the left operand or the sum with the opposite of the right one. -/
theorem difference_eq (left right : Expression K) :
    difference left right = left ∨ difference left right = .add left (.neg right) := by
  simp only [difference]
  split
  case h_1 value =>
    split
    case isTrue => exact .inl rfl
    case isFalse => exact .inr rfl
  case h_2 => exact .inr rfl

variable {left right : Expression K}

theorem isAtomFree_difference (leftFree : left.IsAtomFree) (rightFree : right.IsAtomFree) :
    (difference left right).IsAtomFree := by
  rcases difference_eq left right with same | same
  · rwa [same]
  · simp [same, leftFree, rightFree]

theorem hasLiteralProducts_difference (leftLiteral : left.HasLiteralProducts)
    (rightLiteral : right.HasLiteralProducts) : (difference left right).HasLiteralProducts := by
  rcases difference_eq left right with same | same
  · rwa [same]
  · simp [same, leftLiteral, rightLiteral]

theorem forall_mem_occurrences_difference {Property : VarId → Prop}
    (fromLeft : ∀ id ∈ left.occurrences, Property id)
    (fromRight : ∀ id ∈ right.occurrences, Property id) :
    ∀ id ∈ (difference left right).occurrences, Property id := by
  rcases difference_eq left right with same | same
  · rwa [same]
  · rw [same]
    simpa [Expression.occurrences, or_imp, forall_and] using ⟨fromLeft, fromRight⟩

theorem mem_occurrences_difference_left {id : VarId} (occurs : id ∈ left.occurrences) :
    id ∈ (difference left right).occurrences := by
  rcases difference_eq left right with same | same
  · rwa [same]
  · rw [same]
    exact List.mem_append_left _ occurs

theorem isAffine_difference (leftAffine : left.isAffine = true)
    (rightAffine : right.isAffine = true) : (difference left right).isAffine = true := by
  rcases difference_eq left right with same | same
  · rwa [same]
  · rw [same]
    change (left.curvature.add right.curvature.negate).isAffine = true
    simp only [Expression.isAffine] at leftAffine rightAffine
    rw [Curvature.isAffine_add, Curvature.isAffine_negate, leftAffine, rightAffine, Bool.and_self]

theorem isDcp_of_isAffine {constraint : Constraint K}
    (affine : constraint.expression.isAffine = true) : constraint.isDcp = true := by
  cases constraint with
  | zero expression => exact affine
  | nonneg expression => exact Curvature.isConcave_of_isAffine affine

end Parts

theorem valueAt_difference (point : VarId → ℚ) (left right : Expression ℚ) :
    (difference left right).valueAt point = left.valueAt point - right.valueAt point := by
  simp only [difference]
  split
  case h_1 value =>
    split
    case isTrue isZero =>
      have valueZero : value = 0 := by simpa using isZero
      rw [Expression.valueAt, valueZero, sub_zero]
    case isFalse => exact (sub_eq_add_neg _ _).symm
  case h_2 => exact (sub_eq_add_neg _ _).symm

end Constraint

end HingeLoss
