import HingeLoss.Proofs.Problem.Program
import HingeLoss.Proofs.Program.Exactness
import HingeLoss.Proofs.Standard.Definiteness
import Mathlib.Algebra.Order.BigOperators.Group.List

/-!
# Definiteness of programs

A conic solver takes for granted that the matrix of the quadratic costs is positive semidefinite.
For an objective that comes from an expression it is a diagonal matrix without negative numbers,
whether the expression is convex or not, and the constant of the objective is all in the offset.
-/

namespace HingeLoss

namespace ConicProgram

variable {objective : QuadraticForm ℚ} {cones : List (Cone ℚ)} {ids : List VarId}

/-- A square is given to the matrix as an entry on the diagonal. -/
theorem diagonal_quadraticEntryAt (squares : objective.IsSumOfSquares) (columns : Columns) :
    ∀ entry ∈ objective.products.entries.map (quadraticEntryAt columns),
      entry.row = entry.column ∧ 0 ≤ entry.value := by
  rw [List.forall_mem_map]
  rintro ⟨⟨first, second⟩, coefficient⟩ member
  obtain ⟨rfl, nonneg⟩ : first = second ∧ 0 ≤ coefficient := squares _ member
  have doubled : 0 ≤ Scalar.two * coefficient := by
    rw [Scalar.two_eq]
    exact mul_nonneg zero_le_two nonneg
  simpa [quadraticEntryAt] using doubled

theorem diagonal_assembled (squares : objective.IsSumOfSquares) :
    ∀ entry ∈ (assembled objective cones ids).quadratic.entries,
      entry.row = entry.column ∧ 0 ≤ entry.value := by
  apply SparseMatrix.forall_mem_entries_ofEntries fun row column value =>
    row = column ∧ 0 ≤ value
  · rintro row column left right ⟨same, leftNonneg⟩ ⟨-, rightNonneg⟩
    exact ⟨same, add_nonneg leftNonneg rightNonneg⟩
  · exact diagonal_quadraticEntryAt squares _

/-- The quadratic costs are those of a positive semidefinite matrix. -/
theorem sum_symmetricAt_assembled_nonneg (squares : objective.IsSumOfSquares)
    (objectiveKnown : ∀ id ∈ objective.variableIds, id ∈ ids) (point : Nat → ℚ) :
    0 ≤ ∑ i ∈ Finset.range (assembled objective cones ids).columns.count,
      ∑ j ∈ Finset.range (assembled objective cones ids).columns.count,
        point i * (assembled objective cones ids).quadratic.symmetricAt i j * point j := by
  have total := SparseMatrix.sum_symmetricAt_ofEntries
    (row_le_column_of_mem_quadraticEntries (.ofVariables ids) objective.products)
    (column_lt_of_mem_quadraticEntries (productsKnown objectiveKnown)) point
  have terms : ∀ term ∈ (objective.products.entries.map
      (quadraticEntryAt (.ofVariables ids))).map (fun entry =>
        if entry.row = entry.column then entry.value * point entry.row * point entry.column
        else 2 * (entry.value * point entry.row * point entry.column)), 0 ≤ term := by
    rw [List.forall_mem_map]
    intro entry member
    rcases diagonal_quadraticEntryAt squares _ entry member with ⟨same, nonneg⟩
    rw [if_pos same, same, mul_assoc]
    exact mul_nonneg nonneg (mul_self_nonneg _)
  have nonneg := List.sum_nonneg terms
  rw [← total] at nonneg
  exact nonneg

end ConicProgram

theorem QuadraticForm.constant_eq_valueAt_zero {form : QuadraticForm ℚ}
    (linear : form.linear.constant = 0) : form.constant = form.valueAt fun _ => 0 := by
  simp [valueAt_eq_sumAt, LinearForm.valueAt_eq_sumAt, Coefficients.sumAt, linear]

namespace Expression

/-- The canonical form of an objective is a sum of squares with nonnegative coefficients and a
linear form, with its constant set apart. Every program made of it has a diagonal matrix of
quadratic costs without negative numbers, which is positive semidefinite, and none of the constant
is lost in the offset. -/
theorem canonicalize_definite (expression : Expression ℚ) {before after : Supply}
    {result : Canonical ℚ} (returns : (expression.canonicalize true).Returns before result after) :
    result.form.toQuadratic.IsSumOfSquares ∧
      result.form.toQuadratic.linear.constant = 0 ∧
        result.form.toQuadratic.constant = result.form.valueAt (fun _ => 0) ∧
          (∀ ids, (∀ id ∈ result.form.toQuadratic.variableIds, id ∈ ids) →
            ∃ program, ConicProgram.assemble result.form.toQuadratic [] ids = .ok program) ∧
            ∀ cones ids program,
              ConicProgram.assemble result.form.toQuadratic cones ids = .ok program →
                (∀ entry ∈ program.quadratic.entries,
                  entry.row = entry.column ∧ 0 ≤ entry.value) ∧
                  (∀ z : Nat → ℚ, 0 ≤ ∑ i ∈ Finset.range program.columns.count,
                    ∑ j ∈ Finset.range program.columns.count,
                      z i * program.quadratic.symmetricAt i j * z j) ∧
                    program.offset = result.form.toQuadratic.constant ∧
                      ∀ (vector : Nat → ℚ) (values : VarId → ℚ),
                        (∀ id column, program.columns.find? id = some column →
                          values id = vector column) →
                            result.form.valueAt values =
                              program.objectiveAt vector + program.offset := by
  have derivation := canonicalizes_of_returns returns
  have squares := derivation.isSumOfSquares
  have constant := derivation.linear_constant
  have atZero := QuadraticForm.constant_eq_valueAt_zero constant
  rw [StandardForm.valueAt_toQuadratic] at atZero
  refine ⟨squares, constant, atZero, ?_, ?_⟩
  · intro ids known
    exact ConicProgram.exists_assemble_eq_ok_iff.2 ⟨known, by simp⟩
  · intro cones ids program assembles
    rcases ConicProgram.exists_assemble_eq_ok_iff.1 ⟨program, assembles⟩ with
      ⟨objectiveKnown, conesKnown⟩
    rw [ConicProgram.assemble_eq_ok objectiveKnown conesKnown, Except.ok.injEq] at assembles
    subst assembles
    refine ⟨ConicProgram.diagonal_assembled squares,
      ConicProgram.sum_symmetricAt_assembled_nonneg squares objectiveKnown, rfl, ?_⟩
    intro vector values valued
    have agree : ∀ id ∈ result.form.toQuadratic.variableIds,
        (Columns.ofVariables ids).valuesOf vector id = values id := by
      intro id member
      exact (valued id _ (Columns.find?_eq_some_indexOf
        (Columns.mem_ids_ofVariables.2 (objectiveKnown id member)))).symm
    have represents := ConicProgram.represents_assembled_valuesOf constant objectiveKnown
      conesKnown vector
    rw [← represents.computed, QuadraticForm.valueAt_congr agree,
      StandardForm.valueAt_toQuadratic]

/-- Of two squares of one variable, the one below a negative factor becomes linear. -/
theorem canonicalize_definite_of_negative_multiple :
    let square : Expression ℚ := .square (.var ⟨⟨1⟩, none, false⟩)
    let expression : Expression ℚ :=
      .sum [.mul (.const (-2)) square, .mul (.const 3) square, .const 5]
    expression.isConvex = false ∧
      ∃ result after, (expression.canonicalize true).Returns ⟨2⟩ result after ∧
        result.form.toQuadratic.products.entries = [((⟨1⟩, ⟨1⟩), 3)] ∧
          result.form.toQuadratic.IsSumOfSquares ∧
            ∃ program,
              ConicProgram.assemble result.form.toQuadratic [] [⟨1⟩, ⟨2⟩] = .ok program ∧
                (∀ entry ∈ program.quadratic.entries,
                  entry.row = entry.column ∧ 0 ≤ entry.value) ∧ program.offset = 5 := by
  intro square expression
  have returns : (expression.canonicalize true).Returns ⟨2⟩ _ _ := rfl
  rcases canonicalize_definite expression returns with ⟨squares, -, -, assembles, programs⟩
  rcases assembles [⟨1⟩, ⟨2⟩] (by decide) with ⟨program, assembled⟩
  rcases programs _ _ program assembled with ⟨diagonal, -, offset, -⟩
  refine ⟨by decide, _, _, returns, by decide +kernel, squares, program, assembled, diagonal, ?_⟩
  rw [offset]
  decide +kernel

end Expression

end HingeLoss
