import HingeLoss.Proofs.Problem.Standardization

/-!
# Variables that decide values

The variables of an expression are collected by one recursion and looked up by another one. Both
meet the same nodes: each variable that is listed occurs, an expression has a value exactly where
all listed variables have one, and nothing else that is known at a point has an influence on it.
-/

namespace HingeLoss

namespace Expression

variable {K : Type}

/-- A node of the expression is the variable with this number. -/
def Mentions (expression : Expression K) (id : VarId) : Prop :=
  ∃ leaf, .var leaf ∈ expression.nodes ∧ leaf.id = id

theorem mem_variableIds_iff {expression : Expression K} {id : VarId} :
    id ∈ expression.variableIds ↔ expression.Mentions id := by
  rw [variableIds, VarId.mem_sortedDistinct, mem_occurrences_iff, Mentions]

theorem forall_mem_variableIds_iff {expression : Expression K} {Property : VarId → Prop} :
    (∀ id ∈ expression.variableIds, Property id) ↔
      ∀ id ∈ expression.occurrences, Property id := by
  simp only [variableIds, VarId.mem_sortedDistinct]

end Expression

theorem Problem.mem_variableIds_iff {K : Type} [Scalar K] {problem : Problem K} {id : VarId} :
    id ∈ problem.variableIds ↔ problem.objective.Mentions id ∨
      ∃ constraint ∈ problem.constraints, constraint.expression.Mentions id := by
  rw [mem_variableIds, Constraint.occurrencesAll, List.mem_flatMap]
  simp only [Expression.mem_occurrences_iff, Expression.Mentions]

/-- The variables of an expression are listed once each and in increasing order. The expression has
a value exactly where all of them have one, and assignments that agree on them give it the same
value, or none. The variables of a problem are those of its objective and of its constraints, listed
in the same way. -/
theorem variables_decide_values (K : Type) [Scalar K] :
    (∀ expression : Expression K,
      VarId.Increasing expression.variableIds ∧
        (∀ id, id ∈ expression.variableIds ↔ expression.Mentions id) ∧
          (∀ assignment, (expression.eval assignment).isSome ↔
            ∀ id ∈ expression.variableIds, (assignment id).isSome) ∧
            ∀ left right : Assignment K, (∀ id ∈ expression.variableIds, left id = right id) →
              expression.eval left = expression.eval right) ∧
      ∀ problem : Problem K,
        VarId.Increasing problem.variableIds ∧
          ∀ id, id ∈ problem.variableIds ↔ problem.objective.Mentions id ∨
            ∃ constraint ∈ problem.constraints, constraint.expression.Mentions id := by
  constructor
  · intro expression
    refine ⟨VarId.increasing_sortedDistinct _, fun _ => Expression.mem_variableIds_iff, ?_, ?_⟩
    · intro assignment
      rw [Expression.isSome_eval_iff, Expression.forall_mem_variableIds_iff]
    · intro left right agree
      exact Expression.eval_congr (Expression.forall_mem_variableIds_iff.1 agree)
  · exact fun problem =>
      ⟨VarId.increasing_sortedDistinct _, fun _ => Problem.mem_variableIds_iff⟩

/-- Below a factor of zero, the second variable has no influence on the value but needs one, while
the third variable may be left out. -/
theorem variables_decide_values_zero_factor :
    let first : Variable := ⟨⟨1⟩, some "x", false⟩
    let second : Variable := ⟨⟨2⟩, some "y", true⟩
    let expression : Expression ℚ := .sum [.mul (.const 0) (.var second), .pos (.var first)]
    let left : Assignment ℚ := fun id => if id.index = 3 then none else some id.index
    let right : Assignment ℚ := fun id => if id.index ≤ 2 then some id.index else some 7
    let missing : Assignment ℚ := fun id => if id.index = 2 then none else some id.index
    (∀ id ∈ expression.variableIds, left id = right id) ∧
      expression.eval left = expression.eval right ∧ expression.eval right = some 1 ∧
        expression.eval missing = none := by
  intro first second expression left right missing
  have listed : expression.variableIds = [⟨1⟩, ⟨2⟩] := rfl
  have agree : ∀ id ∈ expression.variableIds, left id = right id := by
    simp [listed, left, right]
  rcases (variables_decide_values ℚ).1 expression with ⟨-, -, evaluated, decided⟩
  have needed : ¬(expression.eval missing).isSome := by
    rw [evaluated missing, listed]
    simp [missing]
  have value : expression.eval right = some 1 := by
    simp [expression, Expression.eval, Expression.evalSum, first, second, right]
  exact ⟨agree, decided left right agree, value, Option.not_isSome_iff_eq_none.1 needed⟩

end HingeLoss
