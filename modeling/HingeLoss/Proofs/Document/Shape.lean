import HingeLoss.Proofs.Document.Model
import HingeLoss.Proofs.Problem.Standardization
import HingeLoss.Proofs.Scalar.Signs

/-!
# The shape of built models

The constraints of a built model are affine and free of atoms, and its objective is a sum of
multiples of hinges of such expressions. Such a model obeys the rules of disciplined convex
programming exactly if no negative weight multiplies the hinge of a term that varies; in any case,
all of its products have a literal factor, and the variables that occur in it are the declared ones.
-/

namespace HingeLoss

open DecisionVariables (leafAt numbered)

namespace Term

/-- Some coefficient of the term is not zero. -/
def Varies {K : Type} [Scalar K] (term : Term K) : Prop :=
  ∃ coefficient ∈ term.coefficients, (coefficient == 0) = false

variable {K : Type} [Scalar K] {supply : Supply} {names : List String}

theorem find?_getD_cases (supply : Supply) (names : List String) (name : String) :
    ((numbered supply names).find? name).getD .zero = (.zero : Expression K) ∨
      ∃ place, names[place]? = some name ∧
        ((numbered supply names).find? name).getD .zero =
          (.var (leafAt supply name place) : Expression K) := by
  by_cases member : name ∈ names
  · rcases DecisionVariables.exists_find?_numbered (K := K) supply member with
      ⟨place, atPlace, found⟩
    exact .inr ⟨place, atPlace, by rw [found, Option.getD_some]⟩
  · rw [← DecisionVariables.find?_numbered_eq_none (K := K) supply] at member
    exact .inl (by rw [member, Option.getD_none])

/-- What holds of zero and of variables holds of everything that a term multiplies. -/
theorem forall_mem_entries (term : Term K) (Property : Expression K → Prop)
    (zero : Property .zero) (var : ∀ leaf, Property (.var leaf)) :
    ∀ entry ∈ term.entries.map fun entry =>
        (entry.1, ((numbered supply names).find? entry.2).getD .zero),
      Property entry.2 := by
  rw [List.forall_mem_map]
  intro entry _
  rcases find?_getD_cases (K := K) supply names entry.2 with isZero | ⟨place, -, isVariable⟩
  · rw [isZero]
    exact zero
  · rw [isVariable]
    exact var _

variable (term : Term K)

theorem isAtomFree_expressionOver : (term.expressionOver (numbered supply names)).IsAtomFree :=
  Expression.isAtomFree_weightedSum <|
    term.forall_mem_entries Expression.IsAtomFree (Expression.isAtomFree_const 0)
      Expression.isAtomFree_var

theorem hasLiteralProducts_expressionOver :
    (term.expressionOver (numbered supply names)).HasLiteralProducts :=
  Expression.hasLiteralProducts_weightedSum <|
    term.forall_mem_entries Expression.HasLiteralProducts (Expression.hasLiteralProducts_const 0)
      Expression.hasLiteralProducts_var

theorem isAffine_expressionOver :
    (term.expressionOver (numbered supply names)).isAffine = true :=
  Expression.isAffine_weightedSum _ <|
    term.forall_mem_entries (fun expression => expression.isAffine = true) rfl fun _ => rfl

/-- A term over declared names is constant unless one of its coefficients counts. -/
theorem isConstant_expressionOver_iff {term : Term K}
    (lengths : term.names.length = term.coefficients.length)
    (known : ∀ name ∈ term.names, name ∈ names) :
    (term.expressionOver (numbered supply names)).curvature.isConstant = true ↔ ¬term.Varies := by
  have each : ∀ entry ∈ term.entries,
      ((Expression.scaled entry.1 (((numbered supply names).find? entry.2).getD .zero)
          ).curvature.isConstant = true ↔ (entry.1 == 0) = true) := by
    intro entry member
    have declared := known entry.2 (List.of_mem_zip member).2
    rcases DecisionVariables.exists_find?_numbered (K := K) supply declared with ⟨place, -, found⟩
    rw [found, Option.getD_some, Expression.isConstant_scaled_var]
  have firsts : term.entries.map Prod.fst = term.coefficients :=
    List.map_fst_zip lengths.ge
  rw [expressionOver, Expression.isConstant_weightedSum, List.all_map, List.all_eq_true]
  refine (forall₂_congr each).trans ?_
  rw [Varies, ← firsts]
  simp

theorem mem_occurrences_expressionOver {id : VarId}
    (occurs : id ∈ (term.expressionOver (numbered supply names)).occurrences) :
    ∃ place name, names[place]? = some name ∧ id = (leafAt supply name place).id := by
  rw [expressionOver, Expression.mem_occurrences_weightedSum] at occurs
  rcases occurs with ⟨entry, entry_mem, id_mem⟩
  rcases List.mem_map.1 entry_mem with ⟨source, -, rfl⟩
  rcases find?_getD_cases (K := K) supply names source.2 with isZero | ⟨place, atPlace, isVariable⟩
  · rw [isZero] at id_mem
    simp [Expression.zero, Expression.occurrences] at id_mem
  · rw [isVariable] at id_mem
    exact ⟨place, source.2, atPlace, by simpa [Expression.occurrences] using id_mem⟩

end Term

namespace HingeProblem

variable {K : Type} [Scalar K] {problem : HingeProblem K} {supply : Supply}

theorem forall_mem_constraints_built {Property : Constraint K → Prop}
    {decisions : DecisionVariables K} :
    (∀ constraint ∈ (problem.built decisions).constraints, Property constraint) ↔
      (∀ entry ∈ decisions.entries, Property (.atLeast entry.2 (.const 0)) ∧
          Property (.atMost entry.2 (.const 1))) ∧
        ∀ term ∈ problem.constraints,
          Property (.atMost (term.expressionOver decisions) (.const 0)) := by
  simp only [built, List.forall_mem_append, List.forall_mem_map, boxConstraints, List.mem_flatMap]
  refine and_congr_left fun _ => ⟨fun each entry member => ⟨?_, ?_⟩, ?_⟩
  · exact each _ ⟨entry, member, by simp⟩
  · exact each _ ⟨entry, member, by simp⟩
  · rintro each constraint ⟨entry, member, isBound⟩
    simp only [List.mem_cons, List.not_mem_nil, or_false] at isBound
    rcases isBound with rfl | rfl
    · exact (each entry member).1
    · exact (each entry member).2

/-- What holds of constants, declared variables and sums over them, and is inherited by differences,
holds of the expressions of all constraints. -/
theorem forall_constraints_built (Property : Expression K → Prop)
    (const : ∀ value, Property (.const value))
    (var : ∀ place name, problem.names.eraseDups[place]? = some name →
      Property (.var (leafAt supply name place)))
    (sum : ∀ term : Term K, Property (term.expressionOver (problem.decisions supply)))
    (difference : ∀ left right, Property left → Property right →
      Property (Constraint.difference left right)) :
    ∀ constraint ∈ (problem.built (problem.decisions supply)).constraints,
      Property constraint.expression := by
  rw [forall_mem_constraints_built]
  constructor
  · intro entry member
    rcases DecisionVariables.mem_entries_numbered.1 member with ⟨place, atPlace, isVariable⟩
    have isDeclared := var place entry.1 atPlace
    rw [← isVariable] at isDeclared
    exact ⟨difference _ _ isDeclared (const 0), difference _ _ (const 1) isDeclared⟩
  · intro term _
    exact difference _ _ (const 0) (sum term)

theorem isAtomFree_constraints_built :
    ∀ constraint ∈ (problem.built (problem.decisions supply)).constraints,
      constraint.expression.IsAtomFree :=
  forall_constraints_built Expression.IsAtomFree Expression.isAtomFree_const
    (fun _ _ _ => Expression.isAtomFree_var _) (fun term => term.isAtomFree_expressionOver)
    fun _ _ => Constraint.isAtomFree_difference

theorem hasLiteralProducts_constraints_built :
    ∀ constraint ∈ (problem.built (problem.decisions supply)).constraints,
      constraint.expression.HasLiteralProducts :=
  forall_constraints_built Expression.HasLiteralProducts Expression.hasLiteralProducts_const
    (fun _ _ _ => Expression.hasLiteralProducts_var _)
    (fun term => term.hasLiteralProducts_expressionOver)
    fun _ _ => Constraint.hasLiteralProducts_difference

theorem hasLiteralProducts_objective_built (problem : HingeProblem K) (supply : Supply) :
    (problem.built (problem.decisions supply)).objective.HasLiteralProducts := by
  apply Expression.hasLiteralProducts_sumOf
  rw [List.forall_mem_map]
  intro term _
  refine Expression.hasLiteralProducts_mul.2 ⟨.inl ⟨_, rfl⟩, by simp, ?_⟩
  exact Expression.hasLiteralProducts_hinge term.hasLiteralProducts_expressionOver _

theorem isDcp_constraints_built :
    ∀ constraint ∈ (problem.built (problem.decisions supply)).constraints,
      constraint.isDcp = true := by
  intro constraint member
  apply Constraint.isDcp_of_isAffine
  exact forall_constraints_built (fun expression => expression.isAffine = true)
    (fun _ => rfl) (fun _ _ _ => rfl) (fun term => term.isAffine_expressionOver)
    (fun _ _ => Constraint.isAffine_difference) constraint member

/-- The constraints of a built model always obey the rules, so it is up to the objective. -/
theorem isDcp_built_iff :
    (problem.built (problem.decisions supply)).isDcp = true ↔
      ∀ term ∈ problem.summands,
        (term.expressionOver (problem.decisions supply)).curvature.isConstant = true ∨
          (term.weightOrZero == 0) = true ∨ 0 < term.weightOrZero := by
  rw [Problem.isDcp, Bool.and_eq_true, List.all_eq_true, and_iff_left isDcp_constraints_built,
    built, Expression.isConvex_sumOf_iff, List.forall_mem_map]
  apply forall₂_congr
  intro term _
  exact Expression.isConvex_scaled_hinge_iff term.isAffine_expressionOver _ _

/-- If a built model breaks the rules, its objective is to blame. -/
theorem violations_built (broken : (problem.built (problem.decisions supply)).isDcp = false) :
    (problem.built (problem.decisions supply)).violations =
      .violations (some (problem.built (problem.decisions supply)).objective.curvature) [] := by
  have constraints : ∀ constraint ∈ (problem.built (problem.decisions supply)).constraints,
      constraint.isDcp = true := isDcp_constraints_built
  have objective : (problem.built (problem.decisions supply)).objective.isConvex = false := by
    rw [Problem.isDcp, List.all_eq_true.2 constraints, Bool.and_true] at broken
    exact broken
  simp only [Problem.violations, objective, Bool.false_eq_true, if_false, NotDcp.violations.injEq,
    true_and, List.map_eq_nil_iff, List.filter_eq_nil_iff]
  intro entry member
  simp [constraints entry.1 (List.fst_mem_of_mem_zipIdx member)]

/-- If no weight is negative, the built model obeys the rules. -/
theorem isDcp_built {problem : HingeProblem ℚ}
    (nonneg : ∀ term ∈ problem.summands, 0 ≤ term.weightOrZero) :
    (problem.built (problem.decisions supply)).isDcp = true := by
  rw [isDcp_built_iff]
  intro term member
  exact .inr (LawfulSigns.zero_or_pos_of_not_neg rfl (not_lt_of_ge (nonneg term member)))

/-- The variables of a built model are the declared ones, whether a term uses them or not. -/
theorem mem_variableIds_built {id : VarId} :
    id ∈ (problem.built (problem.decisions supply)).variableIds ↔
      ∃ place name, problem.names.eraseDups[place]? = some name ∧
        id = (leafAt supply name place).id := by
  rw [Problem.mem_variableIds]
  constructor
  · rintro (inObjective | inConstraints)
    · rcases Expression.mem_occurrences_sumOf.1 inObjective with ⟨summand, summand_mem, id_mem⟩
      rcases List.mem_map.1 summand_mem with ⟨term, -, rfl⟩
      rw [Term.penaltyOver, Expression.scaled, Expression.occurrences,
        Expression.occurrences_hinge] at id_mem
      exact term.mem_occurrences_expressionOver id_mem
    · rcases List.mem_flatMap.1 inConstraints with ⟨constraint, constraint_mem, id_mem⟩
      refine forall_constraints_built (fun expression => ∀ id ∈ expression.occurrences,
          ∃ place name, problem.names.eraseDups[place]? = some name ∧
            id = (leafAt supply name place).id) ?_ ?_ ?_ ?_ constraint constraint_mem id id_mem
      · simp [Expression.occurrences]
      · intro place name atPlace id id_mem
        exact ⟨place, name, atPlace, by simpa [Expression.occurrences] using id_mem⟩
      · exact fun term id => term.mem_occurrences_expressionOver
      · exact fun _ _ => Constraint.forall_mem_occurrences_difference
  · rintro ⟨place, name, atPlace, rfl⟩
    -- Every declared variable occurs in its lower bound.
    let lower : Constraint K := .atLeast (.var (leafAt supply name place)) (.const 0)
    refine .inr (List.mem_flatMap.2 ⟨lower, ?_, ?_⟩)
    · refine List.mem_append_left _ (List.mem_flatMap.2 ?_)
      refine ⟨(name, .var (leafAt supply name place)), ?_, List.mem_cons_self⟩
      exact DecisionVariables.mem_entries_numbered.2 ⟨place, atPlace, rfl⟩
    · change (leafAt supply name place).id ∈
        (Constraint.difference (.var (leafAt supply name place)) (.const (0 : K))).occurrences
      apply Constraint.mem_occurrences_difference_left
      simp [Expression.occurrences]

end HingeProblem

end HingeLoss
