import HingeLoss.Proofs.Document.Solving
import HingeLoss.Proofs.Problem.Program

/-!
# Problems without variables

A problem in which neither variables nor atoms occur is decided without a solver. Its standard form
consists of constants, and these are the values that evaluation gives: although canonicalization
multiplies on the other side and subtracts by multiplying, the outcome is the one that is found by
evaluating the objective and comparing each constraint with a small tolerance. All other problems
are handed to the solver, also if only atoms of constants occur.
-/

namespace HingeLoss

/-- The assignment that gives no variable a value. -/
def Assignment.empty {K : Type} : Assignment K := fun _ => none

namespace Canonicalizes

variable {K : Type} [Scalar K] {allowed : Bool} {before after : Supply}
  {expression : Expression K} {result : Canonical K}

/-- The canonical form of a ground expression is a constant, for which nothing is drawn. -/
theorem exists_constant (derivation : Canonicalizes allowed before expression result after)
    (ground : expression.IsGround) :
    after = before ∧ ∃ value, result = .ofLinear (.ofConstant value) := by
  induction derivation with
  | var leaf => exact Bool.noConfusion (ground _ (Expression.self_mem_nodes _))
  | const value => exact ⟨rfl, value, rfl⟩
  | add _ _ ihLeft ihRight =>
      rcases ihLeft (ground.of_mem_nodes (by simp)) with ⟨rfl, left, rfl⟩
      rcases ihRight (ground.of_mem_nodes (by simp)) with ⟨rfl, right, rfl⟩
      exact ⟨rfl, left + right, rfl⟩
  | neg _ linear ih =>
      rcases ih (ground.of_mem_nodes (by simp)) with ⟨rfl, value, rfl⟩
      obtain rfl := StandardForm.linear.inj linear
      exact ⟨rfl, value * -1, rfl⟩
  | mulLeft factor _ ih =>
      rcases ih (ground.of_mem_nodes (by simp)) with ⟨rfl, value, rfl⟩
      exact ⟨rfl, value * factor, rfl⟩
  | mulRight factor _ _ ih =>
      rcases ih (ground.of_mem_nodes (by simp)) with ⟨rfl, value, rfl⟩
      exact ⟨rfl, value * factor, rfl⟩
  | sumNil => exact ⟨rfl, 0, rfl⟩
  | sumSnoc _ _ ihTerms ihTerm =>
      rw [Expression.isGround_sum, List.forall_mem_append, List.forall_mem_singleton] at ground
      rcases ihTerms (Expression.isGround_sum.2 ground.1) with ⟨rfl, accumulated, rfl⟩
      rcases ihTerm ground.2 with ⟨rfl, value, rfl⟩
      exact ⟨rfl, accumulated + value, rfl⟩
  | pos _ _ _ => exact Bool.noConfusion (ground _ (Expression.self_mem_nodes _))
  | squareVariable _ _ _ _ => exact Bool.noConfusion (ground _ (Expression.self_mem_nodes _))
  | squareEqual _ _ _ _ => exact Bool.noConfusion (ground _ (Expression.self_mem_nodes _))
  | squareAbove _ _ _ => exact Bool.noConfusion (ground _ (Expression.self_mem_nodes _))

/-- Atoms are seen by what is drawn for them, as long as no variable occurs. -/
theorem isGround_iff (derivation : Canonicalizes allowed before expression result after) :
    expression.IsGround ↔ expression.occurrences = [] ∧ result.auxiliaries = [] := by
  rw [Expression.isGround_iff, and_congr_right_iff]
  intro noVariable
  constructor
  · intro free
    rcases derivation.exists_constant (Expression.isGround_iff.2 ⟨noVariable, free⟩) with
      ⟨-, value, rfl⟩
    rfl
  · intro nothingDrawn node member
    by_contra notFree
    rw [Bool.not_eq_false] at notFree
    have moves := derivation.next_lt_of_atom_mem_nodes member notFree <| by
      rintro body rfl
      rw [List.eq_nil_iff_forall_not_mem] at noVariable ⊢
      intro id occurs
      rcases Expression.mem_occurrences_iff.1 occurs with ⟨leaf, leaf_mem, same⟩
      refine noVariable id (Expression.mem_occurrences_iff.2 ⟨leaf, ?_, same⟩)
      exact Expression.nodes_trans member (List.mem_cons_of_mem _ leaf_mem)
    rw [derivation.auxiliaries_eq_drawn, List.eq_nil_iff_forall_not_mem] at nothingDrawn
    exact nothingDrawn before.draw.1 (Supply.mem_drawn.2 ⟨le_rfl, moves⟩)

/-- The constant is what the expression evaluates to. -/
theorem eq_constant {expression : Expression ℚ} {result : Canonical ℚ}
    (derivation : Canonicalizes allowed before expression result after)
    (ground : expression.IsGround) :
    ∃ value, expression.eval .empty = some value ∧ result = .ofLinear (.ofConstant value) := by
  rcases derivation.exists_constant ground with ⟨-, value, rfl⟩
  refine ⟨value, ?_, rfl⟩
  rw [Expression.isGround_iff] at ground
  have holds : (Canonical.ofLinear (.ofConstant value)).HoldsAt fun _ => 0 := nofun
  have same := (derivation.loosened_of_holdsAt holds).eq_valueAt_of_isAtomFree ground.2
  change value = expression.valueAt fun _ => 0 at same
  rw [same, ← Expression.eval_ofPoint]
  apply Expression.eval_congr
  simp [ground.1]

end Canonicalizes

namespace Constraint

/-- The constraint allows the value up to the tolerance. -/
def AllowsWithin (constraint : Constraint ℚ) (tolerance value : ℚ) : Prop :=
  match constraint with
  | .zero _ => |value| ≤ tolerance
  | .nonneg _ => -tolerance ≤ value

def HoldsWithin (constraint : Constraint ℚ) (tolerance : ℚ) (assignment : Assignment ℚ) : Prop :=
  ∃ value, constraint.expression.eval assignment = some value ∧
    constraint.AllowsWithin tolerance value

theorem holdsWithin_iff_of_eval_eq_some {constraint : Constraint ℚ} {tolerance value : ℚ}
    {assignment : Assignment ℚ} (evaluated : constraint.expression.eval assignment = some value) :
    constraint.HoldsWithin tolerance assignment ↔ constraint.AllowsWithin tolerance value := by
  simp [HoldsWithin, evaluated]

theorem constantTolerance_eq : (constantTolerance : ℚ) = 1 / 10 ^ 9 := by
  norm_num [constantTolerance]

theorem holdsAsConstant_cone_iff {constraint : Constraint ℚ} {value : ℚ} :
    (constraint.cone (.ofConstant value)).holdsAsConstant = true ↔
      constraint.AllowsWithin (1 / 10 ^ 9) value := by
  have isConstant : (LinearForm.ofConstant value).isConstant = true := rfl
  have constant : (LinearForm.ofConstant value).constant = value := rfl
  cases constraint with
  | zero expression =>
      simp only [cone, Cone.holdsAsConstant, isConstant, constant, constantTolerance_eq,
        Bool.true_and, Bool.and_eq_true, decide_eq_true_eq, AllowsWithin, abs_le, and_comm]
  | nonneg expression =>
      simp only [cone, Cone.holdsAsConstant, isConstant, constant, constantTolerance_eq,
        Bool.true_and, decide_eq_true_eq, AllowsWithin]

end Constraint

namespace CanonicalizesAll

variable {before after : Supply} {auxiliaries : List VarId}

theorem isGround_iff {K : Type} [Scalar K] {constraints : List (Constraint K)}
    {cones : List (Cone K)}
    (derivation : CanonicalizesAll before constraints cones auxiliaries after) :
    (∀ constraint ∈ constraints, constraint.expression.IsGround) ↔
      Constraint.occurrencesAll constraints = [] ∧ auxiliaries = [] := by
  induction derivation with
  | nil => simp [Constraint.occurrencesAll]
  | cons fromFirst _ _ ih =>
      rw [List.forall_mem_cons, fromFirst.isGround_iff, ih]
      simp only [Constraint.occurrencesAll, List.flatMap_cons, List.append_eq_nil_iff]
      exact and_and_and_comm

/-- Each ground constraint becomes one cone constraint, on the value of its expression. -/
theorem forall₂_constants {constraints : List (Constraint ℚ)} {cones : List (Cone ℚ)}
    (derivation : CanonicalizesAll before constraints cones auxiliaries after)
    (ground : ∀ constraint ∈ constraints, constraint.expression.IsGround) :
    List.Forall₂ (fun constraint cone => ∃ value,
      constraint.expression.eval .empty = some value ∧ cone = constraint.cone (.ofConstant value))
      constraints cones := by
  induction derivation with
  | nil => exact .nil
  | cons fromFirst linear _ ih =>
      rw [List.forall_mem_cons] at ground
      rcases fromFirst.eq_constant ground.1 with ⟨value, evaluated, rfl⟩
      obtain rfl := StandardForm.linear.inj linear
      exact .cons ⟨value, evaluated, rfl⟩ (ih ground.2)

section Ground

variable {constraints : List (Constraint ℚ)} {cones : List (Cone ℚ)}

theorem all_holdsAsConstant_iff
    (derivation : CanonicalizesAll before constraints cones auxiliaries after)
    (ground : ∀ constraint ∈ constraints, constraint.expression.IsGround) :
    cones.all Cone.holdsAsConstant = true ↔
      ∀ constraint ∈ constraints, constraint.HoldsWithin (1 / 10 ^ 9) .empty := by
  have constants := derivation.forall₂_constants ground
  clear derivation ground
  induction constants with
  | nil => simp
  | cons first _ ih =>
      rcases first with ⟨value, evaluated, rfl⟩
      rw [List.all_cons, Bool.and_eq_true, List.forall_mem_cons,
        Constraint.holdsAsConstant_cone_iff,
        Constraint.holdsWithin_iff_of_eval_eq_some evaluated]
      exact and_congr_right fun _ => ih

theorem forall_mem_cones_constant
    (derivation : CanonicalizesAll before constraints cones auxiliaries after)
    (ground : ∀ constraint ∈ constraints, constraint.expression.IsGround) :
    ∀ cone ∈ cones, cone.variableIds = [] ∧ ∀ bound entries, cone ≠ .secondOrder bound entries := by
  have constants := derivation.forall₂_constants ground
  clear derivation ground
  induction constants with
  | nil => simp
  | @cons constraint _ _ _ first _ ih =>
      rcases first with ⟨value, -, rfl⟩
      refine List.forall_mem_cons.2 ⟨?_, ih⟩
      cases constraint with
      | zero expression => exact ⟨rfl, nofun⟩
      | nonneg expression => exact ⟨rfl, nofun⟩

end Ground

end CanonicalizesAll

namespace Problem

section Solver

variable {K : Type} [Scalar K]

/-- Neither variables nor atoms occur in the objective and the constraints. -/
def IsGround (problem : Problem K) : Prop :=
  problem.objective.IsGround ∧ ∀ constraint ∈ problem.constraints, constraint.expression.IsGround

/-- Starting with the supply `before`, the problem has this outcome whatever a solver would
answer. -/
def DecidedWithoutSolver (problem : Problem K) (before : Supply)
    (outcome : Except Failure (Solution K)) : Prop :=
  ∃ after, ∀ solver settings,
    Modelling.YieldsEverywhere (fun _ => problem.solve solver settings) before outcome after

/-- Starting with the supply `before`, one program is handed to the solver, and the outcome is read
off the answer. -/
def AsksSolver (problem : Problem K) (before : Supply) : Prop :=
  ∃ program after, ∀ solver settings,
    Modelling.YieldsEverywhere (fun _ => problem.solve solver settings) before
      (ConicProgram.solve solver settings program >>= Solution.checked) after

variable {problem : Problem K} {before after : Supply} {standard : StandardProblem K}

/-- Solvers that refuse the program for different reasons tell the outcomes apart. -/
theorem AsksSolver.not_decidedWithoutSolver (asks : problem.AsksSolver before)
    (outcome : Except Failure (Solution K)) : ¬problem.DecidedWithoutSolver before outcome := by
  rintro ⟨after, decided⟩
  rcases asks with ⟨program, otherAfter, asked⟩
  have sameOutcome : ∀ mismatch, outcome = .error (.solver (.badData mismatch)) :=
    fun mismatch => ((decided (fun _ _ => .error mismatch) .standard).unique
      (asked (fun _ _ => .error mismatch) .standard)).1
  have same := (sameOutcome .rowsAndRhs).symm.trans (sameOutcome .rowsAndCones)
  simp at same

theorem variableIds_eq_nil_iff (returns : problem.standardize.Returns before standard after) :
    standard.variableIds = [] ↔ problem.IsGround := by
  rcases returns_standardize returns with
    ⟨-, objective, cones, auxiliaries, middle, fromObjective, fromConstraints, rfl⟩
  have own : problem.variableIds = [] ↔
      problem.objective.occurrences = [] ∧ Constraint.occurrencesAll problem.constraints = [] := by
    simp only [List.eq_nil_iff_forall_not_mem, mem_variableIds, not_or, forall_and]
  rw [IsGround, fromObjective.isGround_iff, fromConstraints.isGround_iff, List.append_eq_nil_iff,
    List.append_eq_nil_iff, own]
  tauto

theorem asksSolver_of_not_isGround (returns : problem.standardize.Returns before standard after)
    (notGround : ¬problem.IsGround) : problem.AsksSolver before := by
  refine ⟨.assembled standard.objective standard.cones standard.variableIds, after, ?_⟩
  intro solver settings m _ _ _ _
  have yields := yields_solve (m := m) returns solver settings
  have notEmpty : standard.variableIds.isEmpty = false := by
    rwa [← Bool.not_eq_true, List.isEmpty_iff, variableIds_eq_nil_iff returns]
  rw [StandardProblem.outcome, notEmpty, (listed_of_returns returns).assemble_eq_ok] at yields
  exact yields

theorem decidedWithoutSolver_of_isGround
    (returns : problem.standardize.Returns before standard after) (ground : problem.IsGround) :
    problem.DecidedWithoutSolver before standard.constantSolution := by
  refine ⟨after, ?_⟩
  intro solver settings m _ _ _ _
  have yields := yields_solve (m := m) returns solver settings
  rw [StandardProblem.outcome, (variableIds_eq_nil_iff returns).2 ground] at yields
  exact yields

end Solver

/-- A problem that obeys the rules and has a standard form is decided without a solver exactly if
neither variables nor atoms occur in it, and otherwise a program is handed to the solver. In the
first case the standard form consists of constants, and the outcome is the value of the objective
if all constraints hold up to the tolerance. -/
theorem solve_decides_ground {problem : Problem ℚ} {before after : Supply}
    {standard : StandardProblem ℚ} (returns : problem.standardize.Returns before standard after) :
    (standard.variableIds.isEmpty = true ↔ problem.IsGround) ∧
      ((∃ outcome, problem.DecidedWithoutSolver before outcome) ↔ problem.IsGround) ∧
        (¬problem.IsGround → problem.AsksSolver before) ∧
          (problem.IsGround →
            (∀ cone ∈ standard.cones,
              cone.variableIds = [] ∧ ∀ bound entries, cone ≠ .secondOrder bound entries) ∧
              ∃ value, problem.objective.eval .empty = some value ∧
                ((∀ constraint ∈ problem.constraints,
                    constraint.HoldsWithin (1 / 10 ^ 9) .empty) →
                  problem.DecidedWithoutSolver before
                    (.ok ⟨.optimal, some value, some [], 0, 0⟩)) ∧
                  ((∃ constraint ∈ problem.constraints,
                      ¬constraint.HoldsWithin (1 / 10 ^ 9) .empty) →
                    problem.DecidedWithoutSolver before (.error .infeasible))) := by
  have asks := asksSolver_of_not_isGround returns
  have decided := decidedWithoutSolver_of_isGround returns
  refine ⟨?_, ?_, asks, ?_⟩
  · rw [List.isEmpty_iff, variableIds_eq_nil_iff returns]
  · constructor
    · rintro ⟨outcome, withoutSolver⟩
      by_contra notGround
      exact (asks notGround).not_decidedWithoutSolver outcome withoutSolver
    · intro ground
      exact ⟨_, decided ground⟩
  · intro ground
    have outcome := decided ground
    rcases returns_standardize returns with
      ⟨-, objective, cones, auxiliaries, middle, fromObjective, fromConstraints, rfl⟩
    rcases fromObjective.eq_constant ground.1 with ⟨value, evaluated, rfl⟩
    have holdIff := fromConstraints.all_holdsAsConstant_iff ground.2
    change problem.DecidedWithoutSolver before
      (if cones.all Cone.holdsAsConstant then .ok ⟨.optimal, some value, some [], 0, 0⟩
        else .error .infeasible) at outcome
    refine ⟨fromConstraints.forall_mem_cones_constant ground.2, value, evaluated, ?_, ?_⟩
    · intro hold
      rwa [holdIff.2 hold] at outcome
    · rintro ⟨constraint, member, fails⟩
      have notAll : ¬cones.all Cone.holdsAsConstant = true :=
        fun all => fails (holdIff.1 all constraint member)
      rwa [if_neg notAll] at outcome

/-- An equation that just fails counts as met, an inequality that fails does not, and the positive
part of a constant is left to the solver. -/
theorem solve_decides_ground_within_tolerance :
    let objective : Expression ℚ := .add (.mul (.const 2) (.neg (.const 3))) (.const 1)
    let met : Constraint ℚ := .zero (.const (1 / 10 ^ 9))
    let broken : Constraint ℚ := .nonneg (.neg (.const 2))
    (⟨objective, [met]⟩ : Problem ℚ).DecidedWithoutSolver ⟨0⟩
        (.ok ⟨.optimal, some (-5), some [], 0, 0⟩) ∧
      (⟨objective, [met, broken]⟩ : Problem ℚ).DecidedWithoutSolver ⟨0⟩ (.error .infeasible) ∧
        (⟨.pos (.const 1), []⟩ : Problem ℚ).AsksSolver ⟨0⟩ := by
  intro objective met broken
  have evaluated : objective.eval .empty = some (-5) := by decide +kernel
  refine ⟨?_, ?_, ?_⟩
  · have returns : (⟨objective, [met]⟩ : Problem ℚ).standardize.Returns ⟨0⟩ _ _ := rfl
    have ground : (⟨objective, [met]⟩ : Problem ℚ).IsGround := by
      simp [IsGround, Expression.IsGround, Expression.takesColumn, Constraint.expression,
        objective, met]
    rcases (solve_decides_ground returns).2.2.2 ground with ⟨-, value, evaluates, optimal, -⟩
    obtain rfl := Option.some.inj (evaluated.symm.trans evaluates)
    apply optimal
    rw [List.forall_mem_singleton, Constraint.holdsWithin_iff_of_eval_eq_some rfl]
    norm_num [Constraint.AllowsWithin]
  · have returns : (⟨objective, [met, broken]⟩ : Problem ℚ).standardize.Returns ⟨0⟩ _ _ := rfl
    have ground : (⟨objective, [met, broken]⟩ : Problem ℚ).IsGround := by
      simp [IsGround, Expression.IsGround, Expression.takesColumn, Constraint.expression,
        objective, met, broken]
    rcases (solve_decides_ground returns).2.2.2 ground with ⟨-, value, -, -, infeasible⟩
    refine infeasible ⟨broken, by simp, ?_⟩
    rw [Constraint.holdsWithin_iff_of_eval_eq_some rfl]
    norm_num [Constraint.AllowsWithin, broken]
  · have returns : (⟨.pos (.const 1), []⟩ : Problem ℚ).standardize.Returns ⟨0⟩ _ _ := rfl
    refine (solve_decides_ground returns).2.2.1 ?_
    simp [IsGround, Expression.IsGround, Expression.takesColumn]

end Problem

end HingeLoss
