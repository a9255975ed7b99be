import HingeLoss.Proofs.Document.Preparation

/-!
# Outcomes of documents

What can go wrong when a valid document is solved. Building the model never fails. The model breaks
the rules of disciplined convex programming exactly if a negative weight penalizes a term that
varies, and such a document is refused before there is a program. Every other document gets as far
as the solver, and from there on only the solver's status can make it fail; without any variable,
the constraints are decided on the spot.

A negative weight on a term that does not vary goes unnoticed: its hinge is a constant.
-/

namespace HingeLoss

/-- Whether the failure blames the document or the model that was made of it. -/
def Failure.blamesModel : Failure → Bool
  | .notDcp _ | .invalidProblem _ | .unknownVariable _ _ | .lengthMismatch _ _ _
  | .missingWeight _ => true
  | _ => false

namespace SolveStatus

theorem isSolved_of_failure?_eq_none {status : SolveStatus} (none : status.failure? = none) :
    status.isSolved = true := by
  cases status <;> simp_all [failure?, isSolved]

theorem blamesModel_of_failure?_eq_some {status : SolveStatus} {failure : Failure}
    (some : status.failure? = some failure) : failure.blamesModel = false := by
  cases status <;> simp_all [failure?] <;> subst some <;> rfl

end SolveStatus

theorem Answer.status_solution {K : Type} [Scalar K] (answer : Answer K)
    (program : ConicProgram K) :
    (answer.solution program).status = answer.termination.status := by
  rw [solution]
  split <;> rfl

namespace HingeProblem

variable {K : Type} [Scalar K] {problem : HingeProblem K} {before : Supply}

namespace Preparation

variable (preparation : problem.Preparation before) (solver : ConicSolver K) (settings : Settings)

/-- The ways in which solving the standard form of a prepared document can end. -/
inductive Ends : Except Failure (Solution K) → Prop
  | violated (unlisted : preparation.standard.variableIds = []) : Ends (.error .infeasible)
  | constant {solution} (unlisted : preparation.standard.variableIds = [])
      (holds : preparation.standard.constantSolution = .ok solution) : Ends (.ok solution)
  | refused {mismatch} (listed : preparation.standard.variableIds ≠ [])
      (refused : solver preparation.program settings = .error mismatch) :
      Ends (.error (.solver (.badData mismatch)))
  | failed {answer failure} (listed : preparation.standard.variableIds ≠ [])
      (answered : solver preparation.program settings = .ok answer)
      (failed : answer.termination.status.failure? = some failure) : Ends (.error failure)
  | solved {answer} (listed : preparation.standard.variableIds ≠ [])
      (answered : solver preparation.program settings = .ok answer)
      (solved : answer.termination.status.isSolved = true) :
      Ends (.ok (answer.solution preparation.program))

theorem ends_outcome :
    preparation.Ends solver settings (preparation.standard.outcome solver settings) := by
  rw [StandardProblem.outcome]
  split
  case isTrue unlisted =>
    rw [List.isEmpty_iff] at unlisted
    cases decided : preparation.standard.constantSolution with
    | ok solution => exact .constant unlisted decided
    | error failure =>
        rw [StandardProblem.constantSolution] at decided
        split at decided
        · simp at decided
        · rw [Except.error.injEq] at decided
          exact decided ▸ .violated unlisted
  case isFalse listed =>
    rw [List.isEmpty_iff] at listed
    rw [preparation.assembled]
    change preparation.Ends solver settings (preparation.program.solve solver settings >>= _)
    rw [ConicProgram.solve]
    cases answered : solver preparation.program settings with
    | error mismatch => exact .refused listed answered
    | ok answer =>
        change preparation.Ends solver settings (answer.solution preparation.program).checked
        rw [Solution.checked, answer.status_solution]
        cases failed : answer.termination.status.failure? with
        | some failure => exact .failed listed answered failed
        | none =>
            exact .solved listed answered (SolveStatus.isSolved_of_failure?_eq_none failed)

variable {preparation solver settings}

theorem eraseDups_names_of_unlisted (buildable : problem.Buildable)
    (unlisted : preparation.standard.variableIds = []) : problem.names.eraseDups = [] := by
  rw [List.eq_nil_iff_forall_not_mem]
  intro name member
  rcases List.getElem?_of_mem member with ⟨place, atPlace⟩
  have inside := Columns.lt_count_of_find?_eq_some (preparation.find?_columns buildable atPlace)
  rw [preparation.columns_eq, unlisted] at inside
  exact absurd inside (Nat.not_lt_zero place)

/-- If no variable is listed, there are no names to read. -/
theorem resolve_of_unlisted (buildable : problem.Buildable)
    (unlisted : preparation.standard.variableIds = []) (solution : Solution K) :
    SolvedValues.resolve preparation.decisions solution = .ok ⟨[]⟩ := by
  rw [(preparation.built_eq buildable).1, HingeProblem.decisions,
    eraseDups_names_of_unlisted buildable unlisted]
  rfl

/-- Every solution has a value for each declared name. -/
theorem Ends.exists_values (buildable : problem.Buildable) {solution : Solution K}
    (ends : preparation.Ends solver settings (.ok solution)) :
    ∃ values, SolvedValues.resolve preparation.decisions solution = .ok values := by
  cases ends with
  | constant unlisted _ => exact ⟨_, resolve_of_unlisted buildable unlisted solution⟩
  | solved _ _ solved => exact ⟨_, preparation.resolve_solution buildable solved⟩

/-- Reading the values of the names adds no failures. -/
theorem Ends.of_answer_eq_error (buildable : problem.Buildable)
    {outcome : Except Failure (Solution K)} (ends : preparation.Ends solver settings outcome)
    {objective : Expression K} {failure : Failure}
    (failed : outcome >>= problem.answer preparation.decisions objective = .error failure) :
    preparation.Ends solver settings (.error failure) := by
  cases outcome with
  | error reason =>
      obtain rfl : reason = failure := Except.error.inj failed
      exact ends
  | ok solution =>
      rcases ends.exists_values buildable with ⟨values, resolved⟩
      change problem.answer preparation.decisions objective solution = .error failure at failed
      rw [answer, resolved] at failed
      exact absurd failed (by simp [bind, Except.bind, pure, Except.pure])

theorem Ends.blamesModel {failure : Failure}
    (ends : preparation.Ends solver settings (.error failure)) : failure.blamesModel = false := by
  cases ends with
  | violated _ => rfl
  | refused _ _ => rfl
  | failed _ _ failed => exact SolveStatus.blamesModel_of_failure?_eq_some failed

end Preparation

/-- A negative weight multiplies the hinge of a term that varies. -/
def HasConcavePenalty (problem : HingeProblem K) : Prop :=
  ∃ term ∈ problem.summands, ∃ weight, term.weight = some weight ∧ weight < 0 ∧ term.Varies

/-- The model of a valid document obeys the rules unless it has a concave penalty. -/
theorem isDcp_built_iff_of_validate [LawfulSigns K] (valid : problem.validate = .ok ())
    (supply : Supply) :
    (problem.built (problem.decisions supply)).isDcp = true ↔ ¬problem.HasConcavePenalty := by
  simp only [isDcp_built_iff, HasConcavePenalty, not_exists, not_and]
  apply forall₂_congr
  intro term member
  have fits := (buildable_of_validate valid).summands term member
  rcases exists_finite_weight_of_validate valid member with ⟨weight, present, finite⟩
  have known : ∀ name ∈ term.names, name ∈ problem.names.eraseDups :=
    fun name name_mem => List.mem_eraseDups.2 (fits.known name name_mem)
  rw [decisions, Term.isConstant_expressionOver_iff fits.lengths known, Term.weightOrZero, present,
    Option.getD_some]
  simp only [Option.some.injEq, forall_eq']
  constructor
  · rintro (constant | isZero | positive) negative
    · exact constant
    · simp [LawfulSigns.not_zero_of_neg negative] at isZero
    · exact absurd positive (LawfulSigns.not_pos_of_neg negative)
  · intro steady
    by_cases negative : weight < 0
    · exact .inl (steady negative)
    · exact .inr (LawfulSigns.zero_or_pos_of_not_neg finite negative)

/-- If the model breaks the rules, the curvature of the objective is reported, whatever the solver
is. -/
theorem solvesTo_violations (buildable : problem.Buildable)
    (broken : (problem.built (problem.decisions before)).isDcp = false) (solver : ConicSolver K)
    (settings : Settings) :
    problem.SolvesTo solver settings before
      (.error (.notDcp (.violations
        (some (problem.built (problem.decisions before)).objective.curvature) [])))
      (problem.declared before) := by
  have builds : problem.Builds before (problem.decisions before)
      (problem.built (problem.decisions before)) (problem.declared before) :=
    fun _ => yields_model buildable before
  rw [← violations_built broken]
  exact builds.solvesTo_of_not_isDcp broken solver settings

/-- Solving a buildable document has an outcome of its own, whatever the surroundings do. -/
theorem exists_solvesTo (buildable : problem.Buildable) (solver : ConicSolver K)
    (settings : Settings) (before : Supply) :
    ∃ outcome after, problem.SolvesTo solver settings before outcome after := by
  cases dcp : (problem.built (problem.decisions before)).isDcp with
  | true =>
      rcases nonempty_preparation buildable dcp with ⟨preparation⟩
      exact ⟨_, _, preparation.solvesTo solver settings⟩
  | false => exact ⟨_, _, solvesTo_violations buildable dcp solver settings⟩

/-- What is prepared is not refused. -/
theorem Preparation.not_solvesTo_notDcp (buildable : problem.Buildable)
    (preparation : problem.Preparation before) (solver : ConicSolver K) (settings : Settings)
    (reason : NotDcp) (after : Supply) :
    ¬problem.SolvesTo solver settings before (.error (.notDcp reason)) after := by
  intro refused
  have outcome := Modelling.YieldsEverywhere.unique (preparation.solvesTo solver settings) refused
  have ends := (preparation.ends_outcome solver settings).of_answer_eq_error buildable outcome.1
  exact Bool.noConfusion ends.blamesModel

/-- A valid document without negative weights gets as far as the solver. Whatever the solver
answers, no failure blames the document or its model, and all of them are read off the status of the
answer, or say that the constraints of a document without variables do not hold. -/
theorem solve_fails_only_by_status [LawfulSigns K] (problem : HingeProblem K)
    (valid : problem.validate = .ok ())
    (nonneg : ∀ term ∈ problem.summands, ∀ weight, term.weight = some weight → 0 ≤ weight)
    (before : Supply) :
    ∃ preparation : problem.Preparation before,
      preparation.model.isDcp = true ∧
        (∀ answer : Answer K, answer.termination.status.isSolved = true →
          ∃ values, SolvedValues.resolve preparation.decisions
              (answer.solution preparation.program) = .ok values ∧
            ∀ name ∈ problem.names, ∃ value, values.find? name = some value) ∧
          ∀ solver settings, ∃ outcome,
            problem.SolvesTo solver settings before outcome preparation.after ∧
              ∀ failure, outcome = .error failure → failure.blamesModel = false ∧
                ∀ answer, solver preparation.program settings = .ok answer →
                  (preparation.standard.variableIds = [] ∧ failure = .infeasible) ∨
                    preparation.standard.variableIds ≠ [] ∧
                      answer.termination.status.failure? = some failure := by
  have buildable := buildable_of_validate valid
  have dcp : (problem.built (problem.decisions before)).isDcp = true := by
    rw [isDcp_built_iff_of_validate valid]
    rintro ⟨term, member, weight, present, negative, -⟩
    exact LawfulSigns.not_neg_of_nonneg (nonneg term member weight present) negative
  rcases nonempty_preparation buildable dcp with ⟨preparation⟩
  refine ⟨preparation, preparation.isDcp, ?_, ?_⟩
  · intro answer solved
    refine ⟨_, preparation.resolve_solution buildable solved, ?_⟩
    intro name member
    exact SolvedValues.exists_find?_ofPoint (List.mem_eraseDups.2 member) _
  · intro solver settings
    refine ⟨_, preparation.solvesTo solver settings, ?_⟩
    intro failure failed
    have ends := (preparation.ends_outcome solver settings).of_answer_eq_error buildable failed
    refine ⟨ends.blamesModel, ?_⟩
    intro answer answered
    cases ends with
    | violated unlisted => exact .inl ⟨unlisted, rfl⟩
    | refused listed refused => rw [answered] at refused; simp at refused
    | failed listed other status =>
        rw [answered, Except.ok.injEq] at other
        exact .inr ⟨listed, other ▸ status⟩

/-- Repeated names, unused names and weightless terms do no harm. -/
theorem solve_fails_only_by_status_repeated_name :
    let document : HingeProblem Float :=
      ⟨["a", "b", "a"], [⟨-0.5, ["a"], [1], none, false⟩],
        [⟨1, ["a"], [-1], some 2, true⟩, ⟨0.25, [], [], some 0, false⟩]⟩
    ∃ preparation : document.Preparation .full, ∀ solver settings, ∃ outcome,
      document.SolvesTo solver settings .full outcome preparation.after ∧
        ∀ failure, outcome = .error failure → failure.blamesModel = false := by
  intro document
  have nonneg : ∀ term ∈ document.summands, ∀ weight, term.weight = some weight → 0 ≤ weight := by
    refine List.forall_mem_cons.2 ⟨?_, List.forall_mem_singleton.2 ?_⟩
    · rintro weight ⟨⟩
      decide
    · rintro weight ⟨⟩
      decide
  rcases solve_fails_only_by_status document rfl nonneg .full with ⟨preparation, -, -, each⟩
  refine ⟨preparation, ?_⟩
  intro solver settings
  rcases each solver settings with ⟨outcome, solvesTo, failures⟩
  exact ⟨outcome, solvesTo, fun failure failed => (failures failure failed).1⟩

/-- A valid document is refused as breaking the rules if and only if it has a concave penalty. Then
the objective is blamed, and there is no program that could be handed to a solver. -/
theorem solve_refuses_iff_concave_penalty [LawfulSigns K] (problem : HingeProblem K)
    (valid : problem.validate = .ok ()) (before : Supply) :
    (∀ solver settings,
        (∃ reason after, problem.SolvesTo solver settings before (.error (.notDcp reason)) after) ↔
          problem.HasConcavePenalty) ∧
      (problem.HasConcavePenalty →
        (∃ curvature after, ∀ solver settings, problem.SolvesTo solver settings before
            (.error (.notDcp (.violations (some curvature) []))) after) ∧
          ∀ decisions program, ¬problem.HandsOver before decisions program) := by
  have buildable := buildable_of_validate valid
  have dcp_iff := isDcp_built_iff_of_validate valid before
  have broken : problem.HasConcavePenalty →
      (problem.built (problem.decisions before)).isDcp = false := by
    intro concave
    rw [Bool.eq_false_iff]
    exact fun dcp => dcp_iff.1 dcp concave
  constructor
  · intro solver settings
    constructor
    · rintro ⟨reason, after, refused⟩
      by_contra fine
      rcases nonempty_preparation buildable (dcp_iff.2 fine) with ⟨preparation⟩
      exact preparation.not_solvesTo_notDcp buildable solver settings reason after refused
    · intro concave
      exact ⟨_, _, solvesTo_violations buildable (broken concave) solver settings⟩
  · intro concave
    refine ⟨⟨_, _, solvesTo_violations buildable (broken concave)⟩, ?_⟩
    intro decisions program handsOver
    rcases handsOver.exists_preparation with ⟨preparation, -, -⟩
    have dcp := preparation.isDcp
    rw [(preparation.built_eq buildable).2.1] at dcp
    exact dcp_iff.1 dcp concave

theorem solve_refuses_negative_weight :
    let document : HingeProblem Float := ⟨["a"], [], [⟨1, ["a"], [-1], some (-2), true⟩]⟩
    ∃ curvature after, ∀ solver settings, document.SolvesTo solver settings .full
      (.error (.notDcp (.violations (some curvature) []))) after := by
  intro document
  refine ((solve_refuses_iff_concave_penalty document rfl .full).2 ?_).1
  refine ⟨_, List.mem_singleton_self _, -2, rfl, by decide, -1, List.mem_singleton_self _, rfl⟩

/-- The weight of a term without coefficients may be negative: the document is not refused, and a
program is handed over. -/
theorem not_refused_of_constant_penalty :
    let document : HingeProblem Float := ⟨["x"], [], [⟨1, [], [], some (-1), false⟩]⟩
    document.validate = .ok () ∧
      (∃ term ∈ document.summands, ∃ weight, term.weight = some weight ∧ weight < 0) ∧
        (∃ decisions program, document.HandsOver .full decisions program) ∧
          ∀ solver settings reason after,
            ¬document.SolvesTo solver settings .full (.error (.notDcp reason)) after := by
  intro document
  have valid : document.validate = .ok () := rfl
  have buildable := buildable_of_validate valid
  have steady : ¬document.HasConcavePenalty := by
    rintro ⟨term, member, weight, -, -, coefficient, coefficient_mem, -⟩
    rw [List.mem_singleton.1 member] at coefficient_mem
    simp at coefficient_mem
  rcases nonempty_preparation buildable ((isDcp_built_iff_of_validate valid .full).2 steady) with
    ⟨preparation⟩
  refine ⟨valid, ⟨_, List.mem_singleton_self _, -1, rfl, by decide⟩, ?_, ?_⟩
  · exact ⟨_, _, preparation.handsOver buildable (.inl (by simp [document]))⟩
  · exact preparation.not_solvesTo_notDcp buildable

end HingeProblem

end HingeLoss
