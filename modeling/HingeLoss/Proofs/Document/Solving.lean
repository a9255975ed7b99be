import HingeLoss.Proofs.Document.Model
import HingeLoss.Proofs.Problem.Standardization

/-!
# Solving documents

Solving a document hands one conic program to the solver. Which one does not depend on the solver,
nor on what the surroundings do; and what solving comes to is read off the solver's answer to it.
-/

namespace HingeLoss

/-- The solution, unless its status is a failure. -/
def Solution.checked {K : Type} (solution : Solution K) : Except Failure (Solution K) :=
  match solution.status.failure? with
  | some failure => .error failure
  | none => .ok solution

namespace StandardProblem

variable {K : Type} [Scalar K]

/-- What solving a standard form comes to: its constant if no variable is listed, and otherwise what
the solver answers to its program, unless the status of the answer is a failure. -/
def outcome (standard : StandardProblem K) (solver : ConicSolver K) (settings : Settings) :
    Except Failure (Solution K) :=
  if standard.variableIds.isEmpty then standard.constantSolution
  else do
    let program ← standard.assemble
    let solution ← program.solve solver settings
    solution.checked

end StandardProblem

namespace HingeProblem

variable {K : Type} [Scalar K]

/-- On the way of solving, starting with the supply `before`, the decision variables are declared
and the model is built, its standard form is taken, and this form, in which some variable is listed,
is assembled into the program. -/
def HandsOver (problem : HingeProblem K) (before : Supply) (decisions : DecisionVariables K)
    (program : ConicProgram K) : Prop :=
  ∃ model middle standard after,
    (∀ (m : Type → Type) [Monad m] [LawfulMonad m] [Logger m] [Clock m],
        Modelling.Yields (problem.model : Modelling m _) before (.ok (decisions, model)) middle) ∧
      model.standardize.Returns middle standard after ∧
        standard.variableIds.isEmpty = false ∧ standard.assemble = .ok program

/-- Starting with the supply `before`, the decision variables are declared and the model is built,
whatever the surroundings do. -/
def Builds (problem : HingeProblem K) (before : Supply) (decisions : DecisionVariables K)
    (model : Problem K) (after : Supply) : Prop :=
  Modelling.YieldsEverywhere (fun _ => problem.model) before (.ok (decisions, model)) after

/-- Starting with the supply `before`, solving the document has this outcome, whatever the
surroundings do. -/
def SolvesTo (problem : HingeProblem K) (solver : ConicSolver K) (settings : Settings)
    (before : Supply) (outcome : Except Failure (SolvedValues K × Summary K)) (after : Supply) :
    Prop :=
  Modelling.YieldsEverywhere (fun _ => problem.solve solver settings) before outcome after

/-- The way of a document to its conic program: decision variables and a model, the standard form of
the model and the program of that form. -/
structure Preparation (problem : HingeProblem K) (before : Supply) where
  decisions : DecisionVariables K
  model : Problem K
  /-- What is left of the supply for auxiliary variables. -/
  middle : Supply
  standard : StandardProblem K
  after : Supply
  program : ConicProgram K
  builds : problem.Builds before decisions model middle
  returns : model.standardize.Returns middle standard after
  assembled : standard.assemble = .ok program

/-- What is reported of a solution besides the values of the names. -/
def summaryOf (problem : HingeProblem K) (decisions : DecisionVariables K)
    (objective : Expression K) (solution : Solution K) : Summary K where
  variableCount := decisions.count
  constraintCount := problem.constraints.length
  summandCount := problem.summands.length
  objective := objectiveAt objective solution
  status := solution.status

def answer (problem : HingeProblem K) (decisions : DecisionVariables K)
    (objective : Expression K) (solution : Solution K) :
    Except Failure (SolvedValues K × Summary K) := do
  let values ← SolvedValues.resolve decisions solution
  return (values, problem.summaryOf decisions objective solution)

end HingeProblem

section Solving

variable {K : Type} [Scalar K] {m : Type → Type} [Monad m] [LawfulMonad m] [Logger m]
  {before middle after : Supply}

theorem Problem.yields_solve {problem : Problem K} {standard : StandardProblem K}
    (returns : problem.standardize.Returns before standard after) (solver : ConicSolver K)
    (settings : Settings) :
    Modelling.Yields (problem.solve solver settings : Modelling m _) before
      (standard.outcome solver settings) after := by
  refine (Modelling.yields_ofCanonicalizing returns).bind ((Modelling.yields_emit _ _).bind ?_)
  rw [StandardProblem.outcome]
  split
  case isTrue => exact Modelling.yields_ofExcept rfl _
  case isFalse =>
    refine (Modelling.yields_ofExcept rfl _).bind_outcome fun program _ => ?_
    refine (Modelling.yields_ofExcept rfl _).bind_outcome fun solution _ => ?_
    refine (Modelling.yields_emit _ _).bind ?_
    rw [Solution.checked]
    cases solution.status.failure? with
    | some failure => exact Modelling.yields_throw failure _
    | none =>
        have reported : Modelling.Yields
            (do
              report .warn
                "solver reached reduced accuracy only; using the inaccurate solution" []
              return solution : Modelling m _) after (.ok solution) after :=
          (Modelling.yields_emit _ _).bind (Modelling.yields_pure _ _)
        by_cases inaccurate : solution.status = .optimalInaccurate
        · simpa [inaccurate] using reported
        · simpa [inaccurate] using Modelling.yields_pure solution after

/-- A problem that breaks the rules is refused before any auxiliary variable is drawn. -/
theorem Problem.yields_solve_of_not_isDcp {problem : Problem K} (broken : problem.isDcp = false)
    (solver : ConicSolver K) (settings : Settings) (supply : Supply) :
    Modelling.Yields (problem.solve solver settings : Modelling m _) supply
      (.error (.notDcp problem.violations)) supply := by
  have refused : problem.standardize.Fails supply problem.violations supply := by
    simp only [standardize, broken, Bool.false_eq_true, if_false]
    rfl
  exact (Modelling.yields_ofCanonicalizing refused).bind_error

namespace HingeProblem

variable {problem : HingeProblem K} {decisions others : DecisionVariables K}
  {model other : Problem K}

theorem Builds.unique {otherAfter : Supply} (builds : problem.Builds before decisions model after)
    (again : problem.Builds before others other otherAfter) :
    decisions = others ∧ model = other ∧ after = otherAfter := by
  rcases Modelling.YieldsEverywhere.unique builds again with ⟨same, rfl⟩
  rw [Except.ok.injEq, Prod.mk.injEq] at same
  exact ⟨same.1, same.2, rfl⟩

/-- What solving the model comes to is what solving the document comes to, up to reading the values
of the names out of the solution. -/
theorem Builds.solvesTo (builds : problem.Builds before decisions model middle)
    {solver : ConicSolver K} {settings : Settings} {outcome : Except Failure (Solution K)}
    (solved : Modelling.YieldsEverywhere (fun _ => model.solve solver settings) middle outcome
      after) :
    problem.SolvesTo solver settings before
      (outcome >>= problem.answer decisions model.objective) after := by
  intro m _ _ _ _
  refine (builds m).bind ((Modelling.yields_emit _ _).bind ?_)
  refine Modelling.Yields.milliseconds_bind fun start => ?_
  refine (solved m).bind_outcome fun solution _ => ?_
  refine (yields_reportComplete _ _ _).bind ?_
  exact (Modelling.yields_ofExcept rfl _).bind_outcome fun values _ => Modelling.yields_pure _ _

theorem Builds.solvesTo_of_not_isDcp (builds : problem.Builds before decisions model middle)
    (broken : model.isDcp = false) (solver : ConicSolver K) (settings : Settings) :
    problem.SolvesTo solver settings before (.error (.notDcp model.violations)) middle :=
  builds.solvesTo fun _ => Problem.yields_solve_of_not_isDcp broken solver settings middle

/-- What solving a document comes to is read off the solver's answer to its program. -/
theorem Preparation.solvesTo (preparation : problem.Preparation before) (solver : ConicSolver K)
    (settings : Settings) :
    problem.SolvesTo solver settings before
      (preparation.standard.outcome solver settings >>=
        problem.answer preparation.decisions preparation.model.objective) preparation.after :=
  preparation.builds.solvesTo fun _ => Problem.yields_solve preparation.returns solver settings

theorem Preparation.isDcp (preparation : problem.Preparation before) :
    preparation.model.isDcp = true :=
  (Problem.returns_standardize preparation.returns).1

theorem HandsOver.exists_preparation {program : ConicProgram K}
    (handsOver : problem.HandsOver before decisions program) :
    ∃ preparation : problem.Preparation before,
      preparation.decisions = decisions ∧ preparation.program = program := by
  rcases handsOver with ⟨model, middle, standard, after, builds, returns, -, assembled⟩
  exact ⟨⟨decisions, model, middle, standard, after, program, builds, returns, assembled⟩, rfl, rfl⟩

theorem Preparation.eq (preparation other : problem.Preparation before) : preparation = other := by
  rcases preparation with ⟨_, _, _, _, _, _, builds, returns, assembled⟩
  rcases other with ⟨_, _, _, _, _, _, buildsAgain, returnsAgain, assembledAgain⟩
  rcases builds.unique buildsAgain with ⟨rfl, rfl, rfl⟩
  rcases returns.unique returnsAgain with ⟨rfl, rfl⟩
  have sameProgram := assembled.symm.trans assembledAgain
  rw [Except.ok.injEq] at sameProgram
  subst sameProgram
  rfl

/-- There is only one program to hand over. -/
theorem HandsOver.unique {program other : ConicProgram K}
    (handsOver : problem.HandsOver before decisions program)
    (again : problem.HandsOver before others other) : decisions = others ∧ program = other := by
  rcases handsOver.exists_preparation with ⟨preparation, rfl, rfl⟩
  rcases again.exists_preparation with ⟨otherPreparation, rfl, rfl⟩
  rw [preparation.eq otherPreparation]
  exact ⟨rfl, rfl⟩

end HingeProblem

end Solving

end HingeLoss
