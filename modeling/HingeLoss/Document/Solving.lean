import HingeLoss.Document.SolvedValues
import HingeLoss.Surroundings

/-!
# Solving documents

A document is solved by building its model, solving the model with a conic solver, and reading the
values of the decision variables out of the solution. The steps are reported with their durations.
-/

namespace HingeLoss

/-- What is reported of a solved document, apart from the values. -/
structure Summary (K : Type) where
  /-- The number of distinct variables. -/
  variableCount : Nat
  /-- The number of constraints, without the bounds of the variables. -/
  constraintCount : Nat
  summandCount : Nat
  objective : Option K
  status : SolveStatus

namespace HingeProblem

variable {K : Type} [Scalar K] {m : Type → Type} [Monad m] [Logger m] [Clock m]

def report {n : Type → Type} [Logger n] (level : LogLevel) (message : String)
    (fields : List (String × String)) : n PUnit :=
  emit ⟨level, .reasoner, message, fields⟩

/-- Reports that a step is complete, with its duration up to now. -/
def reportComplete {n : Type → Type} [Monad n] [Logger n] [Clock n] (step : String)
    (start : Nat) : n PUnit := do
  let now ← Clock.milliseconds
  report .info (step ++ " complete in " ++ toString (now - start) ++ " ms") []

/-- The decision variables of a document and its optimization problem. -/
def model (problem : HingeProblem K) : Modelling m (DecisionVariables K × Problem K) := do
  report .info "Initializing problem" []
  let start ← Clock.milliseconds
  let decisions ← problem.buildVariables
  let constraints ← problem.buildConstraints decisions
  let objective ← problem.buildObjective decisions
  report .debug "model built"
    [("variables", toString decisions.count),
      ("constraints", toString problem.constraints.length),
      ("summands", toString problem.summands.length)]
  reportComplete "Problem initialization" start
  return (decisions, ⟨objective, constraints⟩)

/-- The objective at a solution: its value at the point that the solver found, or else the value
that the solver reports. -/
def objectiveAt (objective : Expression K) (solution : Solution K) : Option K :=
  (solution.primal.bind fun values => objective.eval fun id => values.lookup id).or solution.value

/-- Solves a document: the values of its decision variables, and a summary. -/
def solve (solver : ConicSolver K) (settings : Settings) (problem : HingeProblem K) :
    Modelling m (SolvedValues K × Summary K) := do
  let (decisions, model) ← problem.model
  report .info "Beginning optimization" []
  let start ← Clock.milliseconds
  let solution ← model.solve solver settings
  reportComplete "Optimization" start
  let values ← liftM (SolvedValues.resolve decisions solution)
  return (values,
    { variableCount := decisions.count
      constraintCount := problem.constraints.length
      summandCount := problem.summands.length
      objective := objectiveAt model.objective solution
      status := solution.status })

end HingeProblem

end HingeLoss
