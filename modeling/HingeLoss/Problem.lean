import HingeLoss.Constraint
import HingeLoss.Expression.Evaluation
import HingeLoss.Failure
import HingeLoss.Log.Event

/-!
# Optimization problems

A problem is an expression to minimize under constraints. Solving it checks the rules of
disciplined convex programming, brings everything into standard form, assembles a conic program
and hands that to a conic solver. A problem in which no variable occurs is decided without one.
-/

namespace HingeLoss

/-- An expression to minimize, and the constraints under which to do so. -/
structure Problem (K : Type) where
  objective : Expression K
  constraints : List (Constraint K)

/-- A problem in standard form, with its variables in the order of their columns. -/
structure StandardProblem (K : Type) where
  objective : QuadraticForm K
  cones : List (Cone K)
  variableIds : List VarId

namespace Constraint

variable {K : Type} [Scalar K]

/-- The cone constraint that a constraint becomes, followed by those that its auxiliary variables
need. -/
def canonicalize (constraint : Constraint K) :
    Canonicalizing (List (Cone K) × List VarId) := do
  let canonical ← constraint.expression.canonicalize false
  let form ← canonical.linearForm
  let head :=
    match constraint with
    | .zero _ => Cone.zero form
    | .nonneg _ => Cone.nonneg form
  return (head :: canonical.cones, canonical.auxiliaries)

/-- The cone constraints of all constraints, and their auxiliary variables, in order. -/
def canonicalizeAll : List (Constraint K) → Canonicalizing (List (Cone K) × List VarId)
  | [] => return ([], [])
  | constraint :: rest => do
      let (cones, auxiliaries) ← constraint.canonicalize
      let (restCones, restAuxiliaries) ← canonicalizeAll rest
      return (cones ++ restCones, auxiliaries ++ restAuxiliaries)

end Constraint

/-- Below this distance from the boundary a constant counts as inside. -/
def constantTolerance {K : Type} [Scalar K] : K := 1e-9

namespace Cone

variable {K : Type} [Scalar K]

/-- Whether a constraint without variables holds, up to the tolerance. A length is compared through
its square, with a limit that is not negative, and not through a root; on doubles the two can differ
by rounding. Problems do not come to that: a cone of second order belongs to an auxiliary variable,
and a problem with one is not decided on its constants. -/
def holdsAsConstant (cone : Cone K) : Bool :=
  let tolerance : K := constantTolerance
  match cone with
  | .zero form =>
      form.isConstant && form.constant ≤ tolerance && -tolerance ≤ form.constant
  | .nonneg form => form.isConstant && -tolerance ≤ form.constant
  | .secondOrder bound entries =>
      let limit := bound.constant + tolerance
      bound.isConstant && entries.all LinearForm.isConstant && 0 ≤ limit &&
        Scalar.total (entries.map fun entry => entry.constant * entry.constant) ≤ limit * limit

end Cone

namespace StandardProblem

variable {K : Type} [Scalar K]

/-- The solution of a problem without variables: its constant, if all constraints hold. -/
def constantSolution (standard : StandardProblem K) : Except Failure (Solution K) :=
  if standard.cones.all Cone.holdsAsConstant then
    .ok
      { status := .optimal
        value := some standard.objective.constant
        primal := some []
        iterations := 0
        seconds := 0 }
  else .error .infeasible

/-- The conic program. A variable without a column makes the problem invalid. -/
def assemble (standard : StandardProblem K) : Except Failure (ConicProgram K) :=
  (ConicProgram.assemble standard.objective standard.cones standard.variableIds).mapError
    fun missing => .invalidProblem (.unregisteredVariable missing.id)

end StandardProblem

/-- What a status means for the problem: nothing if it is solved, and otherwise a failure. -/
def SolveStatus.failure? : SolveStatus → Option Failure
  | .optimal | .optimalInaccurate => none
  | .infeasible => some .infeasible
  | .unbounded => some .unbounded
  | .maxIterations => some (.solver .iterationLimit)
  | .maxTime => some (.solver .timeLimit)
  | .numericalError => some (.numerical .solver)
  | .unknown => some (.solver .unknownStatus)

/-- Runs a solver and reads its answer. Data that it refuses are a solver failure. -/
def ConicProgram.solve {K : Type} [Scalar K] (solver : ConicSolver K) (settings : Settings)
    (program : ConicProgram K) : Except Failure (Solution K) :=
  match solver program settings with
  | .ok answer => .ok (answer.solution program)
  | .error mismatch => .error (.solver (.badData mismatch))

/-- Steps that draw variables, report events to `m` and may fail. -/
abbrev Modelling (m : Type → Type) := ExceptT Failure (StateT Supply m)

/-- Canonicalization as a step of modelling. What it has drawn stays drawn when it fails. -/
def Modelling.ofCanonicalizing {m : Type → Type} [Monad m] {α : Type}
    (action : Canonicalizing α) : Modelling m α :=
  ExceptT.mk fun supply =>
    let (outcome, rest) := action.run.run supply
    pure (outcome.mapError Failure.notDcp, rest)

namespace Problem

variable {K : Type} [Scalar K]

/-- The rules of disciplined convex programming: a convex objective, and constraints that obey
theirs. -/
def isDcp (problem : Problem K) : Bool :=
  problem.objective.isConvex && problem.constraints.all Constraint.isDcp

/-- The reason by which a problem that breaks the rules is refused. -/
def violations (problem : Problem K) : NotDcp :=
  .violations
    (if problem.objective.isConvex then none else some problem.objective.curvature)
    ((problem.constraints.zipIdx.filter fun (constraint, _) => !constraint.isDcp).map Prod.snd)

/-- The distinct variables of a problem, in increasing order. -/
def variableIds (problem : Problem K) : List VarId :=
  VarId.sortedDistinct
    (problem.objective.occurrences ++
      problem.constraints.flatMap fun constraint => constraint.expression.occurrences)

/-- The standard form of a problem that obeys the rules. Its own variables come first, followed by
the auxiliary ones in the order in which they were drawn. -/
def standardize (problem : Problem K) : Canonicalizing (StandardProblem K) := do
  unless problem.isDcp do
    throw problem.violations
  let objective ← problem.objective.canonicalize true
  let (cones, auxiliaries) ← Constraint.canonicalizeAll problem.constraints
  return {
    objective := objective.form.toQuadratic
    cones := objective.cones ++ cones
    variableIds := problem.variableIds ++ objective.auxiliaries ++ auxiliaries }

section Solving

variable {m : Type → Type} [Monad m] [Logger m]

def report (level : LogLevel) (message : String) (fields : List (String × String)) :
    Modelling m Unit :=
  emit ⟨level, .problem, message, fields⟩

/-- Solves a problem by way of its standard form. A problem without any variable, auxiliary ones
included, is decided without the solver. -/
def solve (solver : ConicSolver K) (settings : Settings) (problem : Problem K) :
    Modelling m (Solution K) := do
  let standard ← Modelling.ofCanonicalizing problem.standardize
  report .debug "canonicalized problem"
    [("variables", toString standard.variableIds.length),
      ("cone_constraints", toString standard.cones.length),
      ("quadratic_terms", toString standard.objective.products.entries.length)]
  if standard.variableIds.isEmpty then
    liftM standard.constantSolution
  else
    let program ← liftM standard.assemble
    let solution ← liftM (program.solve solver settings)
    report .debug "solver finished"
      [("status", solution.status.text), ("iterations", toString solution.iterations),
        ("solve_time", Decimal.NumeralStyle.field.render solution.seconds)]
    match solution.status.failure? with
    | some failure => throw failure
    | none =>
        if solution.status = .optimalInaccurate then
          report .warn
            "solver reached reduced accuracy only; using the inaccurate solution" []
        return solution

end Solving

end Problem

end HingeLoss
