import HingeLoss.Program.Conic
import HingeLoss.Solver.Settings

/-!
# Answers of a conic solver

A conic solver is any function from programs and settings to an answer, or to a refusal of
inconsistent data. Nothing is assumed of it; the way in which its run ended is reduced to a status
that decides whether the point it returns may be used.
-/

namespace HingeLoss

/-- How a run of a conic solver ended. -/
inductive Termination where
  | unsolved
  | solved
  | primalInfeasible
  | dualInfeasible
  | almostSolved
  | almostPrimalInfeasible
  | almostDualInfeasible
  | maxIterations
  | maxTime
  | numericalError
  | insufficientProgress
  | callbackTerminated
deriving DecidableEq, Repr

/-- What the end of a run means for the problem. -/
inductive SolveStatus where
  | optimal
  | optimalInaccurate
  | infeasible
  | unbounded
  | maxIterations
  | maxTime
  | numericalError
  | unknown
deriving DecidableEq, Repr

namespace SolveStatus

/-- Whether the point that came with the status may be used. -/
def isSolved : SolveStatus → Bool
  | .optimal | .optimalInaccurate => true
  | _ => false

/-- The word for a status in the log and in summaries. -/
def text : SolveStatus → String
  | .optimal => "optimal"
  | .optimalInaccurate => "optimal_inaccurate"
  | .infeasible => "infeasible"
  | .unbounded => "unbounded"
  | .maxIterations => "max_iterations"
  | .maxTime => "max_time"
  | .numericalError => "numerical_error"
  | .unknown => "unknown"

end SolveStatus

/-- The status that an end of a run gives; a certificate at reduced accuracy counts as one. -/
def Termination.status : Termination → SolveStatus
  | .solved => .optimal
  | .almostSolved => .optimalInaccurate
  | .primalInfeasible | .almostPrimalInfeasible => .infeasible
  | .dualInfeasible | .almostDualInfeasible => .unbounded
  | .maxIterations => .maxIterations
  | .maxTime => .maxTime
  | .numericalError | .insufficientProgress => .numericalError
  | .unsolved | .callbackTerminated => .unknown

/-- What a conic solver returns. -/
structure Answer (K : Type) where
  termination : Termination
  /-- One number for each column of the program. -/
  point : List K
  iterations : Nat
  seconds : Float

/-- Which parts of a program have sizes that do not fit together. -/
inductive DataMismatch where
  | rowsAndRhs
  | rowsAndCones
  | columnsAndCosts
deriving DecidableEq, Repr

def DataMismatch.message : DataMismatch → String
  | .rowsAndRhs => "A and b incompatible dimensions"
  | .rowsAndCones => "Constraint dimensions inconsistent with size of cones"
  | .columnsAndCosts => "A and q incompatible dimensions"

/-- The first mismatch between the sizes of the parts of a program. -/
def ConicProgram.mismatch? {K : Type} (program : ConicProgram K) : Option DataMismatch :=
  if program.rhs.length ≠ program.matrix.rowCount then some .rowsAndRhs
  else if program.layout.total ≠ program.rhs.length then some .rowsAndCones
  else if program.linear.length ≠ program.matrix.columnCount then some .columnsAndCosts
  else none

/-- A conic solver, of which nothing else is known. -/
abbrev ConicSolver (K : Type) :=
  ConicProgram K → Settings → Except DataMismatch (Answer K)

/-- The part of an answer that a problem uses. -/
structure Solution (K : Type) where
  status : SolveStatus
  value : Option K
  primal : Option (List (VarId × K))
  iterations : Nat
  seconds : Float

namespace Solution

variable {K : Type}

/-- The value of a variable; absent if there is no point or the variable is not in it. -/
def valueOf? (solution : Solution K) (id : VarId) : Option K :=
  solution.primal.bind fun values => values.lookup id

end Solution

namespace Answer

variable {K : Type} [Scalar K]

/-- The number of a column; columns beyond the point count as zero. -/
def pointAt (answer : Answer K) (column : Nat) : K := answer.point.getD column 0

/-- Reads an answer as a solution of a program: if it is solved, each variable takes the number of
its own column. -/
def solution (answer : Answer K) (program : ConicProgram K) : Solution K :=
  let status := answer.termination.status
  if status.isSolved then
    { status
      value := some (program.objectiveAt answer.pointAt + program.offset)
      primal := some (program.columns.ids.zipIdx.map fun (id, column) =>
        (id, answer.pointAt column))
      iterations := answer.iterations
      seconds := answer.seconds }
  else
    { status
      value := none
      primal := none
      iterations := answer.iterations
      seconds := answer.seconds }

end Answer

end HingeLoss
