import HingeLoss.Json.Fault
import HingeLoss.Solver.Answer
import HingeLoss.Standard.Canonical
import HingeLoss.Text.RawText

/-!
# Failures

Everything that can keep a problem from being read, modelled, solved or written, by cause. The
wording is in one place, `Failure.message`.
-/

namespace HingeLoss

open Text

def Curvature.name : Curvature → String
  | .constant => "Constant"
  | .affine => "Affine"
  | .convex => "Convex"
  | .concave => "Concave"
  | .unknown => "Unknown"

/-- The text of a reason. Violations are listed in one line, that of the objective first. -/
def NotDcp.message : NotDcp → String
  | .violations objective constraints =>
      let objectivePart := objective.toList.map fun curvature =>
        "Objective has curvature " ++ curvature.name ++ " but must be convex for minimization"
      let constraintParts := constraints.map fun index =>
        "Constraint " ++ toString index ++ " is not DCP"
      match objectivePart ++ constraintParts with
      | [] => "Unknown DCP violation"
      | parts => "; ".intercalate parts
  | .productOfNonConstants => "product of two non-constant expressions"
  | .quadraticOutsideObjective => "quadratic term outside of the objective"
  | .described text => text

/-- How a solver fails, apart from numerical difficulties. -/
inductive SolverFault where
  | iterationLimit
  | timeLimit
  | unknownStatus
  | badData (mismatch : DataMismatch)
  | described (text : String)

def SolverFault.message : SolverFault → String
  | .iterationLimit => "Maximum iterations reached"
  | .timeLimit => "Time limit reached"
  | .unknownStatus => "Unknown solver status"
  | .badData mismatch => "invalid problem data: Bad input data: " ++ mismatch.message
  | .described text => text

/-- How numerical difficulties are reported. -/
inductive NumericalFault where
  | solver
  | described (text : String)

def NumericalFault.message : NumericalFault → String
  | .solver => "Solver encountered numerical difficulties"
  | .described text => text

/-- What is wrong with a problem whose parts are all well formed. -/
inductive Invalidity where
  | unregisteredVariable (id : VarId)
  | nonFiniteWeight (index : Nat) (weight : String)
  | nonFiniteTerm (term : String)
  | unresolvedName (name : String)
  | notAVariable
  | notInSolution
  | described (text : String)

def Invalidity.message : Invalidity → String
  | .unregisteredVariable id =>
      "expression references unregistered variable " ++ toString id.index
  | .nonFiniteWeight index weight =>
      "objective summand " ++ toString index ++ " has non-finite weight " ++ weight
  | .nonFiniteTerm term => "term " ++ term ++ " has a non-finite constant or coefficient"
  | .unresolvedName name => "solver returned no value for variable '" ++ name ++ "'"
  | .notAVariable => "Expression is not a variable"
  | .notInSolution => "Variable not in solution"
  | .described text => text

/-- Why a document or a problem does not lead to a written solution. -/
inductive Failure where
  | notDcp (reason : NotDcp)
  | solver (fault : SolverFault)
  | infeasible
  | unbounded
  | numerical (fault : NumericalFault)
  | invalidProblem (reason : Invalidity)
  /-- A term, as it is shown, uses a name that was not declared. -/
  | unknownVariable (term name : String)
  /-- A term, as it is shown, has lists of different lengths. -/
  | lengthMismatch (term : String) (names coefficients : Nat)
  | missingWeight (index : Nat)
  | fileNotFound (path : RawText)
  | file (path : RawText) (fault : FileFault)
  | json (fault : Json.Fault)

namespace Failure

/-- The text of a failure, which repeats the text of what caused it. -/
def message : Failure → String
  | .notDcp reason => "Problem is not DCP: " ++ reason.message
  | .solver fault => "Solver error: " ++ fault.message
  | .infeasible => "Problem is infeasible"
  | .unbounded => "Problem is unbounded"
  | .numerical fault => "Numerical error: " ++ fault.message
  | .invalidProblem reason => "Invalid problem: " ++ reason.message
  | .unknownVariable term name =>
      "term " ++ term ++ " references undeclared variable '" ++ name ++ "'"
  | .lengthMismatch term names coefficients =>
      "term " ++ term ++ " has " ++ toString names ++ " variables but " ++
        toString coefficients ++ " coefficients"
  | .missingWeight index => "objective summand " ++ toString index ++ " has no weight"
  | .fileNotFound path => "input path does not exist: [" ++ path.display ++ "]"
  | .file path fault => "I/O error on " ++ path.display ++ ": " ++ fault.message
  | .json fault => "JSON error: " ++ fault.message

/-- The failure, followed by what caused it. -/
def chain (failure : Failure) : List String :=
  match failure with
  | .file _ fault => [failure.message, fault.message]
  | .json fault => [failure.message, fault.message]
  | _ => [failure.message]

end Failure

end HingeLoss
