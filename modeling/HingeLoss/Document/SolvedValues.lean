import HingeLoss.Document.Model

/-!
# Solved values

The values of the decision variables of a document, read out of a solution in the order of
declaration.
-/

namespace HingeLoss

/-- The values of the decision variables under their names. -/
structure SolvedValues (K : Type) where
  entries : List (String × K)
deriving DecidableEq, Repr

namespace Solution

variable {K : Type}

/-- The value of an expression that has to be a variable of the solution. -/
def valueOf (solution : Solution K) (expression : Expression K) : Except Invalidity K :=
  match expression.variableId? with
  | none => .error .notAVariable
  | some id =>
      match solution.valueOf? id with
      | some value => .ok value
      | none => .error .notInSolution

end Solution

namespace SolvedValues

variable {K : Type}

/-- The value of one decision variable. Why it has none is not told apart. -/
def resolveEntry (solution : Solution K) (entry : String × Expression K) :
    Except Failure (String × K) :=
  match solution.valueOf entry.2 with
  | .ok value => .ok (entry.1, value)
  | .error _ => .error (.invalidProblem (.unresolvedName entry.1))

/-- The values of all decision variables; the first one without a value is reported. -/
def resolve (decisions : DecisionVariables K) (solution : Solution K) :
    Except Failure (SolvedValues K) := do
  let entries ← decisions.entries.mapM (resolveEntry solution)
  return ⟨entries⟩

def find? (values : SolvedValues K) (name : String) : Option K := values.entries.lookup name

end SolvedValues

end HingeLoss
