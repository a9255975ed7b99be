import HingeLoss.Document.Term
import HingeLoss.Problem

/-!
# Models

The optimization problem that a document describes: one variable between zero and one for each
distinct name, the terms of the constraints bounded by zero, and the weighted sum of the hinges of
the summands.
-/

namespace HingeLoss

/-- The decision variables of a document with their names, in the order of declaration. -/
structure DecisionVariables (K : Type) where
  entries : List (String × Expression K)

namespace DecisionVariables

variable {K : Type}

/-- The variable that was declared under a name. -/
def find? (decisions : DecisionVariables K) (name : String) : Option (Expression K) :=
  decisions.entries.lookup name

def count (decisions : DecisionVariables K) : Nat := decisions.entries.length

def push (decisions : DecisionVariables K) (name : String) (expression : Expression K) :
    DecisionVariables K :=
  ⟨decisions.entries ++ [(name, expression)]⟩

end DecisionVariables

section Building

variable {K : Type} {m : Type → Type} [Monad m] [Logger m]

/-- Reports an event of the building of a model. -/
def reportBuilding (level : LogLevel) (message : String) (fields : List (String × String)) :
    Modelling m Unit :=
  emit ⟨level, .builder, message, fields⟩

namespace DecisionVariables

/-- Declares names one after the other. A name that is declared again keeps its first variable. -/
def declare (decisions : DecisionVariables K) :
    List String → Modelling m (DecisionVariables K)
  | [] => return decisions
  | name :: rest => do
      match decisions.find? name with
      | some _ =>
          reportBuilding .warn "duplicate variable declaration ignored" [("variable", name)]
          decisions.declare rest
      | none =>
          let id ← freshId
          (decisions.push name (.var ⟨id, some name, false⟩)).declare rest

end DecisionVariables

namespace Term

variable [Scalar K]

/-- The coefficients of a term with the variables of their names. The first name that is not
declared is refused. -/
def weightedVariables (term : Term K) (decisions : DecisionVariables K) :
    Except Failure (List (K × Expression K)) :=
  term.entries.mapM fun (coefficient, name) =>
    match decisions.find? name with
    | some expression => .ok (coefficient, expression)
    | none => .error (.unknownVariable term.display name)

/-- The value of a term as one sum. -/
def expression (term : Term K) (decisions : DecisionVariables K) :
    Except Failure (Expression K) := do
  if term.names.length ≠ term.coefficients.length then
    throw (.lengthMismatch term.display term.names.length term.coefficients.length)
  let terms ← term.weightedVariables decisions
  return .weightedSum term.constant terms

/-- The constraint that a term is at most zero. -/
def buildConstraint (term : Term K) (decisions : DecisionVariables K) :
    Modelling m (Constraint K) := do
  reportBuilding .debug "adding constraint" [("constraint", term.display)]
  let expression ← liftM (term.expression decisions)
  return .atMost expression (.const 0)

/-- The weighted penalty of a term. The weight is looked for first, before the term is reported. -/
def buildSummand (index : Nat) (term : Term K) (decisions : DecisionVariables K) :
    Modelling m (Expression K) := do
  match term.weight with
  | none => throw (.missingWeight index)
  | some weight =>
      reportBuilding .debug "adding objective summand" [("summand", term.display)]
      let expression ← liftM (term.expression decisions)
      return .scaled weight (expression.hinge term.squared)

end Term

namespace HingeProblem

variable [Scalar K]

/-- Declares the names of a document. -/
def buildVariables (problem : HingeProblem K) : Modelling m (DecisionVariables K) :=
  (⟨[]⟩ : DecisionVariables K).declare problem.names

/-- The bounds of a variable, zero and one. -/
def boxConstraints (expression : Expression K) : List (Constraint K) :=
  [.atLeast expression (.const 0), .atMost expression (.const 1)]

/-- The bounds of all variables, followed by the constraints of the document. -/
def buildConstraints (problem : HingeProblem K) (decisions : DecisionVariables K) :
    Modelling m (List (Constraint K)) := do
  let terms ← problem.constraints.mapM fun term => term.buildConstraint decisions
  return decisions.entries.flatMap (fun (_, expression) => boxConstraints expression) ++ terms

/-- The weighted sum of the penalties; without summands, zero. -/
def buildObjective (problem : HingeProblem K) (decisions : DecisionVariables K) :
    Modelling m (Expression K) := do
  let summands ← problem.summands.zipIdx.mapM fun (term, index) =>
    term.buildSummand index decisions
  return .sumOf summands

end HingeProblem

end Building

end HingeLoss
