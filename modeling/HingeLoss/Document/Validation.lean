import HingeLoss.Document.Term
import HingeLoss.Failure

/-!
# Validation

A document is valid if every term is well formed over declared names and finite, and every summand
has a finite weight. The first defect is reported: constraints come before summands, and within a
term the lengths of its lists are checked before its names, and its names before its numbers.
-/

namespace HingeLoss

variable {K : Type} [Scalar K]

namespace Term

/-- Refuses a term with more names than coefficients, or fewer. -/
def checkLengths (term : Term K) : Except Failure Unit :=
  if term.names.length = term.coefficients.length then .ok ()
  else .error (.lengthMismatch term.display term.names.length term.coefficients.length)

/-- Refuses a term that uses a name that is not declared, and reports the first such name. -/
def checkNames (declared : List String) (term : Term K) : Except Failure Unit :=
  match term.names.find? fun name => !declared.contains name with
  | some name => .error (.unknownVariable term.display name)
  | none => .ok ()

/-- All numbers of the term are finite, apart from its weight. -/
def isFinite (term : Term K) : Bool :=
  Scalar.isFinite term.constant && term.coefficients.all Scalar.isFinite

/-- Refuses a term with an infinite or missing number. -/
def checkNumbers (term : Term K) : Except Failure Unit :=
  if term.isFinite then .ok () else .error (.invalidProblem (.nonFiniteTerm term.display))

/-- Checks one term, and reports its first defect. -/
def validate (declared : List String) (term : Term K) : Except Failure Unit := do
  term.checkLengths
  term.checkNames declared
  term.checkNumbers

/-- Refuses a summand without weight, or with one that is not finite. -/
def checkWeight (index : Nat) (term : Term K) : Except Failure Unit :=
  match term.weight with
  | none => .error (.missingWeight index)
  | some weight =>
      if Scalar.isFinite weight then .ok ()
      else .error (.invalidProblem (.nonFiniteWeight index (Scalar.text weight)))

end Term

namespace HingeProblem

/-- Checks summands that are numbered from `index` on. -/
def validateSummands (declared : List String) (index : Nat) :
    List (Term K) → Except Failure Unit
  | [] => .ok ()
  | term :: rest => do
      term.validate declared
      term.checkWeight index
      validateSummands declared (index + 1) rest

/-- Checks constraints in order. Their weights are not looked at. -/
def validateConstraints (declared : List String) : List (Term K) → Except Failure Unit
  | [] => .ok ()
  | term :: rest => do
      term.validate declared
      validateConstraints declared rest

/-- Checks a document, and reports its first defect. -/
def validate (problem : HingeProblem K) : Except Failure Unit := do
  validateConstraints problem.names problem.constraints
  validateSummands problem.names 0 problem.summands

end HingeProblem

end HingeLoss
