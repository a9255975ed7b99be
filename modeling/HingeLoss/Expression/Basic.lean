import HingeLoss.Scalar
import HingeLoss.Variable

/-!
# Expressions

Scalar expressions over decision variables. Long sums are one node with a list of terms, so that
the expression of a problem with thousands of terms stays shallow. The operators below build the
same nodes as ordinary arithmetic would: a difference adds a negation, and a quotient by a number
multiplies by its reciprocal.
-/

namespace HingeLoss

/-- An expression over decision variables, with numbers of type `K` as constants. -/
inductive Expression (K : Type) where
  | var (leaf : Variable)
  | const (value : K)
  | add (left right : Expression K)
  | neg (body : Expression K)
  | mul (left right : Expression K)
  | sum (terms : List (Expression K))
  /-- The larger of the body and zero. -/
  | pos (body : Expression K)
  | square (body : Expression K)

namespace Expression

variable {K : Type}

/-- Induction in which a sum inherits the property from each of its terms. -/
@[elab_as_elim, induction_eliminator]
theorem inductionOn {motive : Expression K → Prop} (expression : Expression K)
    (var : ∀ leaf, motive (.var leaf)) (const : ∀ value, motive (.const value))
    (add : ∀ left right, motive left → motive right → motive (.add left right))
    (neg : ∀ body, motive body → motive (.neg body))
    (mul : ∀ left right, motive left → motive right → motive (.mul left right))
    (sum : ∀ terms, (∀ term ∈ terms, motive term) → motive (.sum terms))
    (pos : ∀ body, motive body → motive (.pos body))
    (square : ∀ body, motive body → motive (.square body)) : motive expression :=
  Expression.rec (motive_2 := fun terms => ∀ term ∈ terms, motive term) var const add neg mul
    (fun terms ih => sum terms ih) pos square (by simp)
    (fun _ _ head tail => by simpa using ⟨head, tail⟩) expression

/-- The number of the variable, if the expression is one. -/
def variableId? : Expression K → Option VarId
  | .var v => some v.id
  | _ => none

def variableName? : Expression K → Option String
  | .var v => v.name
  | _ => none

/-- The value of a literal. An expression that merely has no variables is none. -/
def constant? : Expression K → Option K
  | .const value => some value
  | _ => none

/-- Gives a name to a variable; other expressions stay as they are. -/
def named (name : String) : Expression K → Expression K
  | .var v => .var { v with name := some name }
  | other => other

/-- The difference, which adds the negation of the right side. -/
def sub (left right : Expression K) : Expression K :=
  .add left (.neg right)

section Operators

variable [Scalar K]

def zero : Expression K := .const 0

def addConst (expression : Expression K) (value : K) : Expression K :=
  .add expression (.const value)

/-- `expression - value`, which adds the opposite number. -/
def subConst (expression : Expression K) (value : K) : Expression K :=
  .add expression (.const (-value))

/-- A multiple, in which the factor is the left side of a product. -/
def scaled (factor : K) (expression : Expression K) : Expression K :=
  .mul (.const factor) expression

/-- `expression / divisor`, which multiplies by the reciprocal. -/
def divConst (expression : Expression K) (divisor : K) : Expression K :=
  .mul (.const (1 / divisor)) expression

/-- The sum of expressions; an empty sum is zero and a single term stays as it is. -/
def sumOf : List (Expression K) → Expression K
  | [] => zero
  | [term] => term
  | terms => .sum terms

/-- `offset` plus each coefficient times its expression, in the given order. -/
def weightedSum (offset : K) (terms : List (K × Expression K)) : Expression K :=
  .sum (.const offset :: terms.map fun (coefficient, term) => scaled coefficient term)

/-- The penalty for a positive value: the positive part, squared if asked for. -/
def hinge (expression : Expression K) (squared : Bool) : Expression K :=
  if squared then .square (.pos expression) else .pos expression

end Operators

mutual

/-- The numbers of the variables, one for each occurrence, from left to right. -/
def occurrences : Expression K → List VarId
  | .var v => [v.id]
  | .const _ => []
  | .add left right => left.occurrences ++ right.occurrences
  | .neg body => body.occurrences
  | .mul left right => left.occurrences ++ right.occurrences
  | .sum terms => listOccurrences terms
  | .pos body => body.occurrences
  | .square body => body.occurrences

/-- The occurrences in the terms of a list, one term after the other. -/
def listOccurrences : List (Expression K) → List VarId
  | [] => []
  | term :: rest => term.occurrences ++ listOccurrences rest

end

/-- The distinct variables of an expression, in increasing order. -/
def variableIds (expression : Expression K) : List VarId :=
  VarId.sortedDistinct expression.occurrences

end Expression

end HingeLoss
