import HingeLoss.Scalar

/-!
# Documents

A hinge-loss document declares variables by name, bounds linear terms by zero, and asks to minimize
a weighted sum of hinge penalties of linear terms.
-/

namespace HingeLoss

/-- A linear expression over named variables. As an objective summand it carries a weight, and a
flag that squares its penalty; as a constraint it is bounded by zero and both are ignored. -/
structure Term (K : Type) where
  constant : K
  names : List String
  coefficients : List K
  weight : Option K
  squared : Bool
deriving DecidableEq, Repr

namespace Term

variable {K : Type}

/-- The coefficients with their variables, up to the end of the shorter list. -/
def entries (term : Term K) : List (K × String) := term.coefficients.zip term.names

variable [Scalar K]

/-- How one coefficient and its variable are shown; a minus sign replaces a negative coefficient's
own. -/
def entryText (coefficient : K) (name : String) : String :=
  if coefficient < 0 then " - " ++ Scalar.text (-coefficient) ++ " * " ++ name
  else " + " ++ Scalar.text coefficient ++ " * " ++ name

/-- The text of a term in messages: its sum, the mark of a square, and the weight in front. -/
def display (term : Term K) : String :=
  let entries := String.join (term.entries.map fun (coefficient, name) =>
    entryText coefficient name)
  let body := "(" ++ Scalar.text term.constant ++ entries ++ ")" ++
    (if term.squared then " ^2" else "")
  match term.weight with
  | some weight => Scalar.text weight ++ " * ( " ++ body ++ " )"
  | none => body

end Term

/-- A document. -/
structure HingeProblem (K : Type) where
  /-- The declared names; a repeated one declares nothing new. -/
  names : List String
  /-- Terms that are at most zero. -/
  constraints : List (Term K)
  /-- Terms whose positive parts are penalized. -/
  summands : List (Term K)
deriving DecidableEq, Repr

/-- The name of the variable that a document refers to by a whole number. -/
def nameOfInt (number : Int) : String := toString number

end HingeLoss
