import HingeLoss.Expression.Evaluation
import HingeLoss.Standard.Coefficients

/-!
# Linear forms

A linear form is a sum of coefficients times variables, plus a constant.
-/

namespace HingeLoss

/-- `constant + Σ coefficient * variable`. -/
structure LinearForm (K : Type) where
  coefficients : Coefficients VarId K
  constant : K

namespace LinearForm

variable {K : Type}

/-- Whether no variable occurs. -/
def isConstant (form : LinearForm K) : Bool := form.coefficients.isEmpty

/-- The variables that have a coefficient, in increasing order. -/
def variableIds (form : LinearForm K) : List VarId := form.coefficients.keys

variable [Scalar K]

def zero : LinearForm K := ⟨.empty, 0⟩

/-- A variable as a form, with the coefficient one. -/
def ofVariable (id : VarId) : LinearForm K := ⟨.single id 1, 0⟩

def ofConstant (value : K) : LinearForm K := ⟨.empty, value⟩

/-- The variable that the form consists of, if it is exactly one variable. -/
def singleVariable? (form : LinearForm K) : Option VarId :=
  if form.constant == 0 then
    match form.coefficients.entries with
    | [(id, coefficient)] => if coefficient == 1 then some id else none
    | _ => none
  else none

/-- Adds a multiple of a variable, which may occur in the form already. -/
def addTerm (form : LinearForm K) (id : VarId) (coefficient : K) : LinearForm K :=
  { form with coefficients := form.coefficients.addAt id coefficient }

/-- The sum of two forms, variable by variable. Coefficients that cancel are kept as zeros. -/
def add (left right : LinearForm K) : LinearForm K :=
  ⟨left.coefficients.add right.coefficients, left.constant + right.constant⟩

/-- A multiple of a form, with the factor on the right of each coefficient. -/
def scale (form : LinearForm K) (factor : K) : LinearForm K :=
  ⟨form.coefficients.scale factor, form.constant * factor⟩

/-- The opposite form, which is the multiple by minus one. -/
def neg (form : LinearForm K) : LinearForm K := form.scale (-1)

/-- Equality of the entries and of the constants, as numbers. -/
def beq (left right : LinearForm K) : Bool :=
  left.coefficients.entries.length == right.coefficients.entries.length &&
    (left.coefficients.entries.zip right.coefficients.entries).all
      (fun (leftEntry, rightEntry) =>
        leftEntry.1 == rightEntry.1 && leftEntry.2 == rightEntry.2) &&
    left.constant == right.constant

instance : BEq (LinearForm K) := ⟨beq⟩

/-- The value of the form when each variable has the given value. -/
def valueAt (form : LinearForm K) (values : VarId → K) : K :=
  form.coefficients.entries.foldr
    (fun (id, coefficient) rest => coefficient * values id + rest) form.constant

end LinearForm

end HingeLoss
