import HingeLoss.Variable

/-!
# Columns

The variables of a problem take the columns of its matrices in the order in which they are first
listed.
-/

namespace HingeLoss

/-- The variables that have columns, in the order of the columns. -/
structure Columns where
  ids : List VarId
deriving DecidableEq

namespace Columns

/-- Appends the variables of a list that are not among the columns yet. -/
def extend (columns : List VarId) : List VarId → List VarId
  | [] => columns
  | id :: rest => if id ∈ columns then extend columns rest else extend (columns ++ [id]) rest

/-- One column for each variable of a list, by first occurrence. -/
def ofVariables (ids : List VarId) : Columns := ⟨extend [] ids⟩

def count (columns : Columns) : Nat := columns.ids.length

/-- The column of a variable: how many different variables were listed before it. -/
def find? (columns : Columns) (id : VarId) : Option Nat := columns.ids.idxOf? id

end Columns

end HingeLoss
