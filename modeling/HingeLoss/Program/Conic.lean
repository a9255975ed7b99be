import HingeLoss.Program.Columns
import HingeLoss.Program.Sparse
import HingeLoss.Standard.Cone
import HingeLoss.Standard.Quadratic

/-!
# Conic programs

The form of a problem that a conic solver takes: minimize `½ xᵀ P x + qᵀ x` such that the slack
`b - A x` lies in a product of cones. The matrix `P` holds only its upper triangle, so a square
with coefficient `c` is stored as `2 c` on the diagonal and a product of two different variables as
`c` above it. The rows of `A` are the forms held at zero, then the forms held above zero, then one
block for each second-order cone; a form held above zero is stored with its signs turned, since the
slack has to equal it.
-/

namespace HingeLoss

/-- How many rows belong to which cone. -/
structure ConeLayout where
  zero : Nat
  nonneg : Nat
  secondOrder : List Nat
deriving DecidableEq, Repr

/-- The cones in which the slacks of a program may lie. -/
inductive ConeKind where
  | zero
  | nonneg
  | secondOrder
deriving DecidableEq, Repr

/-- Consecutive rows, the slack of which lies in one cone. -/
structure ConeBlock where
  kind : ConeKind
  start : Nat
  size : Nat
deriving DecidableEq, Repr

namespace ConeLayout

def total (layout : ConeLayout) : Nat :=
  layout.zero + layout.nonneg + layout.secondOrder.foldr (· + ·) 0

/-- Blocks of the given sizes, one behind the other from the row `start` on. -/
def secondOrderBlocks (start : Nat) : List Nat → List ConeBlock
  | [] => []
  | size :: rest => ⟨.secondOrder, start, size⟩ :: secondOrderBlocks (start + size) rest

/-- The blocks of rows in order. There is no block for the rows held at zero, or above zero, if
there are none of them. -/
def blocks (layout : ConeLayout) : List ConeBlock :=
  (if layout.zero = 0 then [] else [⟨.zero, 0, layout.zero⟩]) ++
    (if layout.nonneg = 0 then [] else [⟨.nonneg, layout.zero, layout.nonneg⟩]) ++
    secondOrderBlocks (layout.zero + layout.nonneg) layout.secondOrder

end ConeLayout

/-- A conic program, with what is needed to read its solution. -/
structure ConicProgram (K : Type) where
  quadratic : SparseMatrix K
  linear : List K
  matrix : SparseMatrix K
  rhs : List K
  layout : ConeLayout
  columns : Columns
  /-- The constant of the objective, which no solver needs to see. -/
  offset : K

/-- A form mentions a variable that has no column. -/
structure UnregisteredVariable where
  id : VarId
deriving DecidableEq

namespace ConicProgram

variable {K : Type}

/-- The column of a variable that is expected to have one. -/
def columnOf (columns : Columns) (id : VarId) : Except UnregisteredVariable Nat :=
  match columns.find? id with
  | some column => .ok column
  | none => .error ⟨id⟩

variable [Scalar K]

/-- The linear costs, added up column by column. -/
def linearCosts (columns : Columns) (form : LinearForm K) :
    Except UnregisteredVariable (List K) :=
  form.coefficients.entries.foldlM
    (fun costs (id, coefficient) => do
      let column ← columnOf columns id
      return costs.modify column (· + coefficient))
    (List.replicate columns.count 0)

/-- The entry of the quadratic cost matrix for one product of variables. -/
def quadraticEntry (columns : Columns) (entry : (VarId × VarId) × K) :
    Except UnregisteredVariable (MatrixEntry K) := do
  let first ← columnOf columns entry.1.1
  let second ← columnOf columns entry.1.2
  let row := min first second
  let column := max first second
  return ⟨row, column, if row = column then Scalar.two * entry.2 else entry.2⟩

/-- The quadratic cost matrix, made from one entry for each product. -/
def quadraticCosts (columns : Columns) (products : Coefficients (VarId × VarId) K) :
    Except UnregisteredVariable (SparseMatrix K) := do
  let entries ← products.entries.mapM (quadraticEntry columns)
  return .ofEntries columns.count columns.count entries

/-- The sign of a row: forms held at zero are stored as they are, all others turned around. -/
def rowSign (negated : Bool) : K := if negated then -1 else 1

/-- A row of the constraint matrix: a form, and whether its signs are turned. -/
structure Row (K : Type) where
  form : LinearForm K
  negated : Bool

/-- The rows of a list of constraints, grouped by kind. -/
def rowsOf (cones : List (Cone K)) : List (Row K) :=
  let zeros := cones.filterMap fun
    | .zero form => some ⟨form, false⟩
    | _ => none
  let nonnegs := cones.filterMap fun
    | .nonneg form => some ⟨form, true⟩
    | _ => none
  let secondOrders := cones.flatMap fun
    | .secondOrder bound entries => (bound :: entries).map fun form => ⟨form, true⟩
    | _ => []
  zeros ++ nonnegs ++ secondOrders

/-- How many rows the constraints of each kind take, and the size of each second-order cone. -/
def layoutOf (cones : List (Cone K)) : ConeLayout where
  zero := cones.countP fun
    | .zero _ => true
    | _ => false
  nonneg := cones.countP fun
    | .nonneg _ => true
    | _ => false
  secondOrder := cones.filterMap fun
    | .secondOrder _ entries => some (1 + entries.length)
    | _ => none

/-- The matrix entries of a row: one for each of its coefficients, with the sign of the row. -/
def rowEntries (columns : Columns) (row : Row K) (index : Nat) :
    Except UnregisteredVariable (List (MatrixEntry K)) :=
  row.form.coefficients.entries.mapM fun (id, coefficient) => do
    let column ← columnOf columns id
    return ⟨index, column, coefficient * rowSign row.negated⟩

/-- The right-hand side of a row: the slack of a row with turned signs is its form, and the slack of
any other row is the opposite. -/
def rowConstant (row : Row K) : K := -row.form.constant * rowSign row.negated

/-- The constraint matrix, which has the rows in their order. -/
def constraintMatrix (columns : Columns) (rows : List (Row K)) :
    Except UnregisteredVariable (SparseMatrix K) := do
  let entries ← rows.zipIdx.mapM fun (row, index) => rowEntries columns row index
  return .ofEntries rows.length columns.count entries.flatten

/-- Assembles the program of an objective and of constraints. It fails if a variable that occurs in
them is not listed, and reports the first one that is met: in the linear costs, in the products, and
then row by row. -/
def assemble (objective : QuadraticForm K) (cones : List (Cone K)) (ids : List VarId) :
    Except UnregisteredVariable (ConicProgram K) := do
  let columns := Columns.ofVariables ids
  let linear ← linearCosts columns objective.linear
  let quadratic ← quadraticCosts columns objective.products
  let rows := rowsOf cones
  let matrix ← constraintMatrix columns rows
  return {
    quadratic, linear, matrix, columns
    rhs := rows.map rowConstant
    layout := layoutOf cones
    offset := objective.constant }

/-- Half of the quadratic cost of a stored entry at a point; an entry above the diagonal stands for
itself and for the one across the diagonal. -/
def entryCost (point : Nat → K) (entry : MatrixEntry K) : K :=
  if entry.row = entry.column then
    1 / Scalar.two * entry.value * point entry.row * point entry.column
  else entry.value * point entry.row * point entry.column

/-- The objective at a point, without the offset. -/
def objectiveAt (program : ConicProgram K) (point : Nat → K) : K :=
  Scalar.total (program.linear.zipIdx.map fun (cost, column) => cost * point column) +
    Scalar.total (program.quadratic.entries.map (entryCost point))

end ConicProgram

end HingeLoss
