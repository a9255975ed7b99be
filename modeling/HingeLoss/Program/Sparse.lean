import HingeLoss.Scalar

/-!
# Sparse matrices

Matrices in compressed columns: the stored entries are listed column by column and, within a
column, by row; an offset for each column tells where its entries begin. A stored entry may be
zero.
-/

namespace HingeLoss

/-- A number with the position at which it is added to a matrix. -/
structure MatrixEntry (K : Type) where
  row : Nat
  column : Nat
  value : K
deriving DecidableEq, Repr

/-- A matrix in compressed columns. -/
structure SparseMatrix (K : Type) where
  rowCount : Nat
  columnCount : Nat
  /-- Where the entries of each column begin, followed by the number of all entries. -/
  offsets : List Nat
  rows : List Nat
  values : List K

namespace SparseMatrix

variable {K : Type}

/-- The sums of the beginnings of a list, counted from `start`. -/
def runningSums (start : Nat) : List Nat → List Nat
  | [] => [start]
  | head :: rest => start :: runningSums (start + head) rest

/-- The matrix with the given columns, each a list of rows and values. -/
def ofColumns (rowCount : Nat) (columns : List (List (Nat × K))) : SparseMatrix K where
  rowCount := rowCount
  columnCount := columns.length
  offsets := runningSums 0 (columns.map List.length)
  rows := columns.flatten.map Prod.fst
  values := columns.flatten.map Prod.snd

/-- The rows and values stored for a column, which stand between its two offsets. -/
def column (matrix : SparseMatrix K) (index : Nat) : List (Nat × K) :=
  let start := matrix.offsets.getD index 0
  let stop := matrix.offsets.getD (index + 1) 0
  ((matrix.rows.zip matrix.values).drop start).take (stop - start)

/-- All stored entries, column by column. -/
def entries (matrix : SparseMatrix K) : List (MatrixEntry K) :=
  (List.range matrix.columnCount).flatMap fun index =>
    (matrix.column index).map fun (row, value) => ⟨row, index, value⟩

variable [Scalar K]

/-- Adds a value to a row of a column, the entries of which increase by row. The first value of a
row is stored as it is. -/
def insertRow (row : Nat) (value : K) : List (Nat × K) → List (Nat × K)
  | [] => [(row, value)]
  | (head, stored) :: rest =>
      if row < head then (row, value) :: (head, stored) :: rest
      else if row = head then (head, stored + value) :: rest
      else (head, stored) :: insertRow row value rest

/-- Whether an entry lies inside a matrix of the given size. -/
def fits (rowCount columnCount : Nat) (entry : MatrixEntry K) : Bool :=
  entry.row < rowCount && entry.column < columnCount

/-- The column that collects the entries with a given column index, repeated positions added up in
order. -/
def collectColumn (entries : List (MatrixEntry K)) (index : Nat) : List (Nat × K) :=
  (entries.filter fun entry => entry.column == index).foldl
    (fun column entry => insertRow entry.row entry.value column) []

/-- The matrix that collects a list of entries. Entries outside of the matrix are dropped, and
repeated positions are added up. -/
def ofEntries (rowCount columnCount : Nat) (entries : List (MatrixEntry K)) : SparseMatrix K :=
  let inside := entries.filter (fits rowCount columnCount)
  ofColumns rowCount ((List.range columnCount).map (collectColumn inside))

/-- The number at a position, which is the sum of what is stored there. -/
def denseAt (matrix : SparseMatrix K) (row column : Nat) : K :=
  Scalar.total (((matrix.column column).filter fun entry => entry.1 == row).map Prod.snd)

/-- All numbers of the matrix, row by row. -/
def dense (matrix : SparseMatrix K) : List (List K) :=
  (List.range matrix.rowCount).map fun row =>
    (List.range matrix.columnCount).map fun column => matrix.denseAt row column

/-- The entry of a row in the product of the matrix and a vector. -/
def apply (matrix : SparseMatrix K) (vector : Nat → K) (row : Nat) : K :=
  Scalar.total ((List.range matrix.columnCount).map fun column =>
    matrix.denseAt row column * vector column)

end SparseMatrix

end HingeLoss
