/-!
# Dense linear algebra

Vectors of doubles, and the factorization of symmetric matrices whose leading part is positive and
whose trailing part is negative definite. Reading beyond the end of a vector gives zero.
-/

namespace HingeLoss.Solver

/-- A vector of doubles. -/
abbrev Vec := Array Float

/-- The entries of a row that are stored, each with its column. -/
abbrev SparseRow := Array (Nat × Float)

namespace Vec

def entry (vector : Vec) (index : Nat) : Float := vector.getD index 0

def constant (size : Nat) (value : Float) : Vec := Array.replicate size value

def zipWith (combine : Float → Float → Float) (left right : Vec) : Vec :=
  Array.zipWith combine left right

def add (left right : Vec) : Vec := zipWith (· + ·) left right

def sub (left right : Vec) : Vec := zipWith (· - ·) left right

def scale (factor : Float) (vector : Vec) : Vec := vector.map (factor * ·)

/-- The left vector plus a multiple of the right one. -/
def addScaled (left : Vec) (factor : Float) (right : Vec) : Vec :=
  zipWith (fun leftEntry rightEntry => leftEntry + factor * rightEntry) left right

def dot (left right : Vec) : Float := (zipWith (· * ·) left right).foldl (· + ·) 0

/-- The largest absolute value of an entry. -/
def norm (vector : Vec) : Float :=
  vector.foldl (fun largest entry => if largest < entry.abs then entry.abs else largest) 0

def isFinite (vector : Vec) : Bool := vector.all Float.isFinite

end Vec

namespace SparseRow

/-- The product of a row and a vector. -/
def dot (row : SparseRow) (vector : Vec) : Float :=
  row.foldl (fun sum (column, value) => sum + value * vector.entry column) 0

end SparseRow

def rowsApply (rows : Array SparseRow) (vector : Vec) : Vec :=
  rows.map fun row => row.dot vector

/-- The product of the transpose of a matrix, given by its rows, with a vector. -/
def rowsApplyTransposed (rows : Array SparseRow) (size : Nat) (vector : Vec) : Vec :=
  (rows.zip vector).foldl
    (fun sum (row, factor) =>
      row.foldl (fun sum (column, value) => sum.modify column (· + factor * value)) sum)
    (Vec.constant size 0)

/-- A square matrix, row after row. -/
structure Square where
  size : Nat
  entries : Vec

namespace Square

def zero (size : Nat) : Square := ⟨size, Vec.constant (size * size) 0⟩

def entry (matrix : Square) (row column : Nat) : Float :=
  matrix.entries.entry (row * matrix.size + column)

/-- Adds a number at a position. -/
def addAt (matrix : Square) (row column : Nat) (value : Float) : Square :=
  { matrix with entries := matrix.entries.modify (row * matrix.size + column) (· + value) }

/-- Adds `factor * row * rowᵀ`. -/
def addOuter (matrix : Square) (factor : Float) (row : SparseRow) : Square :=
  row.foldl
    (fun matrix (first, firstValue) =>
      row.foldl
        (fun matrix (second, secondValue) =>
          matrix.addAt first second (factor * firstValue * secondValue))
        matrix)
    matrix

/-- Adds `factor * vector * vectorᵀ`. -/
def addOuterDense (matrix : Square) (factor : Float) (vector : Vec) : Square :=
  let row : SparseRow := (vector.zipIdx.filter fun (value, _) => value != 0).map
    fun (value, index) => (index, value)
  matrix.addOuter factor row

end Square

/-- A factorization into a unit lower triangle and a diagonal. -/
structure Factorization where
  size : Nat
  /-- The triangle, row after row; entries on and above the diagonal are not read. -/
  lower : Vec
  pivots : Vec

namespace Factorization

/-- The sum of `lower[row][k] * lower[column][k] * pivot[k]` over the columns before `column`. -/
def innerSum (size : Nat) (lower pivots : Vec) (row column : Nat) : Float := Id.run do
  let mut sum := 0
  for k in [0:column] do
    sum := sum + lower.entry (row * size + k) * lower.entry (column * size + k) * pivots.entry k
  return sum

/-- A pivot kept away from zero on the side where it belongs. -/
def guarded (positive : Bool) (pivot : Float) : Float :=
  if positive then (if pivot > 1e-13 then pivot else 1e-7)
  else (if pivot < -1e-13 then pivot else -1e-7)

/-- Factorizes a symmetric matrix, of which the first `positives` pivots are positive and the rest
negative. -/
def ofSquare (matrix : Square) (positives : Nat) : Factorization := Id.run do
  let size := matrix.size
  let mut lower := Vec.constant (size * size) 0
  let mut pivots := Vec.constant size 0
  for column in [0:size] do
    let pivot := guarded (column < positives)
      (matrix.entry column column - innerSum size lower pivots column column)
    pivots := pivots.setIfInBounds column pivot
    for row in [column + 1:size] do
      let entry := (matrix.entry row column - innerSum size lower pivots row column) / pivot
      lower := lower.setIfInBounds (row * size + column) entry
  return ⟨size, lower, pivots⟩

/-- Solves a system by going down the triangle, dividing by the pivots, and going up again. -/
def solve (factor : Factorization) (rhs : Vec) : Vec := Id.run do
  let size := factor.size
  let mut solution := rhs
  for row in [0:size] do
    let mut entry := solution.entry row
    for column in [0:row] do
      entry := entry - factor.lower.entry (row * size + column) * solution.entry column
    solution := solution.setIfInBounds row entry
  solution := Vec.zipWith (· / ·) solution factor.pivots
  for back in [0:size] do
    let row := size - 1 - back
    let mut entry := solution.entry row
    for column in [row + 1:size] do
      entry := entry - factor.lower.entry (column * size + row) * solution.entry column
    solution := solution.setIfInBounds row entry
  return solution

end Factorization

end HingeLoss.Solver
