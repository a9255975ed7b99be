import HingeLoss.Program.Conic
import HingeLoss.Solver.Dense

/-!
# Cones and their scalings

The slack and the multiplier of a conic program live in a product of blocks: rows that are zero, an
orthant, and second-order cones. Between two interior points of a block there is one symmetric
scaling that maps both to the same point; interior-point steps are taken in these coordinates.
-/

namespace HingeLoss.Solver

/-- A block of rows of the program. -/
abbrev Block := ConeBlock

namespace Block

/-- The entries of a vector that belong to the block. -/
def part (block : Block) (vector : Vec) : Vec :=
  vector.extract block.start (block.start + block.size)

/-- The number of complementary pairs of the block. -/
def degree (block : Block) : Nat :=
  match block.kind with
  | .zero => 0
  | .nonneg => block.size
  | .secondOrder => 1

/-- The unit of the Jordan product of the block. -/
def unit (block : Block) : Vec :=
  match block.kind with
  | .zero => Vec.constant block.size 0
  | .nonneg => Vec.constant block.size 1
  | .secondOrder => (Vec.constant block.size 0).setIfInBounds 0 1

def tail (vector : Vec) : Vec := vector.extract 1 vector.size

/-- A vector from its first entry and the rest. -/
def join (head : Float) (tail : Vec) : Vec := #[head] ++ tail

/-- `head² - ‖tail‖²`, which is positive inside of a second-order cone. -/
def hyperbolic (vector : Vec) : Float :=
  let length := Float.sqrt (Vec.dot (tail vector) (tail vector))
  (vector.entry 0 - length) * (vector.entry 0 + length)

/-- How far a vector is inside of the block; negative outside. -/
def margin (block : Block) (vector : Vec) : Float :=
  match block.kind with
  | .zero => 1 / 0
  | .nonneg => vector.foldl (fun least entry => if entry < least then entry else least) (1 / 0)
  | .secondOrder => vector.entry 0 - Float.sqrt (Vec.dot (tail vector) (tail vector))

/-- The Jordan product of two vectors of the block. -/
def product (block : Block) (left right : Vec) : Vec :=
  match block.kind with
  | .zero => Vec.constant block.size 0
  | .nonneg => Vec.zipWith (· * ·) left right
  | .secondOrder =>
      join (Vec.dot left right)
        (((tail right).scale (left.entry 0)).addScaled (right.entry 0) (tail left))

/-- The vector whose Jordan product with `left` is `right`. -/
def quotient (block : Block) (left right : Vec) : Vec :=
  match block.kind with
  | .zero => Vec.constant block.size 0
  | .nonneg => Vec.zipWith (fun divisor dividend => dividend / divisor) left right
  | .secondOrder =>
      let head :=
        (left.entry 0 * right.entry 0 - Vec.dot (tail left) (tail right)) / hyperbolic left
      join head (((tail right).addScaled (-head) (tail left)).scale (1 / left.entry 0))

/-- How far one can go from an interior point in a direction without leaving the block, up to
`limit`. -/
def stepLength (block : Block) (limit : Float) (point direction : Vec) : Float :=
  match block.kind with
  | .zero => limit
  | .nonneg =>
      (point.zip direction).foldl
        (fun step (entry, change) =>
          if change < 0 ∧ -entry / change < step then -entry / change else step)
        limit
  | .secondOrder =>
      -- The boundary is met at the least positive root of a quadratic.
      let square := hyperbolic direction
      let middle := point.entry 0 * direction.entry 0 - Vec.dot (tail point) (tail direction)
      let start := hyperbolic point
      let discriminant := middle * middle - square * start
      let linearStep :=
        if direction.entry 0 < 0 then -point.entry 0 / direction.entry 0 else limit
      let rootStep :=
        if square >= 0 ∧ middle >= 0 then limit
        else if discriminant < 0 then limit
        else
          let root := Float.sqrt discriminant
          let divisor := -middle + root
          if divisor > 0 then start / divisor else limit
      let step := if linearStep < limit then linearStep else limit
      if rootStep < step then rootStep else step

end Block

/-- The scaling between the slack and the multiplier of a block. -/
inductive BlockScaling where
  | zero (size : Nat)
  | orthant (factors : Vec)
  /-- A size and a direction, which is a unit hyperbolic vector. -/
  | secondOrder (size : Float) (direction : Vec)

namespace BlockScaling

/-- The scaling that maps the multiplier, and backwards the slack, to one point. -/
def between (block : Block) (slack multiplier : Vec) : BlockScaling :=
  match block.kind with
  | .zero => .zero block.size
  | .nonneg => .orthant (Vec.zipWith (fun s z => Float.sqrt (s / z)) slack multiplier)
  | .secondOrder =>
      let slackSize := Float.sqrt (Block.hyperbolic slack)
      let multiplierSize := Float.sqrt (Block.hyperbolic multiplier)
      let s := slack.scale (1 / slackSize)
      let z := multiplier.scale (1 / multiplierSize)
      let divisor := 2 * Float.sqrt ((1 + Vec.dot s z) / 2)
      let direction := Block.join ((s.entry 0 + z.entry 0) / divisor)
        (((Block.tail s).sub (Block.tail z)).scale (1 / divisor))
      .secondOrder (Float.sqrt (slackSize / multiplierSize)) direction

/-- Applies the hyperbolic rotation along a direction; its opposite tail gives the inverse. -/
def rotate (head : Float) (tail : Vec) (vector : Vec) : Vec :=
  let inner := Vec.dot tail (Block.tail vector)
  Block.join (head * vector.entry 0 + inner)
    ((Block.tail vector).addScaled (vector.entry 0 + inner / (1 + head)) tail)

/-- Applies the scaling to a vector. -/
def apply (scaling : BlockScaling) (vector : Vec) : Vec :=
  match scaling with
  | .zero size => Vec.constant size 0
  | .orthant factors => Vec.zipWith (· * ·) factors vector
  | .secondOrder size direction =>
      (rotate (direction.entry 0) (Block.tail direction) vector).scale size

/-- Applies the inverse of the scaling to a vector. -/
def applyInverse (scaling : BlockScaling) (vector : Vec) : Vec :=
  match scaling with
  | .zero size => Vec.constant size 0
  | .orthant factors => Vec.zipWith (fun factor entry => entry / factor) factors vector
  | .secondOrder size direction =>
      (rotate (direction.entry 0) ((Block.tail direction).scale (-1)) vector).scale (1 / size)

/-- Applies the scaling twice, which maps the multiplier to the slack. -/
def applySquare (scaling : BlockScaling) (vector : Vec) : Vec :=
  scaling.apply (scaling.apply vector)

def applyInverseSquare (scaling : BlockScaling) (vector : Vec) : Vec :=
  scaling.applyInverse (scaling.applyInverse vector)

end BlockScaling

end HingeLoss.Solver
