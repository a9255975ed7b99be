import HingeLoss.Solver.Answer
import HingeLoss.Solver.Scaling

/-!
# An interior-point solver

A primal-dual method for conic programs with quadratic costs. The optimality conditions are embedded
into a homogeneous system with two extra numbers, a scale and a gap: a limit with positive scale
gives an optimal point, and a limit with positive gap proves that the program is infeasible or
unbounded. Each step solves one linearized system twice, once to see how far the complementarity
can be reduced and once to go there along the central path.

The solver keeps nominal time, one microsecond for each iteration, so that its answer depends on
its arguments alone.
-/

namespace HingeLoss.Solver

/-- A conic program in the form in which the method works on it. -/
structure ProgramData where
  columnCount : Nat
  rowCount : Nat
  /-- The rows of the symmetric cost matrix. -/
  quadratic : Array SparseRow
  linear : Vec
  matrix : Array SparseRow
  rhs : Vec
  blocks : List Block

namespace ProgramData

/-- The rows of a matrix with the given entries. -/
def sparseRows (count : Nat) (entries : List (MatrixEntry Float)) : Array SparseRow :=
  entries.foldl
    (fun rows entry => rows.modify entry.row (·.push (entry.column, entry.value)))
    (Array.replicate count #[])

/-- The entries of a symmetric matrix from those of its upper triangle. -/
def symmetrized (entries : List (MatrixEntry Float)) : List (MatrixEntry Float) :=
  entries.flatMap fun entry =>
    if entry.row = entry.column then [entry]
    else [entry, ⟨entry.column, entry.row, entry.value⟩]

/-- Bounds from here on are no bounds. -/
def unbounded : Float := 1e20

/-- The data of a program. A row of the orthant without an effective bound is emptied. -/
def ofProgram (program : ConicProgram Float) : ProgramData :=
  let rowCount := program.rhs.length
  let columnCount := program.linear.length
  let rows := sparseRows rowCount program.matrix.entries
  let orthantEnd := program.layout.zero + program.layout.nonneg
  let rhs := program.rhs.toArray
  let idle (index : Nat) : Bool :=
    program.layout.zero ≤ index && index < orthantEnd && unbounded ≤ rhs.getD index 0
  { columnCount, rowCount
    quadratic := sparseRows columnCount (symmetrized program.quadratic.entries)
    linear := program.linear.toArray
    matrix := rows.zipIdx.map fun (row, index) => if idle index then #[] else row
    rhs := rhs.zipIdx.map fun (bound, index) => if idle index then 1 else bound
    blocks := program.layout.blocks }

def applyQuadratic (data : ProgramData) (vector : Vec) : Vec := rowsApply data.quadratic vector

def applyMatrix (data : ProgramData) (vector : Vec) : Vec := rowsApply data.matrix vector

def applyTransposed (data : ProgramData) (vector : Vec) : Vec :=
  rowsApplyTransposed data.matrix data.columnCount vector

/-- Joins what is computed block by block. -/
def blockwise (data : ProgramData) (part : Block → Vec) : Vec :=
  data.blocks.foldl (fun joined block => joined ++ part block) #[]

/-- The units of all blocks, joined. -/
def unit (data : ProgramData) : Vec := data.blockwise Block.unit

/-- The number of complementary pairs. -/
def degree (data : ProgramData) : Nat :=
  data.blocks.foldl (fun total block => total + block.degree) 0

end ProgramData

/-! ### Equilibration -/

/-- Factors for the columns, the rows and the costs of a program. -/
structure Equilibration where
  columns : Vec
  rows : Vec
  cost : Float

namespace Equilibration

/-- The factor that brings a norm nearer to one. -/
def correction (norm : Float) : Float :=
  if norm < 1e-8 then 1
  else
    let factor := 1 / Float.sqrt norm
    if factor < 1e-4 then 1e-4 else if 1e4 < factor then 1e4 else factor

/-- Multiplies every entry by the factors of its row and its column. -/
def scaleRows (rows : Array SparseRow) (rowFactors columnFactors : Vec) : Array SparseRow :=
  (rows.zip rowFactors).map fun (row, rowFactor) =>
    row.map fun (column, value) => (column, rowFactor * value * columnFactors.entry column)

/-- The largest absolute value in each row. -/
def rowNorms (rows : Array SparseRow) : Vec :=
  rows.map fun row => Vec.norm (row.map Prod.snd)

/-- The largest absolute value in each column, starting from given norms. -/
def columnNorms (rows : Array SparseRow) (start : Vec) : Vec :=
  rows.foldl
    (fun norms row =>
      row.foldl
        (fun norms (column, value) =>
          norms.modify column fun norm => if norm < value.abs then value.abs else norm)
        norms)
    start

/-- Gives all rows of a second-order cone one factor, the geometric mean of theirs. -/
def uniform (blocks : List Block) (factors : Vec) : Vec :=
  blocks.foldl
    (fun joined block =>
      let part := block.part factors
      match block.kind with
      | .secondOrder =>
          let mean := Float.exp ((part.map Float.log).foldl (· + ·) 0 / part.size.toFloat)
          joined ++ Vec.constant part.size mean
      | _ => joined ++ part)
    #[]

/-- One pass of equilibration: the data after it, and the factors with those of the pass. -/
def pass (data : ProgramData) (equilibration : Equilibration) : ProgramData × Equilibration :=
  let columnFactors :=
    (columnNorms data.matrix (rowNorms data.quadratic)).map correction
  let rowFactors := uniform data.blocks ((rowNorms data.matrix).map correction)
  ({ data with
      quadratic := scaleRows data.quadratic columnFactors columnFactors
      linear := Vec.zipWith (· * ·) columnFactors data.linear
      matrix := scaleRows data.matrix rowFactors columnFactors
      rhs := Vec.zipWith (· * ·) rowFactors data.rhs },
    { equilibration with
      columns := Vec.zipWith (· * ·) equilibration.columns columnFactors
      rows := Vec.zipWith (· * ·) equilibration.rows rowFactors })

/-- Scales the costs to the size of one. -/
def scaleCost (data : ProgramData) (equilibration : Equilibration) :
    ProgramData × Equilibration :=
  let norm := Vec.norm (#[Vec.norm data.linear, Vec.norm (rowNorms data.quadratic)])
  let factor := if norm < 1e-8 then 1 else 1 / norm
  ({ data with
      quadratic := data.quadratic.map (·.map fun (column, value) => (column, factor * value))
      linear := data.linear.scale factor },
    { equilibration with cost := factor })

/-- Ten passes of equilibration, and then the costs. -/
def ofData (data : ProgramData) : ProgramData × Equilibration :=
  let start : Equilibration :=
    ⟨Vec.constant data.columnCount 1, Vec.constant data.rowCount 1, 1⟩
  let (data, equilibration) :=
    (List.range 10).foldl (fun (data, equilibration) _ => pass data equilibration) (data, start)
  scaleCost data equilibration

end Equilibration

/-! ### The linearized system -/

/-- The blocks of a program with their scalings. -/
abbrev Scalings := List (Block × BlockScaling)

namespace Scalings

/-- Applies an operation of the scalings block by block. -/
def map (scalings : Scalings) (operation : BlockScaling → Vec → Vec) (vector : Vec) : Vec :=
  scalings.foldl
    (fun joined (block, scaling) => joined ++ operation scaling (block.part vector))
    #[]

end Scalings

/-- The linear system of a step, reduced to the columns and the rows held at zero and factorized.
-/
structure StepSystem where
  data : ProgramData
  scalings : Scalings
  factor : Factorization
  equalities : Nat

namespace StepSystem

/-- How far the diagonal of the reduced system is moved away from zero. -/
def regularization : Float := 1e-9

/-- The reduced matrix: the costs, the weighted products of the rows inside of cones, and the rows
held at zero as a border. -/
def reducedMatrix (data : ProgramData) (scalings : Scalings) (equalities : Nat) : Square :=
  let columnCount := data.columnCount
  let size := columnCount + equalities
  let costs := data.quadratic.zipIdx.foldl
    (fun (matrix : Square) (row, index) =>
      row.foldl (fun (matrix : Square) (column, value) => matrix.addAt index column value) matrix)
    (Square.zero size)
  let weighted := scalings.foldl
    (fun (matrix : Square) (block, scaling) =>
      match scaling with
      | .zero _ => matrix
      | .orthant factors =>
          (data.matrix.extract block.start (block.start + block.size)).zip factors |>.foldl
            (fun (matrix : Square) (row, factor) => matrix.addOuter (1 / (factor * factor)) row)
            matrix
      | .secondOrder size direction =>
          let rows := data.matrix.extract block.start (block.start + block.size)
          let weight := 1 / (size * size)
          let reflected := Block.join (direction.entry 0) ((Block.tail direction).scale (-1))
          let along := rowsApplyTransposed rows columnCount reflected
          let plane := rows.zipIdx.foldl
            (fun (matrix : Square) (row, index) =>
              matrix.addOuter (if index = 0 then -weight else weight) row)
            matrix
          plane.addOuterDense (2 * weight) along)
    costs
  let bordered := (data.matrix.extract 0 equalities).zipIdx.foldl
    (fun (matrix : Square) (row, index) =>
      row.foldl
        (fun (matrix : Square) (column, value) =>
          (matrix.addAt (columnCount + index) column value).addAt
            column (columnCount + index) value)
        matrix)
    weighted
  (List.range size).foldl
    (fun (matrix : Square) index =>
      matrix.addAt index index
        (if index < columnCount then regularization else -regularization))
    bordered

/-- The factorized system of given scalings. -/
def ofScalings (data : ProgramData) (scalings : Scalings) : StepSystem :=
  let equalities := data.blocks.foldl (fun total block =>
    if block.kind = .zero then total + block.size else total) 0
  { data, scalings, equalities
    factor := .ofSquare (reducedMatrix data scalings equalities) data.columnCount }

/-- Solves `P x + Aᵀ z = columnRhs` and `A x - W² z = rowRhs` through the reduced system, which is
slightly moved. -/
def solveOnce (system : StepSystem) (columnRhs rowRhs : Vec) : Vec × Vec :=
  let data := system.data
  let inner := system.scalings.map BlockScaling.applyInverseSquare rowRhs
  let reduced := columnRhs.add (data.applyTransposed inner)
  let solved := system.factor.solve (reduced ++ rowRhs.extract 0 system.equalities)
  let x := solved.extract 0 data.columnCount
  let multipliers := solved.extract data.columnCount solved.size
  let z := system.scalings.map BlockScaling.applyInverseSquare
    ((data.applyMatrix x).sub rowRhs)
  (x, multipliers ++ z.extract system.equalities z.size)

/-- What a solution leaves of the right-hand sides. -/
def residual (system : StepSystem) (columnRhs rowRhs x z : Vec) : Vec × Vec :=
  let data := system.data
  let columns := columnRhs.sub ((data.applyQuadratic x).add (data.applyTransposed z))
  let rows := rowRhs.sub
    ((data.applyMatrix x).sub (system.scalings.map BlockScaling.applySquare z))
  (columns, rows)

/-- Improves a solution by solving for what it leaves, as long as that becomes smaller. -/
def refine (system : StepSystem) (columnRhs rowRhs : Vec) : Nat → Vec × Vec → Vec × Vec
  | 0, solution => solution
  | rounds + 1, (x, z) =>
      let (columns, rows) := system.residual columnRhs rowRhs x z
      let size := Vec.norm #[columns.norm, rows.norm]
      if size < 1e-14 then (x, z)
      else
        let (dx, dz) := system.solveOnce columns rows
        let next := (x.add dx, z.add dz)
        let (nextColumns, nextRows) := system.residual columnRhs rowRhs next.1 next.2
        if Vec.norm #[nextColumns.norm, nextRows.norm] < size then
          system.refine columnRhs rowRhs rounds next
        else (x, z)

/-- Solves the system, and improves the solution in at most eight rounds. -/
def solve (system : StepSystem) (columnRhs rowRhs : Vec) : Vec × Vec :=
  system.refine columnRhs rowRhs 8 (system.solveOnce columnRhs rowRhs)

end StepSystem

/-! ### Iterates -/

/-- A point of the homogeneous embedding. -/
structure Iterate where
  x : Vec
  slack : Vec
  multiplier : Vec
  scale : Float
  gap : Float

namespace Iterate

/-- Moves a vector into the interior of all blocks along their units. -/
def intoInterior (data : ProgramData) (vector : Vec) : Vec :=
  let margin := data.blocks.foldl
    (fun least block =>
      if block.size = 0 then least
      else
        let margin := block.margin (block.part vector)
        if margin < least then margin else least)
    (1 / 0)
  if margin < 1 then vector.addScaled (1 - margin) data.unit else vector

/-- The first iterate: the solution of the problem without cones, moved into the interior. -/
def start (data : ProgramData) : Iterate :=
  let scalings : Scalings := data.blocks.map fun block =>
    (block,
      match block.kind with
      | .zero => .zero block.size
      | .nonneg => .orthant (Block.unit block)
      | .secondOrder => .secondOrder 1 (Block.unit block))
  let system := StepSystem.ofScalings data scalings
  let (x, z) := system.solve (data.linear.scale (-1)) data.rhs
  let inside (block : Block) (vector : Vec) : Vec :=
    if block.kind = .zero then Vec.constant block.size 0 else block.part vector
  { x
    slack := intoInterior data (data.blockwise fun block => inside block (z.scale (-1)))
    multiplier := intoInterior data z
    scale := 1
    gap := 1 }

/-- How complementary slack and multiplier are, for each pair. -/
def complementarity (data : ProgramData) (iterate : Iterate) : Float :=
  (Vec.dot iterate.slack iterate.multiplier + iterate.scale * iterate.gap) /
    (data.degree.toFloat + 1)

end Iterate

/-- What an iterate leaves of the embedded conditions. -/
structure Residuals where
  columns : Vec
  rows : Vec
  gap : Float
  quadraticX : Vec

/-- What an iterate leaves of the conditions, row by row and column by column. -/
def Residuals.of (data : ProgramData) (iterate : Iterate) : Residuals :=
  let quadraticX := data.applyQuadratic iterate.x
  { quadraticX
    columns := (quadraticX.add (data.applyTransposed iterate.multiplier)).addScaled
      iterate.scale data.linear
    rows := ((data.applyMatrix iterate.x).add iterate.slack).addScaled (-iterate.scale) data.rhs
    gap := Vec.dot data.linear iterate.x + Vec.dot data.rhs iterate.multiplier + iterate.gap +
      Vec.dot iterate.x quadraticX / iterate.scale }

def atLeastOne (value : Float) : Float := if 1 < value then value else 1

namespace Residuals

/-- The largest relative error of an iterate as a solution: of its feasibility, of the feasibility
of its multipliers, and of its gap. -/
def error (residuals : Residuals) (data : ProgramData) (iterate : Iterate) : Float :=
  let scale := iterate.scale
  let primal := residuals.rows.norm / scale /
    atLeastOne (data.rhs.norm + (iterate.x.norm + iterate.slack.norm) / scale)
  let dual := residuals.columns.norm / scale /
    atLeastOne (data.linear.norm + (iterate.x.norm + iterate.multiplier.norm) / scale)
  let half := Vec.dot iterate.x residuals.quadraticX / scale / scale / 2
  let primalCost := half + Vec.dot data.linear iterate.x / scale
  let dualCost := -half - Vec.dot data.rhs iterate.multiplier / scale
  let difference := (primalCost - dualCost).abs
  let gap := difference / atLeastOne primalCost.abs
  Vec.norm #[primal, dual, gap]

/-- How far the multipliers of an iterate are from a proof that no point is feasible; infinite while
they do not point that way. -/
def infeasibilityError (data : ProgramData) (iterate : Iterate) : Float :=
  let bound := -(Vec.dot data.rhs iterate.multiplier)
  if bound > 0 && iterate.scale < iterate.gap then
    (data.applyTransposed iterate.multiplier).norm / bound
  else 1 / 0

/-- How far an iterate is from a direction along which feasible points improve for ever; infinite
while it does not point that way. -/
def unboundednessError (residuals : Residuals) (data : ProgramData) (iterate : Iterate) : Float :=
  let gain := -(Vec.dot data.linear iterate.x)
  if gain > 0 && iterate.scale < iterate.gap then
    Vec.norm #[residuals.quadraticX.norm,
      ((data.applyMatrix iterate.x).add iterate.slack).norm] / gain
  else 1 / 0

end Residuals

/-- A change of an iterate. -/
structure Direction where
  x : Vec
  slack : Vec
  multiplier : Vec
  scale : Float
  gap : Float

/-- What both directions of a step share. -/
structure StepContext where
  data : ProgramData
  iterate : Iterate
  residuals : Residuals
  scalings : Scalings
  system : StepSystem
  /-- The common image of slack and multiplier under the scalings. -/
  scaledPoint : Vec
  /-- The solution of the system for the costs and the right-hand side. -/
  homogeneous : Vec × Vec

namespace StepContext

/-- The scalings of an iterate and the solution that both of its directions use. -/
def of (data : ProgramData) (iterate : Iterate) (residuals : Residuals) : StepContext :=
  let scalings : Scalings := data.blocks.map fun block =>
    (block, .between block (block.part iterate.slack) (block.part iterate.multiplier))
  let system := StepSystem.ofScalings data scalings
  { data, iterate, residuals, scalings, system
    scaledPoint := scalings.map BlockScaling.apply iterate.multiplier
    homogeneous := system.solve (data.linear.scale (-1)) data.rhs }

/-- The direction that leaves the share `keep` of the residuals and changes the complementarity
products by `products` and `scaleProduct`. -/
def direction (context : StepContext) (keep : Float) (products : Vec) (scaleProduct : Float) :
    Direction :=
  let data := context.data
  let iterate := context.iterate
  let residuals := context.residuals
  let factor := keep - 1
  let shift : Vec := context.scalings.foldl
    (fun joined (block, scaling) =>
      joined ++ scaling.apply
        (block.quotient (block.part context.scaledPoint) (block.part products)))
    #[]
  let (x1, z1) := context.system.solve (residuals.columns.scale factor)
    ((residuals.rows.scale factor).sub shift)
  let (x2, z2) := context.homogeneous
  let normalized := iterate.x.scale (1 / iterate.scale)
  let slope := data.linear.addScaled (2 / iterate.scale) residuals.quadraticX
  let difference := x2.sub normalized
  let numerator := -factor * residuals.gap + scaleProduct / iterate.scale + Vec.dot slope x1 +
    Vec.dot data.rhs z1
  let denominator := iterate.gap / iterate.scale - Vec.dot data.linear x2 -
    Vec.dot data.rhs z2 + Vec.dot difference (data.applyQuadratic difference) -
    Vec.dot x2 (data.applyQuadratic x2)
  let scale := numerator / denominator
  let multiplier := z1.addScaled scale z2
  { x := x1.addScaled scale x2
    multiplier
    slack := shift.sub (context.scalings.map BlockScaling.applySquare multiplier)
    scale
    gap := (scaleProduct - iterate.gap * scale) / iterate.scale }

/-- How far one can go in a direction, up to a full step. -/
def stepLength (context : StepContext) (direction : Direction) : Float :=
  let iterate := context.iterate
  let ratio (value change step : Float) : Float :=
    if change < 0 ∧ -value / change < step then -value / change else step
  let step := ratio iterate.gap direction.gap (ratio iterate.scale direction.scale 1)
  context.data.blocks.foldl
    (fun step block =>
      if block.size = 0 then step
      else
        let slackStep := block.stepLength step (block.part iterate.slack)
          (block.part direction.slack)
        block.stepLength slackStep (block.part iterate.multiplier)
          (block.part direction.multiplier))
    step

/-- The next iterate, and the length of the step to it. -/
def next (context : StepContext) : Iterate × Float :=
  let data := context.data
  let iterate := context.iterate
  let squares := data.blockwise fun block =>
    let part := block.part context.scaledPoint
    block.product part part
  let affine := context.direction 0 (squares.scale (-1)) (-(iterate.scale * iterate.gap))
  let reach := context.stepLength affine
  let centering := (1 - reach) * (1 - reach) * (1 - reach)
  let target := centering * iterate.complementarity data
  let scaledSlack := context.scalings.map BlockScaling.applyInverse affine.slack
  let scaledMultiplier := context.scalings.map BlockScaling.apply affine.multiplier
  let corrections := data.blockwise fun block =>
    block.product (block.part scaledSlack) (block.part scaledMultiplier)
  let products := (data.unit.scale target).sub (squares.add corrections)
  let combined := context.direction centering products
    (target - iterate.scale * iterate.gap - affine.scale * affine.gap)
  let step := 0.99 * context.stepLength combined
  ({ x := iterate.x.addScaled step combined.x
     slack := iterate.slack.addScaled step combined.slack
     multiplier := iterate.multiplier.addScaled step combined.multiplier
     scale := iterate.scale + step * combined.scale
     gap := iterate.gap + step * combined.gap },
    step)

end StepContext

namespace Iterate

def isFinite (iterate : Iterate) : Bool :=
  iterate.x.isFinite && iterate.slack.isFinite && iterate.multiplier.isFinite &&
    iterate.scale.isFinite && iterate.gap.isFinite

/-- The iterate of the embedding brought to a moderate size, which changes nothing about what it
means. -/
def rescaled (iterate : Iterate) : Iterate :=
  let size := if iterate.scale < iterate.gap then iterate.gap else iterate.scale
  let factor := 1 / size
  { x := iterate.x.scale factor
    slack := iterate.slack.scale factor
    multiplier := iterate.multiplier.scale factor
    scale := iterate.scale * factor
    gap := iterate.gap * factor }

end Iterate

/-! ### The run -/

/-- The smaller of two numbers; the first one if they cannot be compared. -/
def smaller (left right : Float) : Float := if right < left then right else left

/-- The errors of an iterate: as a solution, and as a proof that there is none. -/
structure Errors where
  solution : Float
  infeasibility : Float
  unboundedness : Float

namespace Errors

def of (residuals : Residuals) (data : ProgramData) (iterate : Iterate) : Errors where
  solution := residuals.error data iterate
  infeasibility := Residuals.infeasibilityError data iterate
  unboundedness := residuals.unboundednessError data iterate

/-- The errors of what is no solution and proves nothing. -/
def infinite : Errors := ⟨1 / 0, 1 / 0, 1 / 0⟩

/-- What an iterate with these errors shows at given tolerances for solutions and for proofs. -/
def outcome? (errors : Errors) (solved proved : Float) : Option Termination :=
  if errors.solution ≤ solved then some .solved
  else if errors.infeasibility ≤ proved then some .primalInfeasible
  else if errors.unboundedness ≤ proved then some .dualInfeasible
  else none

/-- The smaller one of each kind of error. -/
def best (left right : Errors) : Errors where
  solution := smaller left.solution right.solution
  infeasibility := smaller left.infeasibility right.infeasibility
  unboundedness := smaller left.unboundedness right.unboundedness

end Errors

/-- Where a run stands. -/
structure Progress where
  iterate : Iterate
  /-- The iterate that was nearest to a solution. -/
  best : Iterate
  /-- The smallest errors of all iterates before this one. -/
  bestErrors : Errors

/-- The seconds that an iteration counts for. -/
def nominalIteration : Float := 1e-6

/-- The error at which a proof that there is no solution is accepted. -/
def proofTolerance : Float := 1e-9

/-- The error at which a solution is accepted when no further progress is made. -/
def acceptableSolution : Float := 1e-6

/-- The error at which a proof is accepted when no further progress is made. -/
def acceptableProof : Float := 1e-5

/-- The end of a run that makes no further progress. -/
def Progress.stalled (progress : Progress) (made : Nat) : Termination × Iterate × Nat :=
  match progress.bestErrors.outcome? acceptableSolution acceptableProof with
  | some termination => (termination, progress.best, made)
  | none => (.numericalError, progress.iterate, made)

/-- Iterates until the error is below `tolerance`, a limit is met or progress ends. The first
number bounds the remaining iterations, the second counts those that were made. -/
def run (data : ProgramData) (settings : Settings) (tolerance : Float) :
    Nat → Nat → Progress → Termination × Iterate × Nat
  | 0, made, progress => (.maxIterations, progress.iterate, made)
  | remaining + 1, made, progress =>
      let iterate := progress.iterate
      if settings.timeLimit < nominalIteration * (made + 1).toFloat then
        (.maxTime, iterate, made)
      else
        let residuals := Residuals.of data iterate
        let errors := Errors.of residuals data iterate
        if !iterate.isFinite || errors.solution.isNaN || !residuals.gap.isFinite then
          progress.stalled made
        else
          match errors.outcome? tolerance proofTolerance with
          | some termination => (termination, iterate, made)
          | none =>
              let (next, step) := (StepContext.of data iterate residuals).next
              let following : Progress :=
                { iterate := next.rescaled
                  best :=
                    if errors.solution < progress.bestErrors.solution then iterate
                    else progress.best
                  bestErrors := progress.bestErrors.best errors }
              if step < 1e-8 || !(step ≤ 1) then following.stalled made
              else run data settings tolerance remaining (made + 1) following

/-- Solves a program, unless the sizes of its parts do not fit together. -/
def solve : ConicSolver Float := fun program settings =>
  match program.mismatch? with
  | some mismatch => .error mismatch
  | none =>
      let (data, equilibration) := Equilibration.ofData (ProgramData.ofProgram program)
      let start := Iterate.start data
      let tolerance := smaller 1e-10 (smaller settings.absoluteGap settings.relativeGap)
      let (termination, iterate, made) :=
        run data settings tolerance settings.maxIterations 0 ⟨start, start, .infinite⟩
      let point := Vec.zipWith (· * ·) equilibration.columns
        (iterate.x.scale (1 / iterate.scale))
      .ok
        { termination
          point := point.toList
          iterations := made
          seconds := nominalIteration * (made + 1).toFloat }

end HingeLoss.Solver
