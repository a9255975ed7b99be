/-!
# Solver settings

Limits and tolerances of a solver run.
-/

namespace HingeLoss

/-- What a conic solver is told apart from the program. -/
structure Settings where
  verbose : Bool
  maxIterations : Nat
  timeLimit : Float
  absoluteGap : Float
  relativeGap : Float

namespace Settings

/-- Two hundred iterations, any time, and gaps of one part in a hundred million. -/
def standard : Settings where
  verbose := false
  maxIterations := 200
  timeLimit := 1 / 0
  absoluteGap := 1e-8
  relativeGap := 1e-8

/-- Equality of all settings, as numbers. -/
def beq (left right : Settings) : Bool :=
  left.verbose == right.verbose && left.maxIterations == right.maxIterations &&
    left.timeLimit == right.timeLimit && left.absoluteGap == right.absoluteGap &&
    left.relativeGap == right.relativeGap

instance : BEq Settings := ⟨beq⟩

end Settings

end HingeLoss
