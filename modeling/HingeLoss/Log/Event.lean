/-!
# Log events

What the program reports while it works. An event has a level, a place in the module tree from which
it comes, a message and named fields. Collecting and printing events is left to the surroundings.
-/

namespace HingeLoss

/-- How important an event is; the most important level comes first. -/
inductive LogLevel where
  | error
  | warn
  | info
  | debug
  | trace
deriving DecidableEq, Repr

namespace LogLevel

/-- The number of levels that are at least as important. -/
def rank : LogLevel → Nat
  | .error => 1
  | .warn => 2
  | .info => 3
  | .debug => 4
  | .trace => 5

end LogLevel

/-- The parts of the program that report events. -/
inductive LogOrigin where
  | main
  | reasoner
  | builder
  | problem
deriving DecidableEq, Repr

/-- The path by which filters refer to a part of the program. -/
def LogOrigin.path : LogOrigin → String
  | .main => "cvx_reasoner"
  | .reasoner => "cvx_reasoner::reasoner"
  | .builder => "cvx_reasoner::model::builder"
  | .problem => "cvx_reasoner::problem"

/-- Something that the program reports. -/
structure LogEvent where
  level : LogLevel
  origin : LogOrigin
  message : String
  fields : List (String × String)
deriving DecidableEq, Repr

namespace LogEvent

def label : String := "cvxpy_reasoner"

/-- The text of an event: the label, the message, and the fields behind it. -/
def line (event : LogEvent) : String :=
  event.fields.foldl (fun text (name, value) => text ++ " " ++ name ++ "=" ++ value)
    (label ++ " - " ++ event.message)

end LogEvent

class Logger (m : Type → Type) where
  emit : LogEvent → m PUnit

export Logger (emit)

instance {m n : Type → Type} [MonadLift m n] [Logger m] : Logger n where
  emit event := liftM (emit event : m PUnit)

end HingeLoss
