import HingeLoss.CommandLine.Arguments
import HingeLoss.CommandLine.Configuration
import HingeLoss.Document.Solving
import HingeLoss.Document.Storage

/-!
# Running the program

From the arguments to the exit code: the paths are made absolute, the problem is loaded, solved and
its solution written. Progress goes to the console as a log, and a failure as a message followed by
its causes.
-/

namespace HingeLoss

open Text

/-- Both paths, made absolute. -/
structure ResolvedPaths where
  input : RawText
  output : RawText

section Steps

variable {m : Type → Type} [Monad m] [FileAccess m]

/-- A path relative to the working directory, made absolute. -/
def absolutePath (path : RawText) : ExceptT Failure m RawText := do
  let workingDirectory ← (FileAccess.workingDirectory : m RawText)
  liftM ((Files.absolute workingDirectory path).mapError (Failure.file path))

/-- Makes both paths absolute and checks that the input is a file. Nothing is created. -/
def resolvePaths (input output : RawText) : ExceptT Failure m ResolvedPaths := do
  let input ← absolutePath input
  let output ← absolutePath output
  let found ← (FileAccess.isFile input : m Bool)
  if found then return ⟨input, output⟩ else throw (.fileNotFound input)

variable [Logger m] [Clock m]

/-- Runs the modelling steps with a supply from which nothing has been drawn. -/
def Modelling.start {α : Type} (steps : Modelling m α) : ExceptT Failure m α :=
  ExceptT.mk (steps.run.run' .full)

/-- Solves the problem in a file and writes its solution to another one, which is left alone if
anything fails before. -/
def runFiles (solver : ConicSolver Float) (settings : Settings) (input output : RawText) :
    ExceptT Failure m (Summary Float) := do
  HingeProblem.report .info "Reading problem" []
  let start ← (Clock.milliseconds : m Nat)
  let problem ← HingeProblem.load input
  HingeProblem.reportComplete "Problem reading" start
  let (values, summary) ← (problem.solve solver settings : Modelling m _).start
  HingeProblem.report .info "Writing results" []
  let start ← (Clock.milliseconds : m Nat)
  values.write output
  HingeProblem.reportComplete "Result writing" start
  return summary

end Steps

/-- Why a run ends without a solution, by the part of it that failed. -/
inductive RunFault where
  | configuration (fault : ConfigurationFault)
  | paths (failure : Failure)
  | solving (input : RawText) (failure : Failure)

/-- The messages of a fault, each caused by the next. -/
def RunFault.chain : RunFault → List String
  | .configuration fault => ["invalid configuration", fault.message]
  | .paths failure => failure.chain
  | .solving input failure => ("failed to solve problem from " ++ input.display) :: failure.chain

/-- A message with its first line behind `first` and all other lines behind `others`. -/
def indented (first others message : String) : String :=
  first ++ ("\n" ++ others).intercalate ((message.toList.splitOn '\n').map String.ofList)

/-- The causes of a failure, one below the other, and numbered if there are several. -/
def causesText (causes : List String) : String :=
  match causes with
  | [cause] => "\n" ++ indented "    " "    " cause
  | _ =>
      String.join (causes.zipIdx.map fun (cause, index) =>
        let number := toString index
        let margin := "".pushn ' ' (5 - number.length)
        "\n" ++ indented (margin ++ number ++ ": ") "       " cause)

/-- The text by which a run ends in failure, with its causes below. -/
def errorText : List String → String
  | [] => "Error: \n"
  | [message] => "Error: " ++ message ++ "\n"
  | message :: causes =>
      "Error: " ++ message ++ "\n\nCaused by:" ++ causesText causes ++ "\n"

section Program

variable {m : Type → Type} [Monad m] [Console m] [Clock m] [FileAccess m]

/-- The log filter: the variable `RUST_LOG` if all of it can be read, and otherwise the configured
one, of which the directives that cannot be read are reported and left out. -/
def chooseFilter (environment : Environment) (configured : String) : m LogFilter := do
  match (environment "RUST_LOG").bind LogFilter.ofText? with
  | some filter => return filter
  | none =>
      for directive in LogFilter.unreadable configured do
        Console.printError ("ignoring `" ++ directive ++ "`: invalid filter directive\n")
      return LogFilter.ofText configured

def reportWritten (summary : Summary Float) (output : RawText) : Filtered m PUnit :=
  emit
    { level := .info
      origin := .main
      message := "Wrote solution for " ++ toString summary.variableCount ++ " variables to " ++
        output.display
      fields := ("status", summary.status.text) ::
        (summary.objective.map fun value =>
          ("objective", Decimal.NumeralStyle.field.render value)).toList }

/-- Runs the program on two paths. The configuration comes before the paths, so nothing is looked at
in the file system if it is not valid. -/
def runPaths (solver : ConicSolver Float) (environment : Environment) (input output : RawText) :
    ExceptT RunFault m PUnit := do
  let configuration ←
    liftM ((Configuration.ofEnvironment environment).mapError RunFault.configuration)
  let filter ← (chooseFilter environment configuration.logFilter : m LogFilter)
  let paths ← ExceptT.adapt RunFault.paths (resolvePaths input output : ExceptT Failure m _)
  let steps : ExceptT Failure (Filtered m) (Summary Float) :=
    runFiles solver configuration.settings paths.input paths.output
  let outcome ← (steps.run.run filter : m (Except Failure (Summary Float)))
  let summary ← liftM (outcome.mapError (RunFault.solving paths.input))
  (ReaderT.run (reportWritten summary paths.output) filter : m PUnit)

/-- Runs the program and returns its exit code. -/
def runProgram (solver : ConicSolver Float) (environment : Environment)
    (arguments : List RawText) : m UInt32 := do
  match Invocation.ofArguments arguments with
  | .usage program =>
      Console.print (usageText program)
      return 1
  | .run input output =>
      match ← (runPaths solver environment input output).run with
      | .ok _ => return 0
      | .error fault =>
          Console.printError (errorText fault.chain)
          return 1

end Program

end HingeLoss
