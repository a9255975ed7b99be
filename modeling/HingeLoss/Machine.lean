import HingeLoss.Files.Tree
import HingeLoss.Surroundings

/-!
# Machines

The surroundings of the program as a value. A program that runs on a machine is a function from the
machine before to the machine after.
-/

namespace HingeLoss

open Text

/-- The files, the console and the clock of a computer. -/
structure Machine where
  files : FileTree
  workingDirectory : Place
  output : String
  errors : String
  time : Nat

/-- Steps on a machine. -/
abbrev OnMachine := StateM Machine

namespace Machine

/-- A machine with the given files, on which nothing has been printed. -/
def start (files : FileTree) (workingDirectory : Place) : Machine :=
  ⟨files, workingDirectory, "", "", 0⟩

/-- The absolute path of a place. -/
def pathOf (place : Place) : RawText :=
  place.foldl Files.join ⟨[Files.slash]⟩

end Machine

instance : Clock OnMachine where
  milliseconds := return (← get).time

instance : Console OnMachine where
  print text := modify fun machine => { machine with output := machine.output ++ text }
  printError text := modify fun machine => { machine with errors := machine.errors ++ text }

instance : FileAccess OnMachine where
  workingDirectory := return Machine.pathOf (← get).workingDirectory
  isFile path := do
    let machine ← get
    return machine.files.isFile machine.workingDirectory path
  readFile path := do
    let machine ← get
    return machine.files.read machine.workingDirectory path
  createDirectories path := do
    let machine ← get
    let (files, outcome) := machine.files.createDirectories machine.workingDirectory path
    set { machine with files }
    return outcome
  writeFile path contents := do
    let machine ← get
    match machine.files.write machine.workingDirectory path contents with
    | .ok files =>
        set { machine with files }
        return .ok ()
    | .error fault => return .error fault

end HingeLoss
