import HingeLoss.CommandLine.Run
import HingeLoss.Solver.InteriorPoint

/-!
# The program

The surroundings that the operating system provides, and the entry point.
-/

open HingeLoss Text

namespace HingeLoss

/-- The fault that an error code of the operating system stands for. -/
def FileFault.ofCode (code : UInt32) (details : String) : FileFault :=
  match code with
  | 2 => .notFound
  | 17 => .alreadyExists
  | 20 => .notDirectory
  | 21 => .isDirectory
  | 36 => .nameTooLong
  | _ => .described (details ++ " (os error " ++ toString code ++ ")")

/-- The fault that an error of the standard library stands for. -/
def FileFault.ofError : IO.Error → FileFault
  | .alreadyExists _ code details | .invalidArgument _ code details
  | .permissionDenied _ code details | .resourceExhausted _ code details
  | .inappropriateType _ code details | .noSuchThing _ code details => .ofCode code details
  | .noFileOrDirectory _ code details | .interrupted _ code details => .ofCode code details
  | .otherError code details | .resourceBusy code details | .resourceVanished code details
  | .unsupportedOperation code details | .hardwareFault code details
  | .unsatisfiedConstraints code details | .illegalOperation code details
  | .protocolError code details | .timeExpired code details => .ofCode code details
  | .unexpectedEof => .described "unexpected end of file"
  | .userError text => .described text

/-- An operation on a file with its error, if there is one. -/
def attempt {α : Type} (operation : IO α) : IO (Except FileFault α) := do
  match ← operation.toBaseIO with
  | .ok value => return .ok value
  | .error error => return .error (.ofError error)

/-- Reads a file. Opening it and reading from it fail differently. -/
def readWholeFile (path : String) : IO (Except ReadFault (List UInt8)) := do
  match ← attempt (IO.FS.Handle.mk path .read) with
  | .error fault => return .error (.opening fault)
  | .ok handle =>
      match ← attempt handle.readBinToEnd with
      | .error fault => return .error (.reading fault)
      | .ok contents => return .ok contents.toList

instance : Clock IO where
  milliseconds := IO.monoMsNow

instance : Console IO where
  print text := do
    let output ← IO.getStdout
    output.putStr text
    output.flush
  printError text := do
    let output ← IO.getStderr
    output.putStr text

instance : FileAccess IO where
  workingDirectory := do
    let path ← IO.currentDir
    return .ofString path.toString
  -- A directory can be opened, but it cannot be read.
  isFile path := do
    match ← readWholeFile path.display with
    | .ok _ => return true
    | .error _ => return false
  readFile path := readWholeFile path.display
  createDirectories path := attempt (IO.FS.createDirAll path.display)
  writeFile path contents := attempt (IO.FS.writeBinFile path.display ⟨contents.toArray⟩)

/-- The environment variables that the program looks at. -/
def readEnvironment : IO Environment := do
  let keys := "RUST_LOG" :: [Setting.logFilter, .verbose, .maxIterations, .timeLimit,
    .absoluteGap, .relativeGap].map Setting.key
  let values ← keys.mapM fun key => do
    return (key, ← IO.getEnv key)
  return fun key => (values.lookup key).join

end HingeLoss

def main (arguments : List String) : IO UInt32 := do
  let environment ← readEnvironment
  runProgram Solver.solve environment
    (.ofString defaultProgram :: arguments.map .ofString)
