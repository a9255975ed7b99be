import HingeLoss.Document.Printing
import HingeLoss.Document.Reading
import HingeLoss.Files.Path
import HingeLoss.Surroundings

/-!
# Documents in files

Problems are loaded from files, and solutions are written to files, for which missing directories
are created.
-/

namespace HingeLoss

open Text

variable {m : Type → Type} [Monad m] [FileAccess m]

/-- What it means for a problem that its file could not be read. -/
def ReadFault.failure (path : RawText) : ReadFault → Failure
  | .opening .notFound => .fileNotFound path
  | .opening fault => .file path fault
  | .reading fault => .json (.unreadable fault)

/-- Loads a valid problem from a file. -/
def HingeProblem.load (path : RawText) : ExceptT Failure m (HingeProblem Float) := do
  let contents ← (FileAccess.readFile path : m (Except ReadFault (List UInt8)))
  let bytes ← liftM (contents.mapError (ReadFault.failure path))
  liftM (fromSource (decodeUtf8 bytes))

/-- Creates the directory that is to hold a file, unless the path names no directory. -/
def createParent (path : RawText) : ExceptT Failure m PUnit := do
  match Files.parent? path with
  | none => return
  | some parent =>
      unless parent.bytes.isEmpty do
        let outcome ← (FileAccess.createDirectories parent : m (Except FileFault PUnit))
        liftM (outcome.mapError (Failure.file parent))

/-- Writes a solution to a file. Missing directories above it are created first. -/
def SolvedValues.write (values : SolvedValues Float) (path : RawText) :
    ExceptT Failure m PUnit := do
  createParent path
  let outcome ←
    (FileAccess.writeFile path (RawText.ofString values.toText).bytes :
      m (Except FileFault PUnit))
  liftM (outcome.mapError (Failure.file path))

end HingeLoss
