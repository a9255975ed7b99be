import HingeLoss.Files.Fault
import HingeLoss.Log.Filter
import HingeLoss.Text.RawText

/-!
# Surroundings

What the program asks of the outside: a clock, a console, a file system and a place for its log.
Each is an interface of its own, so that a definition says in its type what it may touch.
-/

namespace HingeLoss

open Text

class Clock (m : Type → Type) where
  /-- The time in milliseconds since some moment in the past. -/
  milliseconds : m Nat

class Console (m : Type → Type) where
  print : String → m PUnit
  printError : String → m PUnit

class FileAccess (m : Type → Type) where
  /-- The absolute path of the directory to which other paths are relative. -/
  workingDirectory : m RawText
  isFile : RawText → m Bool
  readFile : RawText → m (Except ReadFault (List UInt8))
  /-- Creates a directory and all missing directories above it. -/
  createDirectories : RawText → m (Except FileFault PUnit)
  /-- Writes a file, in the place of any file that is there. -/
  writeFile : RawText → List UInt8 → m (Except FileFault PUnit)

section Lifting

variable {m n : Type → Type} [MonadLift m n]

instance [Clock m] : Clock n where
  milliseconds := liftM (Clock.milliseconds : m Nat)

instance [Console m] : Console n where
  print text := liftM (Console.print text : m PUnit)
  printError text := liftM (Console.printError text : m PUnit)

instance [FileAccess m] : FileAccess n where
  workingDirectory := liftM (FileAccess.workingDirectory : m RawText)
  isFile path := liftM (FileAccess.isFile path : m Bool)
  readFile path := liftM (FileAccess.readFile path : m (Except ReadFault (List UInt8)))
  createDirectories path := liftM (FileAccess.createDirectories path : m (Except FileFault PUnit))
  writeFile path contents :=
    liftM (FileAccess.writeFile path contents : m (Except FileFault PUnit))

end Lifting

/-- Steps that log to the console whatever passes a filter. -/
abbrev Filtered (m : Type → Type) := ReaderT LogFilter m

instance {m : Type → Type} [Monad m] [Console m] : Logger (Filtered m) where
  emit event := do
    if (← read).admits event then
      Console.print (event.line ++ "\n")

end HingeLoss
