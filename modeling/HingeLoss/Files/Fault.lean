/-!
# File faults

The ways in which the operations on files fail, with the texts of the operating system.
-/

namespace HingeLoss

/-- How an operation on files fails. -/
inductive FileFault where
  | notFound
  | alreadyExists
  | notDirectory
  | isDirectory
  | nameTooLong
  /-- A path with a zero byte cannot be handed to the operating system. -/
  | zeroByte
  /-- An empty path names no file, not even relative to a directory. -/
  | emptyPath
  | described (text : String)
deriving DecidableEq, Repr

def FileFault.message : FileFault → String
  | .notFound => "No such file or directory (os error 2)"
  | .alreadyExists => "File exists (os error 17)"
  | .notDirectory => "Not a directory (os error 20)"
  | .isDirectory => "Is a directory (os error 21)"
  | .nameTooLong => "File name too long (os error 36)"
  | .zeroByte => "file name contained an unexpected NUL byte"
  | .emptyPath => "cannot make an empty path absolute"
  | .described text => text

/-- How the reading of a file fails. -/
inductive ReadFault where
  /-- The path leads to nothing that can be opened. -/
  | opening (fault : FileFault)
  /-- What was opened has no contents to read. -/
  | reading (fault : FileFault)
deriving DecidableEq, Repr

end HingeLoss
