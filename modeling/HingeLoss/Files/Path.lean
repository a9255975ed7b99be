import HingeLoss.Files.Fault
import HingeLoss.Text.RawText

/-!
# Paths

Paths are byte strings in which slashes separate names. What is done with them here looks at the
text alone: a name `..` is kept, since only the file system knows where it leads.
-/

namespace HingeLoss.Files

open Text

/-- What stands between two slashes of a path. -/
abbrev Name := List UInt8

def slash : UInt8 := 0x2F

/-- The name by which a directory refers to itself. -/
def here : Name := [0x2E]

/-- The name by which a directory refers to the one above. -/
def above : Name := [0x2E, 0x2E]

/-- Whether a path begins at the root. -/
def isAbsolute (path : RawText) : Bool := path.bytes.head? == some slash

/-- Whether a path ends in a slash, and so can only mean a directory. -/
def endsInSlash (path : RawText) : Bool := path.bytes.getLast? == some slash

/-- The names of a path. Repeated slashes count as one. -/
def names (path : RawText) : List Name :=
  (path.bytes.splitOn slash).filter fun name => !name.isEmpty

/-- Appends a name, which may be empty, with one slash in front of it. -/
def join (base : RawText) (name : Name) : RawText :=
  if endsInSlash base then ⟨base.bytes ++ name⟩ else ⟨base.bytes ++ slash :: name⟩

/-- Where an absolute path begins. Exactly two slashes are kept, since they may have a meaning of
their own. -/
def rootOf (path : RawText) : RawText :=
  match path.bytes with
  | first :: second :: third :: _ =>
      if first = slash ∧ second = slash ∧ third ≠ slash then ⟨[slash, slash]⟩ else ⟨[slash]⟩
  | [first, second] => if first = slash ∧ second = slash then ⟨[slash, slash]⟩ else ⟨[slash]⟩
  | _ => ⟨[slash]⟩

/-- The path made absolute, without names that refer to the directory itself and without repeated
slashes; a slash at the end is kept. -/
def absolute (workingDirectory path : RawText) : Except FileFault RawText :=
  if path.bytes.isEmpty then .error .emptyPath
  else
    let base := if isAbsolute path then rootOf path else workingDirectory
    let joined := ((names path).filter (· ≠ here)).foldl join base
    .ok (if endsInSlash path && !endsInSlash joined then join joined [] else joined)

/-- Whether what stands between two slashes leads nowhere: nothing, or the name by which a
directory refers to itself. -/
def leadsNowhere (name : Name) : Bool := name.isEmpty || name == here

/-- Splits off what a path begins with apart from its names: a slash, or a leading reference to the
directory itself. -/
def splitBeginning (path : RawText) : List UInt8 × List UInt8 :=
  match path.bytes with
  | [] => ([], [])
  | first :: rest =>
      if first = slash then ([slash], rest)
      else if [first] = here && (rest.isEmpty || rest.head? == some slash) then (here, rest)
      else ([], first :: rest)

/-- The path without its last name; absent if there is nothing above. -/
def parent? (path : RawText) : Option RawText :=
  let (beginning, rest) := splitBeginning path
  match (rest.splitOn slash).reverse.dropWhile leadsNowhere with
  | [] => if beginning = here then some ⟨[]⟩ else none
  | _ :: outer =>
      some ⟨beginning ++ [slash].intercalate (outer.dropWhile leadsNowhere).reverse⟩

/-- The path and all paths above it, from the inside out, without the one above all others. At most
`fuel` of them are listed. -/
def ancestors : Nat → RawText → List RawText
  | 0, _ => []
  | fuel + 1, path =>
      match parent? path with
      | none => []
      | some parent => path :: ancestors fuel parent

end HingeLoss.Files
