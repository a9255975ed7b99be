import HingeLoss.Files.Path

/-!
# File trees

A file system as a value: which places hold a file, which a directory. A place is the list of the
names that lead to it from the root. The operations follow the rules by which an operating system
resolves paths, in a tree without links.
-/

namespace HingeLoss

open Files Text

/-- What a place holds. -/
inductive FileNode where
  | directory
  | file (contents : List UInt8)
deriving DecidableEq

/-- The names that lead to a file or directory from the root. -/
abbrev Place := List Name

/-- The places below the root that hold something. -/
structure FileTree where
  nodes : List (Place × FileNode)
deriving DecidableEq

namespace FileTree

def empty : FileTree := ⟨[]⟩

/-- What a place holds; the root is always a directory. -/
def find? (tree : FileTree) (place : Place) : Option FileNode :=
  if place.isEmpty then some .directory else tree.nodes.lookup place

/-- Puts a node at a place, instead of what is there. -/
def put (tree : FileTree) (place : Place) (node : FileNode) : FileTree :=
  ⟨(place, node) :: tree.nodes.filter fun entry => entry.1 ≠ place⟩

def longestName : Nat := 255

def longestPath : Nat := 4095

/-- Follows names from a place. Whether there is something at the end is not looked at. -/
def follow (tree : FileTree) (place : Place) : List Name → Except FileFault Place
  | [] => .ok place
  | name :: rest =>
      match tree.find? place with
      | none => .error .notFound
      | some (.file _) => .error .notDirectory
      | some .directory =>
          if name = here then tree.follow place rest
          else if name = above then tree.follow place.dropLast rest
          else if longestName < name.length then .error .nameTooLong
          else tree.follow (place ++ [name]) rest

/-- Refuses a path that the operating system does not look up. -/
def checkPath (path : RawText) : Except FileFault Unit :=
  if path.bytes.contains 0 then .error .zeroByte
  else if path.bytes.isEmpty then .error .notFound
  else if longestPath < path.bytes.length then .error .nameTooLong
  else .ok ()

/-- The place from which the names of a path are followed. -/
def startOf (workingDirectory : Place) (path : RawText) : Place :=
  if isAbsolute path then [] else workingDirectory

/-- What a path leads to. A slash at the end asks for a directory. -/
def locate (tree : FileTree) (workingDirectory : Place) (path : RawText) :
    Except FileFault FileNode := do
  checkPath path
  let asked := names path ++ if endsInSlash path then [here] else []
  let place ← tree.follow (startOf workingDirectory path) asked
  match tree.find? place with
  | some node => return node
  | none => throw .notFound

def isFile (tree : FileTree) (workingDirectory : Place) (path : RawText) : Bool :=
  match tree.locate workingDirectory path with
  | .ok (.file _) => true
  | _ => false

def isDirectory (tree : FileTree) (workingDirectory : Place) (path : RawText) : Bool :=
  match tree.locate workingDirectory path with
  | .ok .directory => true
  | _ => false

/-- The contents of a file. A directory is found, but cannot be read. -/
def read (tree : FileTree) (workingDirectory : Place) (path : RawText) :
    Except ReadFault (List UInt8) :=
  match tree.locate workingDirectory path with
  | .ok (.file contents) => .ok contents
  | .ok .directory => .error (.reading .isDirectory)
  | .error fault => .error (.opening fault)

/-- The directory in which the last name of a path is to be found, and that name, unless it refers
to a directory on its own. -/
def locateLast (tree : FileTree) (workingDirectory : Place) (path : RawText) :
    Except FileFault (Place × Option Name) := do
  checkPath path
  let start := startOf workingDirectory path
  match (names path).reverse with
  | [] => return (start, none)
  | last :: outer =>
      let place ← tree.follow start (outer.reverse ++ [here])
      return (place, if last = here ∨ last = above then none else some last)

/-- Creates one directory in a directory that is there. -/
def createDirectory (tree : FileTree) (workingDirectory : Place) (path : RawText) :
    Except FileFault FileTree := do
  match ← tree.locateLast workingDirectory path with
  | (_, none) => throw .alreadyExists
  | (place, some name) =>
      if longestName < name.length then throw .nameTooLong
      match tree.find? (place ++ [name]) with
      | some _ => throw .alreadyExists
      | none => return tree.put (place ++ [name]) .directory

/-- Creates the first of some directories inside of the others, which are created if they are
missing. Directories that were created before a fault stay. -/
def createNested (workingDirectory : Place) (tree : FileTree) :
    List RawText → FileTree × Except FileFault Unit
  | [] => (tree, .ok ())
  | path :: outer =>
      let settle (tree : FileTree) (fault : FileFault) : FileTree × Except FileFault Unit :=
        if fault = .alreadyExists ∧ tree.isDirectory workingDirectory path then (tree, .ok ())
        else (tree, .error fault)
      match tree.createDirectory workingDirectory path with
      | .ok created => (created, .ok ())
      | .error .notFound =>
          match createNested workingDirectory tree outer with
          | (prepared, .error fault) => (prepared, .error fault)
          | (prepared, .ok ()) =>
              match prepared.createDirectory workingDirectory path with
              | .ok created => (created, .ok ())
              | .error fault => settle prepared fault
      | .error fault => settle tree fault

/-- Creates a directory and those above it that are missing. -/
def createDirectories (tree : FileTree) (workingDirectory : Place) (path : RawText) :
    FileTree × Except FileFault Unit :=
  createNested workingDirectory tree (ancestors (path.bytes.length + 1) path)

/-- Writes a file, in the place of any file that is there. -/
def write (tree : FileTree) (workingDirectory : Place) (path : RawText)
    (contents : List UInt8) : Except FileFault FileTree := do
  match ← tree.locateLast workingDirectory path with
  | (_, none) => throw .isDirectory
  | (place, some name) =>
      if endsInSlash path then throw .isDirectory
      if longestName < name.length then throw .nameTooLong
      match tree.find? (place ++ [name]) with
      | some .directory => throw .isDirectory
      | _ => return tree.put (place ++ [name]) (.file contents)

end FileTree

end HingeLoss
