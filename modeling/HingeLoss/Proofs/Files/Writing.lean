import HingeLoss.Proofs.Files.Paths
import HingeLoss.Proofs.Files.Places

/-!
# What writing changes

Creating a directory with all that is missing above it adds directories, and only where the names of
the path lead and where there was nothing before. Writing a file puts it where all names of its path
lead together. Whatever else the tree holds stays as it is.
-/

namespace HingeLoss

open Files Text

namespace FileTree

variable {tree before middle after : FileTree} {allowed : Place → Prop} {path : RawText}
  {workingDirectory : Place}

/-- Directories were added at allowed places that held nothing, and nothing else has changed. -/
def AddsDirectories (allowed : Place → Prop) (before after : FileTree) : Prop :=
  ∀ place, after.find? place = before.find? place ∨
    allowed place ∧ before.find? place = none ∧ after.find? place = some .directory

namespace AddsDirectories

theorem refl (tree : FileTree) : AddsDirectories allowed tree tree := fun _ => .inl rfl

theorem trans (first : AddsDirectories allowed before middle)
    (second : AddsDirectories allowed middle after) : AddsDirectories allowed before after := by
  intro place
  rcases first place with same | ⟨isAllowed, missing, added⟩
  · rw [← same]
    exact second place
  · rcases second place with sameToo | ⟨-, missingToo, -⟩
    · exact .inr ⟨isAllowed, missing, sameToo.trans added⟩
    · rw [added] at missingToo
      simp at missingToo

theorem find?_of_some (adds : AddsDirectories allowed before after) {place : Place}
    {node : FileNode} (found : before.find? place = some node) :
    after.find? place = some node := by
  rcases adds place with same | ⟨-, missing, -⟩
  · rw [same, found]
  · rw [found] at missing
    simp at missing

end AddsDirectories

/-- The place that a path leads to if it can be followed. -/
def placeOf (workingDirectory : Place) (path : RawText) : Place :=
  (startOf workingDirectory path).along (names path)

/-- A directory is created where the names of its path lead, and only if nothing is there. -/
theorem createDirectory_eq_ok
    (created : before.createDirectory workingDirectory path = .ok after) :
    ∃ place name, placeOf workingDirectory path = place ++ [name] ∧
      before.find? (place ++ [name]) = none ∧ after = before.put (place ++ [name]) .directory := by
  rcases bind_eq_ok_iff.1 created with ⟨⟨place, last⟩, located, put⟩
  cases last with
  | none => exact absurd put throw_ne_ok
  | some name =>
      rw [placeOf, ← (locateLast_eq_ok located).1]
      refine ⟨place, name, rfl, ?_⟩
      simp only at put
      split at put
      case isTrue =>
        rcases bind_eq_ok_iff.1 put with ⟨_, thrown, -⟩
        exact absurd thrown throw_ne_ok
      case isFalse =>
        cases missing : before.find? (place ++ [name]) with
        | some node => simp [missing] at put
        | none =>
            simp only [missing, pure_eq_ok_iff] at put
            exact ⟨rfl, put.symm⟩

theorem addsDirectories_createDirectory
    (created : before.createDirectory workingDirectory path = .ok after)
    (isAllowed : allowed (placeOf workingDirectory path)) :
    AddsDirectories allowed before after := by
  rcases createDirectory_eq_ok created with ⟨place, name, same, missing, rfl⟩
  rw [same] at isAllowed
  intro other
  by_cases isCreated : other = place ++ [name]
  · subst isCreated
    exact .inr ⟨isAllowed, missing, find?_put_self before place name .directory⟩
  · exact .inl (find?_put_of_ne before .directory isCreated)

/-- Also when creating nested directories fails on the way. -/
theorem addsDirectories_createNested {paths : List RawText}
    (isAllowed : ∀ path ∈ paths, allowed (placeOf workingDirectory path)) :
    AddsDirectories allowed tree (createNested workingDirectory tree paths).1 := by
  induction paths with
  | nil => exact .refl tree
  | cons path outer ih =>
      rw [List.forall_mem_cons] at isAllowed
      have prepares := ih isAllowed.2
      rw [createNested]
      split
      case h_1 created first => exact addsDirectories_createDirectory first isAllowed.1
      case h_2 =>
        split
        case h_1 prepared fault outcome =>
          rw [outcome] at prepares
          exact prepares
        case h_2 prepared outcome =>
          rw [outcome] at prepares
          split
          case h_1 created second =>
            exact prepares.trans (addsDirectories_createDirectory second isAllowed.1)
          case h_2 =>
            beta_reduce
            split <;> exact prepares
      case h_3 =>
        beta_reduce
        split <;> exact .refl tree

/-- The places to which the names of a path lead, short of the last one. -/
def IsOuterPlace (path : RawText) (place : Place) : Prop :=
  ∃ outer rest, names path = outer ++ rest ∧ rest ≠ [] ∧ place = Place.along [] outer

theorem addsDirectories_createDirectories {parent : RawText} (absolute : isAbsolute path = true)
    (above : parent? path = some parent) :
    AddsDirectories (IsOuterPlace path) tree
      (tree.createDirectories workingDirectory parent).1 := by
  rcases names_parent? absolute above with ⟨parentAbsolute, rest, rest_ne, sameNames⟩
  apply addsDirectories_createNested
  intro ancestor member
  rcases names_of_mem_ancestors parentAbsolute member with ⟨ancestorAbsolute, more, sameParent⟩
  refine ⟨names ancestor, more ++ rest, ?_, by simp [rest_ne], ?_⟩
  · rw [sameNames, sameParent, List.append_assoc]
  · rw [placeOf, startOf, if_pos ancestorAbsolute]

/-- A file is written under the last name of its path, and not in the place of a directory. -/
theorem exists_located_of_write {contents : List UInt8}
    (written : before.write workingDirectory path contents = .ok after) :
    ∃ place name, before.locateLast workingDirectory path = .ok (place, some name) ∧
      endsInSlash path = false ∧ name.length ≤ longestName ∧
        before.find? (place ++ [name]) ≠ some .directory ∧
          after = before.put (place ++ [name]) (.file contents) := by
  rcases bind_eq_ok_iff.1 written with ⟨⟨place, last⟩, located, put⟩
  cases last with
  | none => exact absurd put throw_ne_ok
  | some name =>
      refine ⟨place, name, located, ?_⟩
      simp only at put
      split at put
      case isTrue =>
        rcases bind_eq_ok_iff.1 put with ⟨_, thrown, -⟩
        exact absurd thrown throw_ne_ok
      case isFalse noSlash =>
        split at put
        case isTrue =>
          rcases bind_eq_ok_iff.1 put with ⟨_, thrown, -⟩
          exact absurd thrown throw_ne_ok
        case isFalse short =>
          split at put
          case h_1 => exact absurd put throw_ne_ok
          case h_2 notDirectory =>
            exact ⟨Bool.eq_false_iff.2 noSlash, Nat.le_of_not_lt short, notDirectory,
              (pure_eq_ok_iff.1 put).symm⟩

/-- A file is written where the names of its path lead, below directories only. -/
theorem write_eq_ok {contents : List UInt8}
    (written : before.write workingDirectory path contents = .ok after) :
    (∃ place name, placeOf workingDirectory path = place ++ [name] ∧
        before.find? (place ++ [name]) ≠ some .directory ∧
          after = before.put (place ++ [name]) (.file contents)) ∧
      ∀ outer rest, names path = outer ++ rest → rest ≠ [] →
        before.find? ((startOf workingDirectory path).along outer) = some .directory := by
  rcases exists_located_of_write written with ⟨place, name, located, -, -, notDirectory, put⟩
  rcases locateLast_eq_ok located with ⟨same, directories⟩
  exact ⟨⟨place, name, same.symm, notDirectory, put⟩, directories⟩

/-- What was written to a file is read from it. -/
theorem read_of_write {contents : List UInt8}
    (written : before.write workingDirectory path contents = .ok after) :
    after.read workingDirectory path = .ok contents := by
  rcases exists_located_of_write written with
    ⟨place, name, located, noSlash, short, notDirectory, rfl⟩
  rcases exists_outer_of_locateLast located with
    ⟨checked, outer, split, notHere, notAbove, followed⟩
  have kept (other : Place) (directory : before.find? other = some .directory) :
      (before.put (place ++ [name]) (.file contents)).find? other = some .directory := by
    rw [find?_put_of_ne, directory]
    rintro rfl
    exact notDirectory directory
  have arrives := follow_snoc_of_ordinary notHere notAbove short
    (follow_of_directories kept followed)
  have located : (before.put (place ++ [name]) (.file contents)).locate workingDirectory path =
      .ok (.file contents) := by
    rw [locate, check_bind_eq_ok_iff]
    refine ⟨checked, bind_eq_ok_iff.2 ⟨place ++ [name], ?_, ?_⟩⟩
    · simpa [split, noSlash] using arrives
    · rw [find?_put_self]
      rfl
  rw [FileTree.read, located]

/-- After writing, the place of the path is a file with the contents, and what is above it on the
path are directories. Some of these may be new. Nothing else has changed. -/
structure WritesOnly (before after : FileTree) (path : RawText) (contents : List UInt8) :
    Prop where
  written : after.find? (Place.along [] (names path)) = some (.file contents)
  directories : ∀ place, IsOuterPlace path place → after.find? place = some .directory
  noDirectory : before.find? (Place.along [] (names path)) ≠ some .directory
  kept : ∀ place node, place ≠ Place.along [] (names path) → before.find? place = some node →
    after.find? place = some node
  absent : ∀ place, place ≠ Place.along [] (names path) → ¬IsOuterPlace path place →
    before.find? place = none → after.find? place = none

theorem WritesOnly.of_createDirectories_write {contents : List UInt8}
    (absolute : isAbsolute path = true)
    (prepared : AddsDirectories (IsOuterPlace path) before middle)
    (written : middle.write workingDirectory path contents = .ok after) :
    WritesOnly before after path contents := by
  rcases write_eq_ok written with ⟨⟨place, name, atPlace, notDirectory, rfl⟩, directories⟩
  rw [placeOf, startOf, if_pos absolute] at atPlace
  rw [startOf, if_pos absolute] at directories
  constructor
  case written =>
    rw [atPlace]
    exact find?_put_self middle place name (.file contents)
  case directories =>
    rintro outerPlace ⟨outer, rest, split, rest_ne, rfl⟩
    have directory := directories outer rest split rest_ne
    rw [find?_put_of_ne]
    · exact directory
    · intro same
      rw [same] at directory
      exact notDirectory directory
  case noDirectory =>
    rw [atPlace]
    exact fun directory => notDirectory (prepared.find?_of_some directory)
  case kept =>
    intro other node different found
    rw [atPlace] at different
    rw [find?_put_of_ne _ _ different]
    exact prepared.find?_of_some found
  case absent =>
    intro other different notOuter missing
    rw [atPlace] at different
    rw [find?_put_of_ne _ _ different]
    rcases prepared other with same | ⟨outer, -⟩
    · rw [same, missing]
    · exact absurd outer notOuter

namespace WritesOnly

variable {contents found : List UInt8} {input : RawText}

theorem directory_kept (writes : WritesOnly before after path contents) {place : Place}
    (directory : before.find? place = some .directory) :
    after.find? place = some .directory := by
  by_cases same : place = Place.along [] (names path)
  · rw [same] at directory
    exact absurd directory writes.noDirectory
  · exact writes.kept place .directory same directory

/-- A file to which another path leads reads as before. -/
theorem read_eq (writes : WritesOnly before after path contents)
    (elsewhere : placeOf workingDirectory input ≠ Place.along [] (names path))
    (read : before.read workingDirectory input = .ok found) :
    after.read workingDirectory input = .ok found := by
  rw [FileTree.read] at read
  split at read
  case h_2 => simp at read
  case h_3 => simp at read
  case h_1 stored located =>
    obtain rfl : stored = found := Except.ok.inj read
    rw [locate, check_bind_eq_ok_iff] at located
    rcases located with ⟨checked, located⟩
    rcases bind_eq_ok_iff.1 located with ⟨place, followed, atPlace⟩
    have followedToo := follow_of_directories (fun _ => writes.directory_kept) followed
    have samePlace : place = placeOf workingDirectory input := by
      rw [(follow_eq_ok followed).1, placeOf]
      split
      · exact Place.along_snoc _ _ _
      · rw [List.append_nil]
    split at atPlace
    case h_2 => simp at atPlace
    case h_1 node isNode =>
      obtain rfl := pure_eq_ok_iff.1 atPlace
      have keptNode := writes.kept place _ (samePlace ▸ elsewhere) isNode
      have located : after.locate workingDirectory input = .ok (.file stored) := by
        rw [locate, check_bind_eq_ok_iff]
        refine ⟨checked, bind_eq_ok_iff.2 ⟨place, followedToo, ?_⟩⟩
        rw [keptNode]
        rfl
      rw [FileTree.read, located]

end WritesOnly

end FileTree

end HingeLoss
