import HingeLoss.Files.Tree
import HingeLoss.Proofs.Failure
import Mathlib.Tactic.SplitIfs

/-!
# Places that paths lead to

Following a path succeeds only if everything it goes through is a directory, and then it ends at the
place that can be read off its names. This does not depend on what else the tree holds, so a path
that could be followed can still be followed after directories were added.
-/

namespace HingeLoss

open Files Text

/-- Where a name leads from a place. -/
def Place.enter (place : Place) (name : Name) : Place :=
  if name = here then place
  else if name = above then place.dropLast
  else place ++ [name]

/-- Where names lead from a place, one after the other. -/
def Place.along (place : Place) (names : List Name) : Place := names.foldl Place.enter place

theorem Place.along_snoc (place : Place) (names : List Name) (name : Name) :
    place.along (names ++ [name]) = (place.along names).enter name :=
  List.foldl_append

namespace FileTree

variable {tree other : FileTree} {place target : Place} {steps : List Name} {path : RawText}
  {workingDirectory : Place}

theorem find?_put_self (tree : FileTree) (place : Place) (name : Name) (node : FileNode) :
    (tree.put (place ++ [name]) node).find? (place ++ [name]) = some node := by
  have nonempty : (place ++ [name]).isEmpty = false := by simp
  rw [find?, nonempty, put]
  simp

theorem lookup_filter_of_ne {nodes : List (Place × FileNode)} (different : target ≠ place) :
    (nodes.filter fun entry => entry.1 ≠ place).lookup target = nodes.lookup target := by
  induction nodes with
  | nil => rfl
  | cons entry rest ih =>
      by_cases replaced : entry.1 = place
      · have skipped : (target == entry.1) = false := beq_false_of_ne (replaced ▸ different)
        rw [List.filter_cons_of_neg (by simpa using replaced), ih, List.lookup_cons, skipped]
      · rw [List.filter_cons_of_pos (by simpa using replaced), List.lookup_cons, List.lookup_cons,
          ih]

theorem find?_put_of_ne (tree : FileTree) (node : FileNode) (different : target ≠ place) :
    (tree.put place node).find? target = tree.find? target := by
  rw [find?, find?]
  split
  case isTrue => rfl
  case isFalse =>
    rw [put, List.lookup_cons, beq_false_of_ne different]
    exact lookup_filter_of_ne different

theorem follow_cons_eq_ok {name : Name} {rest : List Name}
    (followed : tree.follow place (name :: rest) = .ok target) :
    tree.find? place = some .directory ∧ tree.follow (place.enter name) rest = .ok target := by
  rw [follow] at followed
  split at followed
  case h_1 => simp at followed
  case h_2 => simp at followed
  case h_3 directory =>
    refine ⟨directory, ?_⟩
    rw [Place.enter]
    split_ifs at followed ⊢
    · exact followed
    · exact followed
    · exact followed

/-- What is followed leads along its names, through directories only. -/
theorem follow_eq_ok (followed : tree.follow place steps = .ok target) :
    target = place.along steps ∧
      ∀ outer rest, steps = outer ++ rest → rest ≠ [] →
        tree.find? (place.along outer) = some .directory := by
  induction steps generalizing place with
  | nil =>
      obtain rfl : place = target := Except.ok.inj followed
      refine ⟨rfl, ?_⟩
      intro outer rest same rest_ne
      exact absurd (List.append_eq_nil_iff.1 same.symm).2 rest_ne
  | cons name steps ih =>
      rcases follow_cons_eq_ok followed with ⟨directory, followedRest⟩
      rcases ih followedRest with ⟨same, directories⟩
      refine ⟨same, ?_⟩
      intro outer rest split rest_ne
      cases outer with
      | nil => exact directory
      | cons first outer =>
          rw [List.cons_append, List.cons.injEq] at split
          rcases split with ⟨rfl, split⟩
          exact directories outer rest split rest_ne

/-- Where all directories are kept, the same paths lead to the same places. -/
theorem follow_of_directories
    (kept : ∀ place, tree.find? place = some .directory → other.find? place = some .directory)
    (followed : tree.follow place steps = .ok target) : other.follow place steps = .ok target := by
  induction steps generalizing place with
  | nil => exact followed
  | cons name steps ih =>
      have directory := (follow_cons_eq_ok followed).1
      simp only [follow, directory] at followed
      simp only [follow, kept place directory]
      split_ifs at followed ⊢
      · exact ih followed
      · exact ih followed
      · exact ih followed

/-- Where names can be followed to a directory, one more ordinary name leads on from it. -/
theorem follow_snoc_of_ordinary {name : Name} (notHere : name ≠ here) (notAbove : name ≠ above)
    (short : name.length ≤ longestName)
    (followed : tree.follow place (steps ++ [here]) = .ok target) :
    tree.follow place (steps ++ [name]) = .ok (target ++ [name]) := by
  induction steps generalizing place with
  | nil =>
      rcases follow_cons_eq_ok followed with ⟨directory, arrived⟩
      rw [Place.enter, if_pos rfl] at arrived
      obtain rfl : place = target := Except.ok.inj arrived
      simp [follow, directory, notHere, notAbove, Nat.not_lt.2 short]
  | cons step steps ih =>
      have directory := (follow_cons_eq_ok followed).1
      simp only [List.cons_append, follow, directory] at followed ⊢
      split_ifs at followed ⊢
      · exact ih followed
      · exact ih followed
      · exact ih followed

/-- The last name of a path is an ordinary one, and it is looked for where the others lead. -/
theorem exists_outer_of_locateLast {name : Name}
    (located : tree.locateLast workingDirectory path = .ok (place, some name)) :
    checkPath path = .ok () ∧ ∃ outer, names path = outer ++ [name] ∧
      name ≠ here ∧ name ≠ above ∧
        tree.follow (startOf workingDirectory path) (outer ++ [here]) = .ok place := by
  rw [locateLast, check_bind_eq_ok_iff] at located
  rcases located with ⟨checked, located⟩
  refine ⟨checked, ?_⟩
  split at located
  case h_1 => simp [pure, Except.pure] at located
  case h_2 last outer reversed =>
    have split : names path = outer.reverse ++ [last] := by
      rw [← List.reverse_cons, ← reversed, List.reverse_reverse]
    rcases bind_eq_ok_iff.1 located with ⟨directory, followed, found⟩
    simp only [pure, Except.pure, Except.ok.injEq, Prod.mk.injEq, Option.ite_none_left_eq_some,
      Option.some.injEq] at found
    rcases found with ⟨rfl, ordinary, rfl⟩
    rw [not_or] at ordinary
    exact ⟨outer.reverse, split, ordinary.1, ordinary.2, followed⟩

theorem locateLast_eq_ok {name : Name}
    (located : tree.locateLast workingDirectory path = .ok (place, some name)) :
    place ++ [name] = (startOf workingDirectory path).along (names path) ∧
      ∀ outer rest, names path = outer ++ rest → rest ≠ [] →
        tree.find? ((startOf workingDirectory path).along outer) = some .directory := by
  rcases exists_outer_of_locateLast located with ⟨-, outer, split, notHere, notAbove, followed⟩
  rcases follow_eq_ok followed with ⟨rfl, directories⟩
  constructor
  · rw [split, Place.along_snoc, Place.along_snoc, Place.enter, if_pos rfl, Place.enter,
      if_neg notHere, if_neg notAbove]
  · intro inner rest whole rest_ne
    rcases List.eq_nil_or_concat rest with rfl | ⟨middle, final, rfl⟩
    · exact absurd rfl rest_ne
    · rw [split, List.concat_eq_append, ← List.append_assoc] at whole
      have sameOuter := (List.append_inj' whole rfl).1
      apply directories inner (middle ++ [here])
      · rw [sameOuter, List.append_assoc]
      · simp

end FileTree

end HingeLoss
