import HingeLoss.Files.Path
import Mathlib.Data.List.Basic

/-!
# Paths as text

The path above a path has the names of the path up to one of them, and so have all paths further
above. A path that was made absolute begins at the root.
-/

namespace HingeLoss.Files

open Text

variable {path outer base workingDirectory : RawText}

theorem not_mem_of_mem_splitOn {separator : UInt8} {bytes piece : List UInt8}
    (member : piece ∈ bytes.splitOn separator) : separator ∉ piece := by
  induction bytes generalizing piece with
  | nil => simp_all
  | cons byte rest ih =>
      rw [List.splitOn_cons_eq_if_modifyHead] at member
      split at member
      case isTrue =>
        rcases List.mem_cons.1 member with rfl | inRest
        · simp
        · exact ih inRest
      case isFalse different =>
        have different : byte ≠ separator := by simpa using different
        cases pieces : rest.splitOn separator with
        | nil => exact absurd pieces (List.splitOn_ne_nil separator rest)
        | cons first others =>
            rw [pieces] at ih member
            rw [List.modifyHead_cons, List.mem_cons] at member
            rcases member with rfl | inOthers
            · rw [List.mem_cons, not_or]
              exact ⟨different.symm, ih List.mem_cons_self⟩
            · exact ih (List.mem_cons_of_mem _ inOthers)

/-- The names of an absolute path stand between the slashes after the first one. -/
theorem names_of_slash (bytes : List UInt8) :
    names ⟨slash :: bytes⟩ = (bytes.splitOn slash).filter fun name => !name.isEmpty := by
  rw [names, List.splitOn_cons_eq_if_modifyHead, if_pos BEq.rfl]
  rfl

theorem exists_bytes_of_isAbsolute (absolute : isAbsolute path = true) :
    ∃ bytes, path = ⟨slash :: bytes⟩ := by
  rcases path with ⟨bytes⟩
  cases bytes with
  | nil => simp [isAbsolute] at absolute
  | cons first rest =>
      obtain rfl : first = slash := by simpa [isAbsolute] using absolute
      exact ⟨rest, rfl⟩

/-- What is put together from pieces without slashes has them as names, up to empty ones. -/
theorem names_of_pieces {pieces : List Name} (plain : ∀ piece ∈ pieces, slash ∉ piece) :
    names ⟨slash :: [slash].intercalate pieces⟩ = pieces.filter fun name => !name.isEmpty := by
  rw [names_of_slash]
  cases pieces with
  | nil => rfl
  | cons first rest => rw [List.splitOn_intercalate slash plain (List.cons_ne_nil first rest)]

/-- A list without what leads nowhere at its end, without its last item, and again without what
leads nowhere, is a front part of the list. -/
theorem exists_append_of_dropWhile {pieces kept : List Name} {last : Name}
    (stripped : pieces.reverse.dropWhile leadsNowhere = last :: kept) :
    leadsNowhere last = false ∧
      ∃ rest, last ∈ rest ∧ pieces = (kept.dropWhile leadsNowhere).reverse ++ rest := by
  constructor
  · have first := List.head?_dropWhile_not leadsNowhere pieces.reverse
    rwa [stripped] at first
  · refine ⟨(kept.takeWhile leadsNowhere).reverse ++
      last :: (pieces.reverse.takeWhile leadsNowhere).reverse, by simp, ?_⟩
    have whole : pieces.reverse = pieces.reverse.takeWhile leadsNowhere ++
        last :: (kept.takeWhile leadsNowhere ++ kept.dropWhile leadsNowhere) := by
      rw [List.takeWhile_append_dropWhile, ← stripped, List.takeWhile_append_dropWhile]
    rw [List.reverse_eq_iff] at whole
    apply whole.trans
    simp only [List.reverse_append, List.reverse_cons, List.append_assoc, List.cons_append,
      List.nil_append]

/-- The path above has all names of the path before one of them. -/
theorem names_parent? (absolute : isAbsolute path = true) (parent : parent? path = some outer) :
    isAbsolute outer = true ∧ ∃ rest, rest ≠ [] ∧ names path = names outer ++ rest := by
  rcases exists_bytes_of_isAbsolute absolute with ⟨bytes, rfl⟩
  have notHere : ([slash] : List UInt8) ≠ here := by decide
  simp only [parent?, splitBeginning, if_true, notHere, if_false] at parent
  split at parent
  case h_1 => simp at parent
  case h_2 last kept stripped =>
    obtain rfl := Option.some.inj parent
    rcases exists_append_of_dropWhile stripped with ⟨named, rest, last_mem, pieces⟩
    have plain : ∀ piece ∈ (kept.dropWhile leadsNowhere).reverse, slash ∉ piece := by
      intro piece member
      have inBytes : piece ∈ bytes.splitOn slash := by
        rw [pieces]
        exact List.mem_append_left _ member
      exact not_mem_of_mem_splitOn inBytes
    refine ⟨rfl, rest.filter fun name => !name.isEmpty, ?_, ?_⟩
    · rw [leadsNowhere, Bool.or_eq_false_iff] at named
      apply List.ne_nil_of_mem
      exact List.mem_filter.2 ⟨last_mem, by simp [named.1]⟩
    · rw [names_of_slash, pieces, List.filter_append]
      exact congrArg (· ++ _) (names_of_pieces plain).symm

theorem names_of_mem_ancestors {fuel : Nat} (absolute : isAbsolute path = true)
    (member : outer ∈ ancestors fuel path) :
    isAbsolute outer = true ∧ ∃ rest, names path = names outer ++ rest := by
  induction fuel generalizing path with
  | zero => simp [ancestors] at member
  | succ fuel ih =>
      rw [ancestors] at member
      split at member
      case h_1 => simp at member
      case h_2 parent found =>
        rcases List.mem_cons.1 member with rfl | further
        · exact ⟨absolute, [], (List.append_nil _).symm⟩
        · rcases names_parent? absolute found with ⟨parentAbsolute, rest, -, same⟩
          rcases ih parentAbsolute further with ⟨outerAbsolute, more, sameParent⟩
          refine ⟨outerAbsolute, more ++ rest, ?_⟩
          rw [same, sameParent, List.append_assoc]

theorem isAbsolute_join (absolute : isAbsolute base = true) (name : Name) :
    isAbsolute (join base name) = true := by
  rcases exists_bytes_of_isAbsolute absolute with ⟨bytes, rfl⟩
  rw [join]
  split <;> rfl

theorem isAbsolute_foldl_join (absolute : isAbsolute base = true) (steps : List Name) :
    isAbsolute (steps.foldl join base) = true := by
  induction steps generalizing base with
  | nil => exact absolute
  | cons name rest ih => exact ih (isAbsolute_join absolute name)

theorem isAbsolute_rootOf (path : RawText) : isAbsolute (rootOf path) = true := by
  rw [rootOf]
  split
  · split <;> rfl
  · split <;> rfl
  · rfl

/-- What is made absolute begins at the root. -/
theorem isAbsolute_absolute {result : RawText} (base : isAbsolute workingDirectory = true)
    (made : absolute workingDirectory path = .ok result) : isAbsolute result = true := by
  rw [absolute] at made
  split at made
  case isTrue => simp at made
  case isFalse =>
    obtain rfl := Except.ok.inj made
    have joined : isAbsolute (((names path).filter (· ≠ here)).foldl join
        (if isAbsolute path then rootOf path else workingDirectory)) = true := by
      apply isAbsolute_foldl_join
      split
      · exact isAbsolute_rootOf path
      · exact base
    have closed {joined : RawText} (begins : isAbsolute joined = true) (closing : Bool) :
        isAbsolute (if closing then join joined [] else joined) = true := by
      cases closing with
      | false => exact begins
      | true => exact isAbsolute_join begins []
    exact closed joined _

end HingeLoss.Files
