import HingeLoss.Proofs.Program.Columns
import HingeLoss.Solver.Answer
import Mathlib.Data.Finset.Dedup
import Mathlib.Data.Finset.Card
import Mathlib.Data.List.GetD
import Mathlib.Data.List.Induction
import Mathlib.Data.List.NodupEquivFin

/-!
# Numbered variables

The columns number the listed variables without gaps, in the order in which they are first listed.
They are the same numbers that a map stores to which the variables are added one by one. Reading a
solved answer hands out the entries of its point one by one: each variable takes the entry at its
own number, and no entry is left over.
-/

namespace HingeLoss

/-- Looking up an item among the items with their places finds what belongs to its first place. -/
theorem lookup_map_zipIdx {α β : Type} [BEq α] [LawfulBEq α] (attached : α → Nat → β)
    (items : List α) (item : α) :
    (items.zipIdx.map fun (item, place) => (item, attached item place)).lookup item =
      (items.idxOf? item).map (attached item) := by
  have fromPlace : ∀ start, ((items.zipIdx start).map fun (item, place) =>
        (item, attached item place)).lookup item =
      (items.idxOf? item).map fun place => attached item (start + place) := by
    induction items with
    | nil => simp
    | cons head rest ih =>
        intro start
        rw [List.zipIdx_cons, List.map_cons, List.lookup_cons, List.idxOf?_cons, ih]
        by_cases same : item = head
        · simp [same]
        · have different : head ≠ item := fun equal => same equal.symm
          rw [beq_false_of_ne same, if_neg (by simpa using different), Option.map_map]
          simp only [Function.comp_def, Nat.add_assoc, Nat.add_comm 1]
  simpa using fromPlace 0

section Reading

variable {K : Type} [Scalar K] {answer : Answer K}

theorem Answer.valueOf?_solution (program : ConicProgram K)
    (solved : answer.termination.status.isSolved = true) (id : VarId) :
    (answer.solution program).valueOf? id = (program.columns.find? id).map answer.pointAt := by
  rw [Answer.solution, if_pos solved, Solution.valueOf?, Option.bind_some, Columns.find?]
  exact lookup_map_zipIdx (fun _ column => answer.pointAt column) program.columns.ids id

/-- A point with one entry for each column is handed out entry by entry. -/
theorem Answer.primal_solution (program : ConicProgram K)
    (solved : answer.termination.status.isSolved = true)
    (size : answer.point.length = program.columns.count) :
    (answer.solution program).primal = some (program.columns.ids.zip answer.point) := by
  rw [Answer.solution, if_pos solved, Option.some_inj]
  rw [Columns.count] at size
  apply List.ext_getElem
  · rw [List.length_map, List.length_zipIdx, List.length_zip, size, Nat.min_self]
  · intro column inColumns inPoint
    have inside : column < answer.point.length :=
      inPoint.trans_le (by rw [List.length_zip]; exact Nat.min_le_right _ _)
    simp [Answer.pointAt, inside]

end Reading

namespace Columns

theorem extend_append (columns first second : List VarId) :
    extend columns (first ++ second) = extend (extend columns first) second := by
  induction first generalizing columns with
  | nil => rfl
  | cons head rest ih =>
      simp only [List.cons_append, extend]
      split
      all_goals exact ih _

theorem ids_ofVariables_append_singleton (ids : List VarId) (id : VarId) :
    (ofVariables (ids ++ [id])).ids =
      if id ∈ ids then (ofVariables ids).ids else (ofVariables ids).ids ++ [id] := by
  have known : id ∈ extend [] ids ↔ id ∈ ids := mem_ids_ofVariables
  rw [ofVariables, extend_append]
  simp only [extend, known]
  rfl

/-- A further variable takes the number of the columns so far, unless it has a column already. -/
theorem find?_ofVariables_append_singleton (ids : List VarId) (id other : VarId) :
    (ofVariables (ids ++ [id])).find? other =
      ((ofVariables ids).find? other).or
        (if id = other then some (ofVariables ids).count else none) := by
  rw [find?, find?, ids_ofVariables_append_singleton]
  split
  case isTrue known =>
    split
    case isTrue same =>
      have member : other ∈ (ofVariables ids).ids := mem_ids_ofVariables.2 (same ▸ known)
      rcases exists_find?_eq_some member with ⟨column, found⟩
      rw [find?] at found
      rw [found, Option.some_or]
    case isFalse => rw [Option.or_none]
  case isFalse =>
    have behind : ([id].idxOf? other).map (· + (ofVariables ids).ids.length) =
        if id = other then some (ofVariables ids).count else none := by
      rw [List.idxOf?_singleton]
      by_cases same : id = other
      · simp [same, count]
      · simp [same]
    rw [← behind]
    exact List.findIdx?_append

theorem find?_ofVariables_eq_none {ids : List VarId} {id : VarId} (unlisted : id ∉ ids) :
    (ofVariables ids).find? id = none :=
  List.idxOf?_eq_none_iff.2 fun member => unlisted (mem_ids_ofVariables.1 member)

section Storage

variable {numbers : Std.TreeMap VarId Nat} {ids : List VarId}

/-- Adds a variable to a map of numbers. One that is new takes the size of the map as its number,
and one that is known keeps its number. -/
def register (numbers : Std.TreeMap VarId Nat) (id : VarId) : Std.TreeMap VarId Nat :=
  numbers.insertIfNew id numbers.size

/-- The map stores the column of every variable, and its size is the number of columns. -/
structure StoredIn (columns : Columns) (numbers : Std.TreeMap VarId Nat) : Prop where
  getElem? : ∀ id, numbers[id]? = columns.find? id
  size : numbers.size = columns.count

theorem StoredIn.mem_iff (stored : (ofVariables ids).StoredIn numbers) {id : VarId} :
    id ∈ numbers ↔ id ∈ ids := by
  rw [Std.TreeMap.mem_iff_isSome_getElem?, stored.getElem?, find?, List.isSome_idxOf?,
    mem_ids_ofVariables]

/-- A further variable is added to the map as it takes its column. -/
theorem StoredIn.append_singleton (stored : (ofVariables ids).StoredIn numbers) (id : VarId) :
    (ofVariables (ids ++ [id])).StoredIn (register numbers id) := by
  constructor
  case getElem? =>
    intro other
    simp only [find?_ofVariables_append_singleton, register, Std.TreeMap.getElem?_insertIfNew,
      Std.LawfulEqOrd.compare_eq_iff_eq, stored.mem_iff, stored.getElem?, stored.size]
    by_cases known : other ∈ ids
    · rcases exists_find?_eq_some (mem_ids_ofVariables.2 known) with ⟨column, found⟩
      have notNew : ¬(id = other ∧ id ∉ ids) := fun new => new.2 (new.1 ▸ known)
      rw [if_neg notNew, found, Option.some_or]
    · have isNew : id = other ∧ id ∉ ids ↔ id = other :=
        and_iff_left_of_imp fun same => same ▸ known
      simp only [isNew, find?_ofVariables_eq_none known, Option.none_or]
  case size =>
    rw [register, Std.TreeMap.size_insertIfNew, count, ids_ofVariables_append_singleton]
    simp only [stored.mem_iff, stored.size]
    split
    case isTrue => rfl
    case isFalse => rw [List.length_append, List.length_singleton, count]

/-- Adding variables one by one to an empty map stores their columns. -/
theorem storedIn_foldl_register (ids : List VarId) :
    (ofVariables ids).StoredIn (ids.foldl register ∅) := by
  induction ids using List.reverseRecOn with
  | nil => exact ⟨fun _ => Std.TreeMap.getElem?_emptyc, Std.TreeMap.size_emptyc⟩
  | append_singleton ids id ih =>
      rw [List.foldl_append]
      exact ih.append_singleton id

end Storage

/-- A variable has its column from before, or it is new and comes behind all others. -/
theorem earlier_or_last {ids : List VarId} {id other : VarId} {column : Nat}
    (found : (ofVariables (ids ++ [id])).find? other = some column) :
    ((ofVariables ids).find? other = some column ∧ (ids ++ [id]).idxOf other = ids.idxOf other ∧
        column < (ofVariables ids).count ∧ ids.idxOf other < ids.length) ∨
      (column = (ofVariables ids).count ∧ (ids ++ [id]).idxOf other = ids.length) := by
  rw [find?_ofVariables_append_singleton] at found
  by_cases known : other ∈ ids
  · left
    rcases exists_find?_eq_some (mem_ids_ofVariables.2 known) with ⟨before, atBefore⟩
    rw [atBefore, Option.some_or, Option.some_inj] at found
    subst before
    exact ⟨atBefore, List.idxOf_append_of_mem known, lt_count_of_find?_eq_some atBefore,
      List.idxOf_lt_length_iff.2 known⟩
  · right
    rw [find?_ofVariables_eq_none known, Option.none_or] at found
    split at found
    case isTrue same =>
      subst other
      rw [List.idxOf_append_of_notMem known]
      exact ⟨(Option.some_inj.1 found).symm, by simp⟩
    case isFalse => cases found

/-- Of two listed variables, the one that is listed first has the smaller column. -/
theorem find?_lt_find?_iff {ids : List VarId} {first second : VarId} {left right : Nat}
    (firstFound : (ofVariables ids).find? first = some left)
    (secondFound : (ofVariables ids).find? second = some right) :
    left < right ↔ ids.idxOf first < ids.idxOf second := by
  induction ids using List.reverseRecOn generalizing left right with
  | nil => cases firstFound
  | append_singleton ids id ih =>
      rcases earlier_or_last firstFound with ⟨firstBefore, firstPlace, firstBelow, firstInside⟩ |
        ⟨firstNew, firstPlace⟩
      · rcases earlier_or_last secondFound with ⟨secondBefore, secondPlace, -, -⟩ |
          ⟨secondNew, secondPlace⟩
        · rw [firstPlace, secondPlace]
          exact ih firstBefore secondBefore
        · rw [firstPlace, secondPlace, secondNew]
          exact iff_of_true firstBelow firstInside
      · rcases earlier_or_last secondFound with ⟨-, secondPlace, secondBelow, secondInside⟩ |
          ⟨secondNew, secondPlace⟩
        · rw [firstPlace, secondPlace, firstNew]
          exact iff_of_false secondBelow.asymm secondInside.asymm
        · rw [firstPlace, secondPlace, firstNew, secondNew]
          exact iff_of_false (Nat.lt_irrefl _) (Nat.lt_irrefl _)

/-- The listed variables and the columns correspond to each other. -/
def numbering (ids : List VarId) : {id // id ∈ ids} ≃ Fin (ofVariables ids).count :=
  (Equiv.subtypeEquivRight fun _ => mem_ids_ofVariables.symm).trans
    ((nodup_ids_ofVariables ids).getEquiv (ofVariables ids).ids).symm

theorem find?_ofVariables {ids : List VarId} (id : {id // id ∈ ids}) :
    (ofVariables ids).find? id = some (numbering ids id).val := by
  rw [find?_eq_some_iff (nodup_ids_ofVariables ids)]
  exact List.getElem?_idxOf (mem_ids_ofVariables.2 id.2)

theorem count_ofVariables (ids : List VarId) : (ofVariables ids).count = ids.toFinset.card := by
  have sameIds : (ofVariables ids).ids.toFinset = ids.toFinset := by
    ext id
    simp
  rw [← sameIds, List.toFinset_card_of_nodup (nodup_ids_ofVariables ids), count]

/-- A solution that hands out a vector: each listed variable has the entry at its number, and every
entry goes to one variable. -/
structure Unpacks {K : Type} (ids : List VarId) (vector : List K) (solution : Solution K) : Prop
    where
  inside : ∀ id, (numbering ids id).val < vector.length
  own : ∀ id, solution.valueOf? id.val = some (vector.get ⟨numbering ids id, inside id⟩)
  unlisted : ∀ id, id ∉ ids → solution.valueOf? id = none
  once : ∃ values, solution.primal = some values ∧ (values.map Prod.fst).Nodup ∧
    values.map Prod.snd = vector

theorem unpacks_solution {K : Type} [Scalar K] {ids : List VarId} {program : ConicProgram K}
    {answer : Answer K} (columns : program.columns = ofVariables ids)
    (solved : answer.termination.status.isSolved = true)
    (size : answer.point.length = (ofVariables ids).count) :
    Unpacks ids answer.point (answer.solution program) where
  inside id := (numbering ids id).isLt.trans_eq size.symm
  own id := by
    have inside := (numbering ids id).isLt.trans_eq size.symm
    rw [Answer.valueOf?_solution program solved, columns, find?_ofVariables, Option.map_some,
      Answer.pointAt, List.getD_eq_getElem _ _ inside]
    rfl
  unlisted id absent := by
    rw [Answer.valueOf?_solution program solved, columns, find?_ofVariables_eq_none absent,
      Option.map_none]
  once := by
    refine ⟨_, Answer.primal_solution program solved (columns ▸ size), ?_, ?_⟩
    · rw [columns, List.map_fst_zip size.ge]
      exact nodup_ids_ofVariables ids
    · rw [columns, List.map_snd_zip size.le]

/-- However often variables are listed, the columns number the different ones from zero on, in the
order of their first occurrence, as does a map to which they are added one by one; and a point with
an entry for each column is handed out entry by entry. -/
theorem ofVariables_numbers_by_first_occurrence (ids : List VarId) :
    (ofVariables ids).StoredIn (ids.foldl register ∅) ∧
      (∀ id : {id // id ∈ ids}, (ofVariables ids).find? id = some (numbering ids id).val) ∧
      (∀ id, id ∉ ids → (ofVariables ids).find? id = none) ∧
      (∀ first second, numbering ids first < numbering ids second ↔
        ids.idxOf first.val < ids.idxOf second.val) ∧
      (ofVariables ids).count = ids.toFinset.card ∧
      ∀ {K : Type} [Scalar K] (program : ConicProgram K) (answer : Answer K),
        program.columns = ofVariables ids → answer.termination.status.isSolved = true →
        answer.point.length = (ofVariables ids).count →
        Unpacks ids answer.point (answer.solution program) := by
  refine ⟨storedIn_foldl_register ids, find?_ofVariables, fun _ => find?_ofVariables_eq_none, ?_,
    count_ofVariables ids, ?_⟩
  · intro first second
    rw [Fin.lt_def]
    exact find?_lt_find?_iff (find?_ofVariables first) (find?_ofVariables second)
  · intro K _ program answer columns solved size
    exact unpacks_solution columns solved size

theorem ofVariables_numbers_by_first_occurrence_of_repeat :
    let ids : List VarId := [⟨4⟩, ⟨2⟩, ⟨4⟩]
    let program : ConicProgram ℚ :=
      { quadratic := .ofEntries 2 2 []
        linear := [1, 1]
        matrix := .ofEntries 0 2 []
        rhs := []
        layout := ⟨0, 0, []⟩
        columns := ofVariables ids
        offset := 0 }
    let answer : Answer ℚ := ⟨.solved, [7, 9], 5, 0⟩
    (ofVariables ids).find? ⟨3⟩ = none ∧ answer.point.length = (ofVariables ids).count ∧
      Unpacks ids answer.point (answer.solution program) := by
  intro ids program answer
  rcases ofVariables_numbers_by_first_occurrence ids with ⟨-, -, absent, -, -, unpacks⟩
  have size : answer.point.length = (ofVariables ids).count := by decide
  exact ⟨absent ⟨3⟩ (by decide), size, unpacks program answer rfl rfl size⟩

end Columns

end HingeLoss
