import HingeLoss.Proofs.Program.Sparse

/-!
# Stored entries

What a matrix stores when it collects a list of entries: column by column, the rows that were given
for the column with the sums of their values. What holds of all given entries and is inherited by
sums at the same position therefore holds of all stored ones.
-/

namespace HingeLoss

namespace SparseMatrix

variable {K : Type} [Scalar K]

theorem entries_ofEntries (rowCount columnCount : Nat) (entries : List (MatrixEntry K)) :
    (ofEntries rowCount columnCount entries).entries =
      (List.range columnCount).flatMap fun index =>
        (collectColumn (entries.filter (fits rowCount columnCount)) index).map fun stored =>
          ⟨stored.1, index, stored.2⟩ := by
  rw [SparseMatrix.entries, columnCount_ofEntries, List.flatMap_def, List.flatMap_def]
  congr 1
  apply List.map_congr_left
  intro index inside
  rw [column_ofEntries (List.mem_range.1 inside)]

section Invariants

theorem forall_mem_insertRow (Property : Nat → K → Prop)
    (closed : ∀ row left right, Property row left → Property row right →
      Property row (left + right))
    {row : Nat} {value : K} (new : Property row value) {column : List (Nat × K)}
    (each : ∀ stored ∈ column, Property stored.1 stored.2) :
    ∀ stored ∈ insertRow row value column, Property stored.1 stored.2 := by
  induction column with
  | nil => exact List.forall_mem_singleton.2 new
  | cons head rest ih =>
      rcases head with ⟨headRow, stored⟩
      rcases List.forall_mem_cons.1 each with ⟨atHead, inRest⟩
      simp only [insertRow]
      split
      case isTrue => exact List.forall_mem_cons.2 ⟨new, each⟩
      case isFalse =>
        split
        case isTrue same =>
          refine List.forall_mem_cons.2 ⟨?_, inRest⟩
          exact closed headRow stored value atHead (same ▸ new)
        case isFalse => exact List.forall_mem_cons.2 ⟨atHead, ih inRest⟩

variable (Property : Nat → Nat → K → Prop)

theorem forall_mem_collectColumn {index : Nat}
    (closed : ∀ row left right, Property row index left → Property row index right →
      Property row index (left + right))
    {entries : List (MatrixEntry K)}
    (each : ∀ entry ∈ entries, Property entry.row entry.column entry.value) :
    ∀ stored ∈ collectColumn entries index, Property stored.1 index stored.2 := by
  refine List.foldlRecOn (motive := fun column : List (Nat × K) =>
    ∀ stored ∈ column, Property stored.1 index stored.2) _ _ (by simp) ?_
  intro column invariant entry member
  rcases List.mem_filter.1 member with ⟨given, belongs⟩
  have new := each entry given
  rw [beq_iff_eq.1 belongs] at new
  exact forall_mem_insertRow (Property · index ·) closed new invariant

/-- What holds of all given entries, and of the sum of two values whenever it holds of both, holds
of all stored entries. -/
theorem forall_mem_entries_ofEntries
    (closed : ∀ row column left right, Property row column left → Property row column right →
      Property row column (left + right))
    {rowCount columnCount : Nat} {entries : List (MatrixEntry K)}
    (each : ∀ entry ∈ entries, Property entry.row entry.column entry.value) :
    ∀ stored ∈ (ofEntries rowCount columnCount entries).entries,
      Property stored.row stored.column stored.value := by
  intro stored member
  rw [entries_ofEntries] at member
  rcases List.mem_flatMap.1 member with ⟨index, -, inColumn⟩
  rcases List.mem_map.1 inColumn with ⟨pair, pair_mem, rfl⟩
  exact forall_mem_collectColumn Property (closed · index)
    (fun entry inside => each entry (List.mem_of_mem_filter inside)) pair pair_mem

end Invariants

section Increasing

/-- A row below all others is stored behind them. -/
theorem insertRow_of_lt {row : Nat} {column : List (Nat × K)}
    (above : ∀ stored ∈ column, stored.1 < row) (value : K) :
    insertRow row value column = column ++ [(row, value)] := by
  induction column with
  | nil => rfl
  | cons head rest ih =>
      rcases head with ⟨headRow, stored⟩
      rcases List.forall_mem_cons.1 above with ⟨headAbove, restAbove⟩
      rw [insertRow, if_neg (Nat.lt_asymm headAbove), if_neg (Nat.ne_of_gt headAbove),
        ih restAbove, List.cons_append]

/-- If the entries of a column come with increasing rows, they are stored one by one as they are. -/
theorem collectColumn_of_increasing {entries : List (MatrixEntry K)} {index : Nat}
    (increasing : (entries.filter fun entry => entry.column == index).Pairwise
      fun left right => left.row < right.row) :
    collectColumn entries index =
      (entries.filter fun entry => entry.column == index).map fun entry =>
        (entry.row, entry.value) := by
  rw [collectColumn]
  revert increasing
  generalize (entries.filter fun entry => entry.column == index) = own
  intro increasing
  have collected : ∀ column : List (Nat × K),
      (∀ stored ∈ column, ∀ entry ∈ own, stored.1 < entry.row) →
        own.foldl (fun column entry => insertRow entry.row entry.value column) column =
          column ++ own.map fun entry => (entry.row, entry.value) := by
    induction own with
    | nil => exact fun column _ => (List.append_nil column).symm
    | cons entry rest ih =>
        intro column below
        rcases List.pairwise_cons.1 increasing with ⟨before, restIncreasing⟩
        have above : ∀ stored ∈ column, stored.1 < entry.row :=
          fun stored member => below stored member entry List.mem_cons_self
        rw [List.foldl_cons, insertRow_of_lt above, ih restIncreasing, List.map_cons,
          List.append_assoc, List.singleton_append]
        intro stored member other inRest
        rcases List.mem_append.1 member with inColumn | isNew
        · exact below stored inColumn other (by simp [inRest])
        · rw [List.mem_singleton.1 isNew]
          exact before other inRest
  exact collected [] (by simp)

section Numbered

variable {α : Type} {number : α → Nat} {items : List α}

theorem filter_lt_append_filter_eq
    (increasing : items.Pairwise fun left right => number left < number right) (bound : Nat) :
    items.filter (fun item => number item < bound) ++
        items.filter (fun item => number item == bound) =
      items.filter fun item => number item < bound + 1 := by
  induction items with
  | nil => rfl
  | cons head rest ih =>
      rcases List.pairwise_cons.1 increasing with ⟨above, restIncreasing⟩
      by_cases below : number head < bound
      · have within : number head < bound + 1 := Nat.lt_succ_of_lt below
        simp only [List.filter_cons, below, within, below.ne, decide_true, if_true, beq_iff_eq,
          if_false, List.cons_append, ih restIncreasing]
      · -- From here on nothing lies below the bound, and only the head can be at it.
        have restAbove : ∀ item ∈ rest, bound < number item := fun item member =>
          (Nat.le_of_not_lt below).trans_lt (above item member)
        have noneBelow : rest.filter (fun item => number item < bound) = [] := by
          simpa using fun item member => (restAbove item member).le
        have noneAt : rest.filter (fun item => number item == bound) = [] := by
          simpa using fun item member => (restAbove item member).ne'
        have noneWithin : rest.filter (fun item => number item < bound + 1) = [] := by
          simpa using fun item member => Nat.succ_le_of_lt (restAbove item member)
        have atBound : number head = bound ↔ number head < bound + 1 := by omega
        simp only [List.filter_cons, below, noneBelow, noneAt, noneWithin, atBound, decide_false,
          Bool.false_eq_true, if_false, List.nil_append, beq_iff_eq, decide_eq_true_eq]

/-- Picking the items of each number in turn gives back a list whose numbers increase. -/
theorem flatMap_range_filter
    (increasing : items.Pairwise fun left right => number left < number right) {count : Nat}
    (inside : ∀ item ∈ items, number item < count) :
    ((List.range count).flatMap fun index => items.filter fun item => number item == index) =
      items := by
  have picked : ∀ bound, ((List.range bound).flatMap fun index =>
      items.filter fun item => number item == index) =
        items.filter fun item => number item < bound := by
    intro bound
    induction bound with
    | zero => simp
    | succ bound ih =>
        rw [List.range_succ, List.flatMap_append, ih, List.flatMap_singleton,
          filter_lt_append_filter_eq increasing]
  rw [picked, List.filter_eq_self]
  intro item member
  exact decide_eq_true (inside item member)

end Numbered

/-- Entries on the diagonal that go down from one to the next are stored as they are. -/
theorem entries_ofEntries_of_diagonal {size : Nat} {entries : List (MatrixEntry K)}
    (diagonal : ∀ entry ∈ entries, entry.row = entry.column)
    (increasing : entries.Pairwise fun left right => left.column < right.column)
    (inside : ∀ entry ∈ entries, entry.column < size) :
    (ofEntries size size entries).entries = entries := by
  have nothingDropped : entries.filter (fits size size) = entries := by
    rw [List.filter_eq_self]
    intro entry member
    exact fits_iff.2 ⟨(diagonal entry member).trans_lt (inside entry member), inside entry member⟩
  have ownColumn : ∀ index, (collectColumn entries index).map (fun stored =>
      (⟨stored.1, index, stored.2⟩ : MatrixEntry K)) =
        entries.filter fun entry => entry.column == index := by
    intro index
    have rowsIncrease : (entries.filter fun entry => entry.column == index).Pairwise
        fun left right => left.row < right.row := by
      apply (increasing.filter _).imp_of_mem
      intro left right leftMember rightMember below
      rw [diagonal left (List.mem_of_mem_filter leftMember),
        diagonal right (List.mem_of_mem_filter rightMember)]
      exact below
    rw [collectColumn_of_increasing rowsIncrease, List.map_map]
    refine (List.map_congr_left ?_).trans (List.map_id _)
    intro entry member
    have atIndex := (List.mem_filter.1 member).2
    rw [Function.comp_apply, ← beq_iff_eq.1 atIndex]
    rfl
  rw [entries_ofEntries, nothingDropped]
  simp only [ownColumn]
  exact flatMap_range_filter increasing inside

end Increasing

end SparseMatrix

end HingeLoss
