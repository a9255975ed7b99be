import HingeLoss.Proofs.Program.Storage

/-!
# Compressed columns

A matrix that collects a list of entries is stored as a solver expects it: the offsets share out the
stored entries among the columns, and each column lists its rows once and in increasing order.
-/

namespace HingeLoss

namespace SparseMatrix

variable {K : Type}

/-- The offsets begin at zero, never decrease and end at the number of stored entries, and each
column lists rows of the matrix in increasing order. -/
structure IsCompressed (matrix : SparseMatrix K) : Prop where
  columns : matrix.offsets.length = matrix.columnCount + 1
  first : matrix.offsets.head? = some 0
  monotone : matrix.offsets.Pairwise (· ≤ ·)
  last : matrix.offsets.getLast? = some matrix.values.length
  paired : matrix.rows.length = matrix.values.length
  increasing : ∀ index < matrix.columnCount,
    ((matrix.column index).map Prod.fst).Pairwise (· < ·)
  inside : ∀ row ∈ matrix.rows, row < matrix.rowCount

section Offsets

theorem length_runningSums (start : Nat) (lengths : List Nat) :
    (runningSums start lengths).length = lengths.length + 1 := by
  induction lengths generalizing start with
  | nil => rfl
  | cons head rest ih => rw [runningSums, List.length_cons, ih, List.length_cons]

theorem head?_runningSums (start : Nat) (lengths : List Nat) :
    (runningSums start lengths).head? = some start := by
  cases lengths with
  | nil => rfl
  | cons head rest => rfl

theorem le_of_mem_runningSums {start : Nat} {lengths : List Nat} :
    ∀ offset ∈ runningSums start lengths, start ≤ offset := by
  induction lengths generalizing start with
  | nil => simp [runningSums]
  | cons head rest ih =>
      rw [runningSums, List.forall_mem_cons]
      refine ⟨le_rfl, ?_⟩
      intro offset member
      exact (Nat.le_add_right start head).trans (ih offset member)

theorem pairwise_runningSums (start : Nat) (lengths : List Nat) :
    (runningSums start lengths).Pairwise (· ≤ ·) := by
  induction lengths generalizing start with
  | nil => exact List.pairwise_singleton _ _
  | cons head rest ih =>
      refine List.pairwise_cons.2 ⟨?_, ih _⟩
      intro offset member
      exact (Nat.le_add_right start head).trans (le_of_mem_runningSums offset member)

theorem getLast?_runningSums (start : Nat) (lengths : List Nat) :
    (runningSums start lengths).getLast? = some (start + lengths.sum) := by
  induction lengths generalizing start with
  | nil => rfl
  | cons head rest ih =>
      rw [runningSums, List.getLast?_cons, ih, Option.getD_some, List.sum_cons, Nat.add_assoc]

end Offsets

/-- Columns whose rows increase and lie inside of the matrix are stored compressed. -/
theorem isCompressed_ofColumns {rowCount : Nat} {columns : List (List (Nat × K))}
    (increasing : ∀ column ∈ columns, (column.map Prod.fst).Pairwise (· < ·))
    (inside : ∀ column ∈ columns, ∀ stored ∈ column, stored.1 < rowCount) :
    (ofColumns rowCount columns).IsCompressed where
  columns := by
    rw [ofColumns, length_runningSums, List.length_map]
  first := head?_runningSums 0 _
  monotone := pairwise_runningSums 0 _
  last := by
    rw [ofColumns, getLast?_runningSums, Nat.zero_add, List.length_map, List.length_flatten]
  paired := by
    rw [ofColumns, List.length_map, List.length_map]
  increasing := by
    intro index inColumns
    rw [column_ofColumns inColumns]
    exact increasing _ (List.getElem_mem inColumns)
  inside := by
    change ∀ row ∈ columns.flatten.map Prod.fst, row < rowCount
    rw [List.forall_mem_map]
    intro stored member
    rcases List.mem_flatten.1 member with ⟨column, column_mem, inColumn⟩
    exact inside column column_mem stored inColumn

section Collected

variable [Scalar K]

/-- A row takes the place that keeps the rows increasing, unless it is stored already. -/
theorem pairwise_insertRow (row : Nat) (value : K) {column : List (Nat × K)}
    (increasing : column.Pairwise fun left right => left.1 < right.1) :
    (insertRow row value column).Pairwise fun left right => left.1 < right.1 := by
  induction column with
  | nil => exact List.pairwise_singleton _ _
  | cons head rest ih =>
      rcases head with ⟨headRow, stored⟩
      rcases List.pairwise_cons.1 increasing with ⟨restAbove, restIncreasing⟩
      simp only [insertRow]
      split
      case isTrue below =>
        refine List.pairwise_cons.2 ⟨?_, increasing⟩
        rw [List.forall_mem_cons]
        exact ⟨below, fun other member => below.trans (restAbove other member)⟩
      case isFalse notBelow =>
        split
        case isTrue => exact List.pairwise_cons.2 ⟨restAbove, restIncreasing⟩
        case isFalse different =>
          have above : headRow < row := by omega
          refine List.pairwise_cons.2 ⟨?_, ih restIncreasing⟩
          exact forall_mem_insertRow (fun other _ => headRow < other)
            (fun _ _ _ below _ => below) above restAbove

theorem pairwise_collectColumn (entries : List (MatrixEntry K)) (index : Nat) :
    (collectColumn entries index).Pairwise fun left right => left.1 < right.1 := by
  refine List.foldlRecOn (motive := fun column : List (Nat × K) =>
    column.Pairwise fun left right => left.1 < right.1) _ _ List.Pairwise.nil ?_
  intro column increasing entry _
  exact pairwise_insertRow entry.row entry.value increasing

/-- Whatever entries are given, in whatever order and however often at the same place, they are
stored compressed. -/
theorem isCompressed_ofEntries (rowCount columnCount : Nat) (entries : List (MatrixEntry K)) :
    (ofEntries rowCount columnCount entries).IsCompressed := by
  apply isCompressed_ofColumns
  · rw [List.forall_mem_map]
    intro index _
    exact List.pairwise_map.2 (pairwise_collectColumn _ index)
  · rw [List.forall_mem_map]
    intro index _
    apply forall_mem_collectColumn fun row _ _ => row < rowCount
    · exact fun _ _ _ inside _ => inside
    · intro entry member
      exact (fits_iff.1 (List.mem_filter.1 member).2).1

end Collected

end SparseMatrix

end HingeLoss
