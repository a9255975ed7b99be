import HingeLoss.Proofs.Program.Compressed
import Mathlib.Data.List.GetD

/-!
# Collected entries

Size, stored positions and dense form determine a compressed matrix. A list of entries therefore has
exactly one compressed matrix that collects it: the order of the list does not matter, and a
compressed matrix is collected again from its own entries.
-/

namespace HingeLoss

variable {K : Type}

def MatrixEntry.position (entry : MatrixEntry K) : Nat × Nat := (entry.row, entry.column)

namespace SparseMatrix

/-- The sum of the entries that were given for a position. -/
def totalAt (entries : List (MatrixEntry ℚ)) (row column : Nat) : ℚ :=
  (entries.map fun entry =>
    if entry.row = row ∧ entry.column = column then entry.value else 0).sum

/-- A compressed matrix that stores the positions inside of it for which entries were given, and
holds at each position the sum of the entries given for it. -/
structure Collects (rowCount columnCount : Nat) (entries : List (MatrixEntry ℚ))
    (matrix : SparseMatrix ℚ) : Prop where
  rowCount_eq : matrix.rowCount = rowCount
  columnCount_eq : matrix.columnCount = columnCount
  compressed : matrix.IsCompressed
  positions : ∀ row column, (row, column) ∈ matrix.entries.map MatrixEntry.position ↔
    row < rowCount ∧ column < columnCount ∧ (row, column) ∈ entries.map MatrixEntry.position
  dense : matrix.dense = (List.range rowCount).map fun row =>
    (List.range columnCount).map fun column => totalAt entries row column

section Positions

theorem mem_positions {entries : List (MatrixEntry K)} {row column : Nat} :
    (row, column) ∈ entries.map MatrixEntry.position ↔
      ∃ entry ∈ entries, entry.row = row ∧ entry.column = column := by
  simp only [List.mem_map, MatrixEntry.position, Prod.mk.injEq]

theorem mem_positions_entries (matrix : SparseMatrix K) {row column : Nat} :
    (row, column) ∈ matrix.entries.map MatrixEntry.position ↔
      column < matrix.columnCount ∧ row ∈ (matrix.column column).map Prod.fst := by
  rw [mem_positions, entries]
  constructor
  · rintro ⟨entry, member, rfl, rfl⟩
    rcases List.mem_flatMap.1 member with ⟨index, inside, inColumn⟩
    rcases List.mem_map.1 inColumn with ⟨stored, stored_mem, rfl⟩
    exact ⟨List.mem_range.1 inside, List.mem_map_of_mem stored_mem⟩
  · rintro ⟨inside, inRows⟩
    rcases List.mem_map.1 inRows with ⟨stored, stored_mem, rfl⟩
    refine ⟨⟨stored.1, column, stored.2⟩, ?_, rfl, rfl⟩
    exact List.mem_flatMap.2
      ⟨column, List.mem_range.2 inside, List.mem_map.2 ⟨stored, stored_mem, rfl⟩⟩

variable [Scalar K]

theorem mem_rows_insertRow {inserted row : Nat} {value : K} {column : List (Nat × K)} :
    row ∈ (insertRow inserted value column).map Prod.fst ↔
      row = inserted ∨ row ∈ column.map Prod.fst := by
  induction column with
  | nil => simp [insertRow]
  | cons head rest ih =>
      simp only [insertRow]
      split
      case isTrue => simp only [List.map_cons, List.mem_cons]
      case isFalse =>
        split
        case isTrue same => simp only [List.map_cons, List.mem_cons, same, or_self_left]
        case isFalse => simp only [List.map_cons, List.mem_cons, ih, or_left_comm]

/-- A column stores exactly the rows that were given for it, whatever their values. -/
theorem mem_rows_collectColumn {entries : List (MatrixEntry K)} {row index : Nat} :
    row ∈ (collectColumn entries index).map Prod.fst ↔
      (row, index) ∈ entries.map MatrixEntry.position := by
  have collected : ∀ column : List (Nat × K),
      row ∈ ((entries.filter fun entry => entry.column == index).foldl
          (fun column entry => insertRow entry.row entry.value column) column).map Prod.fst ↔
        row ∈ column.map Prod.fst ∨ (row, index) ∈ entries.map MatrixEntry.position := by
    induction entries with
    | nil => simp
    | cons entry rest ih =>
        intro column
        by_cases belongs : entry.column = index
        · simp only [belongs, List.filter_cons, beq_self_eq_true, if_true, List.foldl_cons, ih,
            mem_rows_insertRow, List.map_cons, List.mem_cons, MatrixEntry.position, Prod.mk.injEq,
            and_true]
          tauto
        · simp only [List.filter_cons, beq_iff_eq, belongs, if_false, ih, List.map_cons,
            List.mem_cons, MatrixEntry.position, Prod.mk.injEq, Ne.symm belongs, and_false,
            false_or]
  rw [collectColumn, collected, List.map_nil, List.mem_nil_iff, false_or]

theorem mem_positions_ofEntries {rowCount columnCount : Nat} {entries : List (MatrixEntry K)}
    {row column : Nat} :
    (row, column) ∈ (ofEntries rowCount columnCount entries).entries.map MatrixEntry.position ↔
      row < rowCount ∧ column < columnCount ∧ (row, column) ∈ entries.map MatrixEntry.position := by
  rw [mem_positions_entries, columnCount_ofEntries]
  constructor
  · rintro ⟨columnInside, inRows⟩
    rw [column_ofEntries columnInside, mem_rows_collectColumn, mem_positions] at inRows
    rcases inRows with ⟨entry, member, rfl, rfl⟩
    rcases List.mem_filter.1 member with ⟨given, fitting⟩
    rcases fits_iff.1 fitting with ⟨rowInside, -⟩
    exact ⟨rowInside, columnInside, mem_positions.2 ⟨entry, given, rfl, rfl⟩⟩
  · rintro ⟨rowInside, columnInside, given⟩
    rcases mem_positions.1 given with ⟨entry, member, rfl, rfl⟩
    refine ⟨columnInside, ?_⟩
    rw [column_ofEntries columnInside, mem_rows_collectColumn, mem_positions]
    exact ⟨entry, List.mem_filter.2 ⟨member, fits_iff.2 ⟨rowInside, columnInside⟩⟩, rfl, rfl⟩

end Positions

section Slices

variable {matrix : SparseMatrix K}

theorem IsCompressed.offset_le_offset (compressed : matrix.IsCompressed) {index : Nat}
    (inside : index < matrix.columnCount) :
    matrix.offsets.getD index 0 ≤ matrix.offsets.getD (index + 1) 0 := by
  have indexInside : index < matrix.offsets.length := by rw [compressed.columns]; omega
  have nextInside : index + 1 < matrix.offsets.length := by rw [compressed.columns]; omega
  rw [List.getD_eq_getElem _ _ indexInside, List.getD_eq_getElem _ _ nextInside]
  exact List.pairwise_iff_getElem.1 compressed.monotone index (index + 1) indexInside nextInside
    (Nat.lt_succ_self index)

theorem IsCompressed.getD_columnCount (compressed : matrix.IsCompressed) :
    matrix.offsets.getD matrix.columnCount 0 = (matrix.rows.zip matrix.values).length := by
  have last := compressed.last
  rw [List.getLast?_eq_getElem?, compressed.columns, Nat.add_sub_cancel] at last
  rw [List.getD_eq_getElem?_getD, last, Option.getD_some, List.length_zip, compressed.paired,
    Nat.min_self]

/-- The columns before an index make up what is stored before its offset. -/
theorem IsCompressed.flatten_columns (compressed : matrix.IsCompressed) {index : Nat}
    (inside : index ≤ matrix.columnCount) :
    ((List.range index).map matrix.column).flatten =
      (matrix.rows.zip matrix.values).take (matrix.offsets.getD index 0) := by
  induction index with
  | zero =>
      have first := compressed.first
      rw [List.head?_eq_getElem?] at first
      rw [List.getD_eq_getElem?_getD, first]
      rfl
  | succ index ih =>
      have monotone := compressed.offset_le_offset inside
      rw [List.range_succ, List.map_append, List.flatten_append, ih (Nat.le_of_succ_le inside),
        List.map_singleton, List.flatten_singleton, column, ← List.take_add,
        Nat.add_sub_cancel' monotone]

theorem IsCompressed.offset_le_length (compressed : matrix.IsCompressed) {index : Nat}
    (inside : index ≤ matrix.columnCount) :
    matrix.offsets.getD index 0 ≤ (matrix.rows.zip matrix.values).length := by
  rw [← compressed.getD_columnCount]
  induction inside using Nat.decreasingInduction with
  | self => exact le_rfl
  | of_succ index below ih => exact (compressed.offset_le_offset below).trans ih

/-- A compressed matrix is put together again from its columns. -/
theorem IsCompressed.ofColumns_columns (compressed : matrix.IsCompressed) :
    ofColumns matrix.rowCount ((List.range matrix.columnCount).map matrix.column) = matrix := by
  have stored : ((List.range matrix.columnCount).map matrix.column).flatten =
      matrix.rows.zip matrix.values := by
    rw [compressed.flatten_columns le_rfl, compressed.getD_columnCount, List.take_length]
  have offsets : runningSums 0 (((List.range matrix.columnCount).map matrix.column).map
      List.length) = matrix.offsets := by
    apply List.ext_getElem
    · rw [length_runningSums, List.length_map, List.length_map, List.length_range,
        compressed.columns]
    · intro index inSums inOffsets
      have inside : index ≤ matrix.columnCount := by
        rw [compressed.columns] at inOffsets
        exact Nat.le_of_lt_succ inOffsets
      have inLengths : index ≤ (((List.range matrix.columnCount).map matrix.column).map
          List.length).length := by simpa using inside
      rw [← List.getD_eq_getElem _ 0 inSums, ← List.getD_eq_getElem _ 0 inOffsets,
        getD_runningSums inLengths, Nat.zero_add, ← List.map_take, ← List.map_take,
        List.take_range, Nat.min_eq_left inside, ← List.length_flatten,
        compressed.flatten_columns inside, List.length_take,
        Nat.min_eq_left (compressed.offset_le_length inside)]
  rcases matrix with ⟨rowCount, columnCount, givenOffsets, rows, values⟩
  rw [ofColumns, stored, offsets, List.map_fst_zip compressed.paired.le,
    List.map_snd_zip compressed.paired.ge, List.length_map, List.length_range]

theorem IsCompressed.row_lt_of_mem (compressed : matrix.IsCompressed) {index row : Nat}
    (member : row ∈ (matrix.column index).map Prod.fst) : row < matrix.rowCount := by
  rcases List.mem_map.1 member with ⟨stored, stored_mem, rfl⟩
  have paired := List.mem_of_mem_drop (List.mem_of_mem_take stored_mem)
  exact compressed.inside stored.1 (List.of_mem_zip paired).1

end Slices

section Extensionality

/-- A row of an increasing column has the number that is stored with it. -/
theorem mem_iff_rowTotal {column : List (Nat × ℚ)}
    (increasing : (column.map Prod.fst).Pairwise (· < ·)) {row : Nat} {value : ℚ} :
    (row, value) ∈ column ↔ row ∈ column.map Prod.fst ∧ rowTotal column row = value := by
  induction column with
  | nil => simp
  | cons head rest ih =>
      rcases head with ⟨headRow, stored⟩
      rw [List.map_cons, List.pairwise_cons] at increasing
      have restTotal : rowTotal ((headRow, stored) :: rest) row =
          (if headRow = row then stored else 0) + rowTotal rest row := rfl
      by_cases atHead : headRow = row
      · subst atHead
        have notInRest : headRow ∉ rest.map Prod.fst := fun member =>
          Nat.lt_irrefl headRow (increasing.1 headRow member)
        have nothingBelow : rowTotal rest headRow = 0 := by
          rw [rowTotal, List.sum_eq_zero]
          rw [List.forall_mem_map]
          intro other member
          rw [if_neg]
          rintro rfl
          exact notInRest (List.mem_map_of_mem member)
        have valueNotInRest : (headRow, value) ∉ rest := fun member =>
          notInRest (List.mem_map_of_mem member)
        simp [restTotal, nothingBelow, valueNotInRest, eq_comm]
      · have different : row ≠ headRow := Ne.symm atHead
        rw [restTotal, if_neg atHead, zero_add, List.map_cons, List.mem_cons, List.mem_cons, ih
          increasing.2, Prod.mk.injEq]
        simp only [different, false_and, false_or]

theorem column_eq_of_rowTotal {left right : List (Nat × ℚ)}
    (leftIncreasing : (left.map Prod.fst).Pairwise (· < ·))
    (rightIncreasing : (right.map Prod.fst).Pairwise (· < ·))
    (rows : ∀ row, row ∈ left.map Prod.fst ↔ row ∈ right.map Prod.fst)
    (totals : ∀ row ∈ left.map Prod.fst, rowTotal left row = rowTotal right row) :
    left = right := by
  have members : ∀ stored, stored ∈ left ↔ stored ∈ right := by
    rintro ⟨row, value⟩
    rw [mem_iff_rowTotal leftIncreasing, mem_iff_rowTotal rightIncreasing, ← rows]
    exact and_congr_right fun member => by rw [totals row member]
  have leftSorted := List.pairwise_map.1 leftIncreasing
  have rightSorted := List.pairwise_map.1 rightIncreasing
  have nodup : ∀ {column : List (Nat × ℚ)},
      column.Pairwise (fun first second => first.1 < second.1) → column.Nodup :=
    fun sorted => sorted.imp fun below same => below.ne (congrArg Prod.fst same)
  apply List.Perm.eq_of_pairwise _ leftSorted rightSorted
    ((List.perm_ext_iff_of_nodup (nodup leftSorted) (nodup rightSorted)).2 members)
  intro first second _ _ below above
  exact absurd below (Nat.lt_asymm above)

theorem dense_eq_iff (matrix : SparseMatrix ℚ) (table : Nat → Nat → ℚ) :
    matrix.dense = ((List.range matrix.rowCount).map fun row =>
        (List.range matrix.columnCount).map fun column => table row column) ↔
      ∀ row < matrix.rowCount, ∀ column < matrix.columnCount,
        matrix.denseAt row column = table row column := by
  simp only [dense, List.map_inj_left, List.mem_range]

namespace Collects

variable {rowCount columnCount : Nat} {entries : List (MatrixEntry ℚ)} {matrix : SparseMatrix ℚ}

theorem mem_rows_iff (collects : Collects rowCount columnCount entries matrix) {row column : Nat}
    (inside : column < columnCount) :
    row ∈ (matrix.column column).map Prod.fst ↔
      row < rowCount ∧ (row, column) ∈ entries.map MatrixEntry.position := by
  have stored := collects.positions row column
  rw [mem_positions_entries, collects.columnCount_eq] at stored
  simpa only [inside, true_and] using stored

theorem rowTotal_eq (collects : Collects rowCount columnCount entries matrix) {row column : Nat}
    (rowInside : row < rowCount) (columnInside : column < columnCount) :
    rowTotal (matrix.column column) row = totalAt entries row column := by
  rcases collects with ⟨rfl, rfl, -, -, dense⟩
  rw [← denseAt_eq_rowTotal]
  exact (dense_eq_iff matrix (totalAt entries)).1 dense row rowInside column columnInside

/-- Only one compressed matrix has a given size, given stored positions and a given dense form. -/
theorem unique {other : SparseMatrix ℚ} (collects : Collects rowCount columnCount entries matrix)
    (otherCollects : Collects rowCount columnCount entries other) : matrix = other := by
  have columns : (List.range columnCount).map matrix.column =
      (List.range columnCount).map other.column := by
    apply List.map_congr_left
    intro index member
    have inside := List.mem_range.1 member
    apply column_eq_of_rowTotal
    · exact collects.compressed.increasing index (collects.columnCount_eq ▸ inside)
    · exact otherCollects.compressed.increasing index (otherCollects.columnCount_eq ▸ inside)
    · intro row
      rw [collects.mem_rows_iff inside, otherCollects.mem_rows_iff inside]
    · intro row stored
      have rowInside := ((collects.mem_rows_iff inside).1 stored).1
      rw [collects.rowTotal_eq rowInside inside, otherCollects.rowTotal_eq rowInside inside]
  rw [← collects.compressed.ofColumns_columns, ← otherCollects.compressed.ofColumns_columns,
    collects.rowCount_eq, otherCollects.rowCount_eq, collects.columnCount_eq,
    otherCollects.columnCount_eq, columns]

end Collects

end Extensionality

section Collected

variable {rowCount columnCount : Nat} {entries : List (MatrixEntry ℚ)}

theorem collects_ofEntries (rowCount columnCount : Nat) (entries : List (MatrixEntry ℚ)) :
    Collects rowCount columnCount entries (ofEntries rowCount columnCount entries) where
  rowCount_eq := rowCount_ofEntries
  columnCount_eq := columnCount_ofEntries
  compressed := isCompressed_ofEntries rowCount columnCount entries
  positions _ _ := mem_positions_ofEntries
  dense := by
    have filled := dense_eq_iff (ofEntries rowCount columnCount entries) (totalAt entries)
    rw [rowCount_ofEntries, columnCount_ofEntries] at filled
    exact filled.2 fun row rowInside column columnInside =>
      denseAt_ofEntries rowInside columnInside

theorem Collects.of_perm {others : List (MatrixEntry ℚ)} {matrix : SparseMatrix ℚ}
    (collects : Collects rowCount columnCount entries matrix) (reordered : entries.Perm others) :
    Collects rowCount columnCount others matrix where
  rowCount_eq := collects.rowCount_eq
  columnCount_eq := collects.columnCount_eq
  compressed := collects.compressed
  positions row column := by
    rw [collects.positions, (reordered.map MatrixEntry.position).mem_iff]
  dense := by
    have totals : totalAt entries = totalAt others := by
      funext row column
      exact (reordered.map _).sum_eq
    rw [collects.dense, totals]

/-- The number at a position is the sum of the stored entries there. -/
theorem denseAt_eq_totalAt (matrix : SparseMatrix ℚ) {row column : Nat}
    (inside : column < matrix.columnCount) :
    matrix.denseAt row column = totalAt matrix.entries row column := by
  have weighted := sum_entries matrix fun otherRow otherColumn =>
    if otherRow = row ∧ otherColumn = column then 1 else 0
  have elsewhere : ∀ other ∈ Finset.range matrix.columnCount, other ≠ column →
      columnSum (fun otherRow => if otherRow = row ∧ other = column then 1 else 0)
        (matrix.column other) = 0 := by
    intro other _ different
    simp [columnSum, different]
  rw [Finset.sum_eq_single_of_mem column (Finset.mem_range.2 inside) elsewhere] at weighted
  rw [denseAt_eq_rowTotal, rowTotal_eq_columnSum]
  simpa [totalAt] using weighted.symm

theorem IsCompressed.collects_entries {matrix : SparseMatrix ℚ}
    (compressed : matrix.IsCompressed) :
    Collects matrix.rowCount matrix.columnCount matrix.entries matrix where
  rowCount_eq := rfl
  columnCount_eq := rfl
  compressed := compressed
  positions row column := by
    rw [mem_positions_entries]
    constructor
    · rintro ⟨inside, stored⟩
      exact ⟨compressed.row_lt_of_mem stored, inside, inside, stored⟩
    · rintro ⟨-, -, stored⟩
      exact stored
  dense := (dense_eq_iff matrix (totalAt matrix.entries)).2 fun _ _ _ inside =>
    denseAt_eq_totalAt matrix inside

theorem IsCompressed.ofEntries_entries {matrix : SparseMatrix ℚ}
    (compressed : matrix.IsCompressed) :
    ofEntries matrix.rowCount matrix.columnCount matrix.entries = matrix :=
  (collects_ofEntries _ _ _).unique compressed.collects_entries

/-- Whatever entries are given, inside of the matrix or not, exactly one matrix collects them. The
order of the entries makes no difference to it, and collecting what it stores gives it back. -/
theorem ofEntries_is_collection (rowCount columnCount : Nat) (entries : List (MatrixEntry ℚ)) :
    Collects rowCount columnCount entries (ofEntries rowCount columnCount entries) ∧
      (∀ matrix, Collects rowCount columnCount entries matrix →
        matrix = ofEntries rowCount columnCount entries) ∧
      (∀ others, entries.Perm others →
        ofEntries rowCount columnCount others = ofEntries rowCount columnCount entries) ∧
      ofEntries rowCount columnCount (ofEntries rowCount columnCount entries).entries =
        ofEntries rowCount columnCount entries := by
  have collects := collects_ofEntries rowCount columnCount entries
  refine ⟨collects, fun matrix other => other.unique collects, ?_, ?_⟩
  · intro others reordered
    exact (collects_ofEntries rowCount columnCount others).unique (collects.of_perm reordered)
  · have rebuilt := collects.compressed.ofEntries_entries
    rwa [collects.rowCount_eq, collects.columnCount_eq] at rebuilt

/-- A repeated position, an entry outside of the matrix, an explicit zero and an empty column. -/
theorem ofEntries_is_collection_of_repeats :
    let entries : List (MatrixEntry ℚ) := [⟨1, 0, 2⟩, ⟨0, 2, 1⟩, ⟨5, 0, 7⟩, ⟨1, 0, 3⟩, ⟨0, 0, 0⟩]
    let matrix : SparseMatrix ℚ := ⟨2, 3, [0, 2, 2, 3], [0, 1, 0], [0, 5, 1]⟩
    Collects 2 3 entries matrix ∧ matrix = ofEntries 2 3 entries ∧
      entries.Perm entries.reverse ∧ ofEntries 2 3 entries.reverse = ofEntries 2 3 entries := by
  intro entries matrix
  rcases ofEntries_is_collection 2 3 entries with ⟨collected, unique, orderless, -⟩
  have collects : Collects 2 3 entries matrix := by
    have stored : ofEntries 2 3 entries = matrix := by
      norm_num [entries, matrix, ofEntries, ofColumns, collectColumn, insertRow, runningSums, fits,
        List.range_succ]
    rwa [stored] at collected
  have reordered : entries.Perm entries.reverse := (List.reverse_perm entries).symm
  exact ⟨collects, unique matrix collects, reordered, orderless entries.reverse reordered⟩

end Collected

end SparseMatrix

end HingeLoss
