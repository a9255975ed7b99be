import HingeLoss.Program.Sparse
import HingeLoss.Proofs.Scalar
import Mathlib.Algebra.BigOperators.Group.Finset.Basic
import Mathlib.Algebra.BigOperators.Group.List.Lemmas
import Mathlib.Algebra.BigOperators.Ring.Finset

/-!
# Sparse matrices as sums of entries

A matrix that collects a list of entries has at each position the sum of the entries that belong
there. Products with a vector are therefore sums over the entries, in whatever order and however
often a position was given.
-/

namespace HingeLoss

namespace SparseMatrix

section Columns

variable {K : Type}

theorem getD_runningSums {start index : Nat} {lengths : List Nat}
    (inside : index ≤ lengths.length) :
    (runningSums start lengths).getD index 0 = start + (lengths.take index).sum := by
  induction lengths generalizing start index with
  | nil =>
      have atZero : index = 0 := by simpa using inside
      simp [atZero, runningSums]
  | cons head rest ih =>
      cases index with
      | zero => simp [runningSums]
      | succ index =>
          have insideRest : index ≤ rest.length := by simpa using inside
          simp only [runningSums, List.getD_cons_succ, ih insideRest, List.take_succ_cons,
            List.sum_cons, Nat.add_assoc]

/-- The compressed columns can be read back one by one. -/
theorem column_ofColumns {rowCount index : Nat} {columns : List (List (Nat × K))}
    (inside : index < columns.length) :
    (ofColumns rowCount columns).column index = columns[index] := by
  have inLengths : index < (columns.map List.length).length := by simpa using inside
  have size : ((columns.map List.length).take (index + 1)).sum =
      ((columns.map List.length).take index).sum + columns[index].length := by
    rw [List.take_add_one, List.getElem?_eq_getElem inLengths]
    simp
  have entries : (columns.flatten.map Prod.fst).zip (columns.flatten.map Prod.snd) =
      columns.flatten := by
    rw [List.zip_map']
    exact List.map_id _
  simp only [column, ofColumns, getD_runningSums inLengths.le, getD_runningSums inLengths, entries,
    Nat.zero_add, size, Nat.add_sub_cancel_left]
  rw [List.drop_sum_flatten, List.drop_eq_getElem_cons inside, List.flatten_cons,
    List.take_left]

end Columns

section Collecting

/-- The sum of what is stored in a column, each number multiplied by a weight of its row. -/
def columnSum (weight : Nat → ℚ) (column : List (Nat × ℚ)) : ℚ :=
  (column.map fun entry => entry.2 * weight entry.1).sum

theorem columnSum_insertRow (weight : Nat → ℚ) (column : List (Nat × ℚ)) (inserted : Nat)
    (value : ℚ) :
    columnSum weight (insertRow inserted value column) =
      columnSum weight column + value * weight inserted := by
  induction column with
  | nil => simp [insertRow, columnSum]
  | cons head rest ih =>
      rcases head with ⟨headRow, stored⟩
      simp only [insertRow]
      split
      case isTrue =>
        simp only [columnSum, List.map_cons, List.sum_cons]
        ring
      case isFalse =>
        split
        case isTrue same =>
          simp only [columnSum, List.map_cons, List.sum_cons, same]
          ring
        case isFalse =>
          simp only [columnSum, List.map_cons, List.sum_cons] at ih ⊢
          rw [ih]
          ring

/-- Collecting the entries of a column loses nothing of them, however often a row was given. -/
theorem columnSum_collectColumn (weight : Nat → ℚ) (entries : List (MatrixEntry ℚ)) (index : Nat) :
    columnSum weight (collectColumn entries index) =
      (entries.map fun entry =>
        if entry.column = index then entry.value * weight entry.row else 0).sum := by
  have collected : ∀ column : List (Nat × ℚ),
      columnSum weight ((entries.filter fun entry => entry.column == index).foldl
          (fun column entry => insertRow entry.row entry.value column) column) =
        columnSum weight column + (entries.map fun entry =>
          if entry.column = index then entry.value * weight entry.row else 0).sum := by
    induction entries with
    | nil => simp
    | cons entry rest ih =>
        intro column
        by_cases belongs : entry.column = index
        · simp [belongs, ih, columnSum_insertRow, add_assoc]
        · simp [belongs, ih]
  have empty : columnSum weight [] = 0 := rfl
  rw [collectColumn, collected, empty, zero_add]

/-- Sums over the columns of what belongs to each of them are sums over all entries. -/
theorem sum_columns {count : Nat} {entries : List (MatrixEntry ℚ)}
    (fitting : ∀ entry ∈ entries, entry.column < count) (value : MatrixEntry ℚ → Nat → ℚ) :
    ∑ column ∈ Finset.range count, (entries.map fun entry =>
        if entry.column = column then value entry column else 0).sum =
      (entries.map fun entry => value entry entry.column).sum := by
  induction entries with
  | nil => simp
  | cons entry rest ih =>
      rw [List.forall_mem_cons] at fitting
      have columnInside : entry.column ∈ Finset.range count := Finset.mem_range.2 fitting.1
      simp only [List.map_cons, List.sum_cons, Finset.sum_add_distrib, Finset.sum_ite_eq,
        columnInside, if_true, ih fitting.2]

end Collecting

def rowTotal (column : List (Nat × ℚ)) (row : Nat) : ℚ :=
  (column.map fun entry => if entry.1 = row then entry.2 else 0).sum

theorem rowTotal_eq_columnSum (column : List (Nat × ℚ)) (row : Nat) :
    rowTotal column row = columnSum (fun other => if other = row then 1 else 0) column := by
  simp [rowTotal, columnSum]

theorem rowTotal_collectColumn (entries : List (MatrixEntry ℚ)) (index row : Nat) :
    rowTotal (collectColumn entries index) row =
      (entries.map fun entry =>
        if entry.row = row ∧ entry.column = index then entry.value else 0).sum := by
  rw [rowTotal_eq_columnSum, columnSum_collectColumn]
  congr 1
  apply List.map_congr_left
  intro entry _
  by_cases belongs : entry.column = index
  · simp [belongs]
  · simp [belongs]

theorem denseAt_eq_rowTotal (matrix : SparseMatrix ℚ) (row column : Nat) :
    matrix.denseAt row column = rowTotal (matrix.column column) row := by
  rw [denseAt, Scalar.total_eq_sum, rowTotal]
  induction matrix.column column with
  | nil => simp
  | cons entry rest ih =>
      by_cases belongs : entry.1 = row
      · simp [belongs, ih]
      · simp [belongs, ih]

section Sizes

variable {K : Type} [Scalar K] {rowCount columnCount : Nat} {entries : List (MatrixEntry K)}

omit [Scalar K] in
theorem fits_iff {entry : MatrixEntry K} :
    fits rowCount columnCount entry = true ↔ entry.row < rowCount ∧ entry.column < columnCount := by
  simp [fits]

@[simp]
theorem rowCount_ofEntries : (ofEntries rowCount columnCount entries).rowCount = rowCount := rfl

@[simp]
theorem columnCount_ofEntries :
    (ofEntries rowCount columnCount entries).columnCount = columnCount := by
  simp [ofEntries, ofColumns]

/-- A column of the collected matrix collects the entries that belong to it. -/
theorem column_ofEntries {index : Nat} (inside : index < columnCount) :
    (ofEntries rowCount columnCount entries).column index =
      collectColumn (entries.filter (fits rowCount columnCount)) index := by
  have inColumns : index < ((List.range columnCount).map
      (collectColumn (entries.filter (fits rowCount columnCount)))).length := by
    simpa using inside
  rw [ofEntries, column_ofColumns inColumns, List.getElem_map, List.getElem_range]

end Sizes

section Collected

variable {rowCount columnCount : Nat} {entries : List (MatrixEntry ℚ)}

/-- A position inside the matrix holds the sum of the entries that were given for it. -/
theorem denseAt_ofEntries {row column : Nat} (rowInside : row < rowCount)
    (columnInside : column < columnCount) :
    (ofEntries rowCount columnCount entries).denseAt row column =
      (entries.map fun entry =>
        if entry.row = row ∧ entry.column = column then entry.value else 0).sum := by
  rw [denseAt_eq_rowTotal, column_ofEntries columnInside, rowTotal_collectColumn]
  -- An entry that was dropped does not belong to this position.
  induction entries with
  | nil => simp
  | cons entry rest ih =>
      by_cases fitting : fits rowCount columnCount entry = true
      · simp only [List.filter_cons_of_pos fitting, List.map_cons, List.sum_cons, ih]
      · have elsewhere : ¬(entry.row = row ∧ entry.column = column) := by
          rintro ⟨rfl, rfl⟩
          exact fitting (fits_iff.2 ⟨rowInside, columnInside⟩)
        rw [List.filter_cons_of_neg fitting, List.map_cons, List.sum_cons, if_neg elsewhere,
          zero_add]
        exact ih

theorem apply_eq_sum (matrix : SparseMatrix ℚ) (vector : Nat → ℚ) (row : Nat) :
    matrix.apply vector row =
      ∑ column ∈ Finset.range matrix.columnCount, matrix.denseAt row column * vector column := by
  rw [apply, Scalar.total_eq_sum]
  rfl

/-- A row of the product with a vector is a sum over the entries of that row. -/
theorem apply_ofEntries (fitting : ∀ entry ∈ entries, entry.column < columnCount)
    (vector : Nat → ℚ) {row : Nat} (rowInside : row < rowCount) :
    (ofEntries rowCount columnCount entries).apply vector row =
      (entries.map fun entry =>
        if entry.row = row then entry.value * vector entry.column else 0).sum := by
  have positions : ∀ column ∈ Finset.range columnCount,
      (ofEntries rowCount columnCount entries).denseAt row column * vector column =
        (entries.map fun entry => if entry.column = column then
          if entry.row = row then entry.value * vector column else 0 else 0).sum := by
    intro column member
    rw [denseAt_ofEntries rowInside (Finset.mem_range.1 member), ← List.sum_map_mul_right]
    congr 1
    apply List.map_congr_left
    intro entry _
    by_cases belongs : entry.column = column
    · simp [belongs]
    · simp [belongs]
  rw [apply_eq_sum, columnCount_ofEntries, Finset.sum_congr rfl positions]
  exact sum_columns fitting fun entry column =>
    if entry.row = row then entry.value * vector column else 0

theorem sum_entries (matrix : SparseMatrix ℚ) (weight : Nat → Nat → ℚ) :
    (matrix.entries.map fun entry => entry.value * weight entry.row entry.column).sum =
      ∑ column ∈ Finset.range matrix.columnCount,
        columnSum (fun row => weight row column) (matrix.column column) := by
  rw [entries, List.map_flatMap, List.flatMap_def, List.sum_flatten, List.map_map]
  simp only [List.map_map]
  rfl

/-- The stored entries weigh as much as the entries that were given. -/
theorem sum_entries_ofEntries (rowsFit : ∀ entry ∈ entries, entry.row < rowCount)
    (columnsFit : ∀ entry ∈ entries, entry.column < columnCount) (weight : Nat → Nat → ℚ) :
    ((ofEntries rowCount columnCount entries).entries.map fun entry =>
        entry.value * weight entry.row entry.column).sum =
      (entries.map fun entry => entry.value * weight entry.row entry.column).sum := by
  have nothingDropped : entries.filter (fits rowCount columnCount) = entries := by
    rw [List.filter_eq_self]
    intro entry entry_mem
    exact fits_iff.2 ⟨rowsFit entry entry_mem, columnsFit entry entry_mem⟩
  have columnSums : ∀ column ∈ Finset.range columnCount,
      columnSum (fun row => weight row column)
          ((ofEntries rowCount columnCount entries).column column) =
        (entries.map fun entry => if entry.column = column then
          entry.value * weight entry.row column else 0).sum := by
    intro column member
    rw [column_ofEntries (Finset.mem_range.1 member), nothingDropped, columnSum_collectColumn]
  rw [sum_entries, columnCount_ofEntries, Finset.sum_congr rfl columnSums]
  exact sum_columns columnsFit fun entry column => entry.value * weight entry.row column

end Collected

section Symmetric

/-- The symmetric matrix of which only the upper triangle is stored. -/
def symmetricAt {K : Type} [Scalar K] (matrix : SparseMatrix K) (row column : Nat) : K :=
  matrix.denseAt (min row column) (max row column)

theorem sum_at_position {size first second : Nat} (value : ℚ) (point : Nat → ℚ)
    (firstInside : first < size) (secondInside : second < size) :
    ∑ i ∈ Finset.range size, ∑ j ∈ Finset.range size,
        point i * (if first = i then if second = j then value else 0 else 0) * point j =
      value * point first * point second := by
  have inner : ∀ i, ∑ j ∈ Finset.range size,
      point i * (if first = i then if second = j then value else 0 else 0) * point j =
        if first = i then point i * value * point second else 0 := by
    intro i
    split
    case isTrue => simp [secondInside]
    case isFalse => simp
  rw [Finset.sum_congr rfl fun i _ => inner i]
  simp only [Finset.sum_ite_eq, Finset.mem_range, firstInside, if_true]
  ring

/-- An entry above the diagonal counts twice in the symmetric matrix, one on it counts once. -/
theorem sum_symmetric_entry {size row column : Nat} (value : ℚ) (point : Nat → ℚ)
    (upper : row ≤ column) (inside : column < size) :
    ∑ i ∈ Finset.range size, ∑ j ∈ Finset.range size,
        point i * (if row = min i j ∧ column = max i j then value else 0) * point j =
      if row = column then value * point row * point column
      else 2 * (value * point row * point column) := by
  have rowInside : row < size := upper.trans_lt inside
  split
  case isTrue same =>
    have position : ∀ i j : Nat, (if row = min i j ∧ column = max i j then value else 0) =
        if row = i then if column = j then value else 0 else 0 := by
      intro i j
      split_ifs
      all_goals first | rfl | omega
    simp only [position, sum_at_position value point rowInside inside]
  case isFalse different =>
    have position : ∀ i j : Nat, (if row = min i j ∧ column = max i j then value else 0) =
        (if row = i then if column = j then value else 0 else 0) +
          (if column = i then if row = j then value else 0 else 0) := by
      intro i j
      split_ifs
      all_goals first | omega | simp
    simp only [position, mul_add, add_mul, Finset.sum_add_distrib,
      sum_at_position value point rowInside inside, sum_at_position value point inside rowInside]
    ring

/-- The symmetric product with a point is a sum over the entries of the upper triangle. -/
theorem sum_symmetricAt_ofEntries {size : Nat} {entries : List (MatrixEntry ℚ)}
    (upper : ∀ entry ∈ entries, entry.row ≤ entry.column)
    (inside : ∀ entry ∈ entries, entry.column < size) (point : Nat → ℚ) :
    ∑ i ∈ Finset.range size, ∑ j ∈ Finset.range size,
        point i * (ofEntries size size entries).symmetricAt i j * point j =
      (entries.map fun entry =>
        if entry.row = entry.column then entry.value * point entry.row * point entry.column
        else 2 * (entry.value * point entry.row * point entry.column)).sum := by
  have positions : ∀ i ∈ Finset.range size, ∀ j ∈ Finset.range size,
      point i * (ofEntries size size entries).symmetricAt i j * point j =
        point i * (entries.map fun entry => if entry.row = min i j ∧ entry.column = max i j then
          entry.value else 0).sum * point j := by
    intro i i_mem j j_mem
    have iInside := Finset.mem_range.1 i_mem
    have jInside := Finset.mem_range.1 j_mem
    rw [symmetricAt, denseAt_ofEntries (by omega) (by omega)]
  rw [Finset.sum_congr rfl fun i i_mem => Finset.sum_congr rfl (positions i i_mem)]
  clear positions
  induction entries with
  | nil => simp
  | cons entry rest ih =>
      have first := sum_symmetric_entry entry.value point (upper entry List.mem_cons_self)
        (inside entry List.mem_cons_self)
      simp only [List.map_cons, List.sum_cons, mul_add, add_mul, Finset.sum_add_distrib, first]
      rw [ih (fun other member => upper other (List.mem_cons_of_mem _ member))
        (fun other member => inside other (List.mem_cons_of_mem _ member))]

end Symmetric

end SparseMatrix

end HingeLoss
