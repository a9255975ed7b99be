import HingeLoss.Proofs.Program.Exactness
import HingeLoss.Proofs.Standard.Lookup

/-!
# Entries of assembled programs

Where the numbers of a program come from, one by one and for numbers of any kind. Each variable of
a form has one coefficient and each column belongs to one variable, so a place in the constraint
matrix holds one coefficient of one form, a linear cost is one coefficient of the objective, and
nothing is added up apart from zeros.
-/

namespace HingeLoss

namespace Columns

variable {columns : Columns} {id other : VarId} {column : Nat}

theorem indexOf_eq_iff (distinct : columns.ids.Nodup) (known : other ∈ columns.ids)
    (atColumn : columns.ids[column]? = some id) : columns.indexOf other = column ↔ other = id := by
  have found := find?_eq_some_indexOf known
  constructor
  · rintro rfl
    exact Option.some.inj ((getElem?_of_find?_eq_some found).symm.trans atColumn)
  · rintro rfl
    rw [(find?_eq_some_iff distinct).2 atColumn] at found
    exact (Option.some.inj found).symm

/-- Only one variable can have its coefficient in the column of another one. -/
theorem filter_indexOf {K : Type} (distinct : columns.ids.Nodup)
    (atColumn : columns.ids[column]? = some id) {coefficients : Coefficients VarId K}
    (known : ∀ id ∈ coefficients.keys, id ∈ columns.ids) :
    coefficients.entries.filter (fun entry => columns.indexOf entry.1 == column) =
      (coefficients.get? id).toList.map fun coefficient => (id, coefficient) := by
  rw [← Coefficients.filter_eq_toList_get?]
  apply List.filter_congr
  intro entry member
  have entryKnown := known entry.1 (List.mem_map_of_mem member)
  rw [Bool.eq_iff_iff, beq_iff_eq, beq_iff_eq, indexOf_eq_iff distinct entryKnown atColumn]

end Columns

namespace ConicProgram

variable {K : Type} [Scalar K] {objective : QuadraticForm K} {cones : List (Cone K)}
  {ids : List VarId} {column : Nat} {id : VarId}

theorem filter_rowEntriesAt (atColumn : (Columns.ofVariables ids).ids[column]? = some id)
    {row : Row K} (known : ∀ id ∈ row.form.variableIds, id ∈ (Columns.ofVariables ids).ids)
    (index : Nat) :
    (rowEntriesAt (.ofVariables ids) row index).filter (fun entry => entry.column == column) =
      (row.form.coefficients.get? id).toList.map fun coefficient =>
        ⟨index, column, coefficient * rowSign row.negated⟩ := by
  have atPlace : (Columns.ofVariables ids).indexOf id = column :=
    (Columns.indexOf_eq_iff (Columns.nodup_ids_ofVariables ids) (List.mem_of_getElem? atColumn)
      atColumn).2 rfl
  rw [rowEntriesAt, List.filter_map]
  change List.map _ (List.filter (fun entry => (Columns.ofVariables ids).indexOf entry.1 == column)
    row.form.coefficients.entries) = _
  rw [Columns.filter_indexOf (Columns.nodup_ids_ofVariables ids) atColumn known, List.map_map]
  apply List.map_congr_left
  intro coefficient _
  rw [Function.comp_apply, atPlace]

theorem fits_of_mem_rowEntriesAt
    (conesKnown : ∀ cone ∈ cones, ∀ id ∈ cone.variableIds, id ∈ ids) :
    ∀ entry ∈ (rowsOf cones).zipIdx.flatMap fun row =>
        rowEntriesAt (Columns.ofVariables ids) row.1 row.2,
      SparseMatrix.fits (rowsOf cones).length (Columns.ofVariables ids).count entry = true := by
  intro entry member
  rcases List.mem_flatMap.1 member with ⟨⟨row, index⟩, row_mem, inRow⟩
  rcases List.mem_map.1 inRow with ⟨term, term_mem, rfl⟩
  have rowInside := (List.getElem?_eq_some_iff.1 (List.mem_zipIdx_iff_getElem?.1 row_mem)).1
  have columnInside := Columns.indexOf_lt_count <| rowsKnown conesKnown row
    (List.fst_mem_of_mem_zipIdx row_mem) term.1 (List.mem_map_of_mem term_mem)
  exact SparseMatrix.fits_iff.2 ⟨rowInside, columnInside⟩

/-- What the forms of the rows have for one variable comes in the order of the rows. -/
theorem column_assembled (conesKnown : ∀ cone ∈ cones, ∀ id ∈ cone.variableIds, id ∈ ids)
    (atColumn : (Columns.ofVariables ids).ids[column]? = some id) :
    (assembled objective cones ids).matrix.column column =
      (rowsOf cones).zipIdx.flatMap fun row =>
        (row.1.form.coefficients.get? id).toList.map fun coefficient =>
          (row.2, coefficient * rowSign row.1.negated) := by
  have inside : column < (Columns.ofVariables ids).count := (List.getElem?_eq_some_iff.1 atColumn).1
  have own : ((rowsOf cones).zipIdx.flatMap fun row =>
      rowEntriesAt (Columns.ofVariables ids) row.1 row.2).filter
        (fun entry => entry.column == column) =
      (rowsOf cones).zipIdx.flatMap fun row =>
        (row.1.form.coefficients.get? id).toList.map fun coefficient =>
          (⟨row.2, column, coefficient * rowSign row.1.negated⟩ : MatrixEntry K) := by
    rw [List.filter_flatMap, List.flatMap_def, List.flatMap_def]
    congr 1
    apply List.map_congr_left
    intro row row_mem
    exact filter_rowEntriesAt atColumn
      (rowsKnown conesKnown row.1 (List.fst_mem_of_mem_zipIdx row_mem)) row.2
  have increasing : (((rowsOf cones).zipIdx.flatMap fun row =>
      rowEntriesAt (Columns.ofVariables ids) row.1 row.2).filter
        (fun entry => entry.column == column)).Pairwise fun left right => left.row < right.row := by
    rw [own, List.pairwise_flatMap]
    constructor
    · intro row _
      cases row.1.form.coefficients.get? id with
      | none => exact List.Pairwise.nil
      | some coefficient => exact List.pairwise_singleton _ _
    · have numbered : ((rowsOf cones).zipIdx.map Prod.snd).Pairwise (· < ·) := by
        rw [List.zipIdx_map_snd]
        exact List.pairwise_lt_range'
      apply (List.pairwise_map.1 numbered).imp
      intro left right below entry entry_mem other other_mem
      rcases List.mem_map.1 entry_mem with ⟨coefficient, -, rfl⟩
      rcases List.mem_map.1 other_mem with ⟨otherCoefficient, -, rfl⟩
      exact below
  have nothingDropped := List.filter_eq_self.2 (fits_of_mem_rowEntriesAt conesKnown)
  change SparseMatrix.column (.ofEntries _ _ _) column = _
  rw [SparseMatrix.column_ofEntries inside, nothingDropped,
    SparseMatrix.collectColumn_of_increasing increasing, own, List.map_flatMap]
  simp only [List.map_map]
  rfl

/-- A place of the constraint matrix holds the coefficient that the form of the row has for the
variable of the column, with the sign of the row. -/
theorem denseAt_assembled (conesKnown : ∀ cone ∈ cones, ∀ id ∈ cone.variableIds, id ∈ ids)
    {index : Nat} {row : Row K} (atRow : (rowsOf cones)[index]? = some row)
    (atColumn : (Columns.ofVariables ids).ids[column]? = some id) :
    (assembled objective cones ids).matrix.denseAt index column =
      Scalar.total ((row.form.coefficients.get? id).toList.map (· * rowSign row.negated)) := by
  have selected := flatMap_zipIdx_at (rowsOf cones) (fun row : Row K =>
    (row.form.coefficients.get? id).toList.map (· * rowSign row.negated)) 0 index
  rw [if_pos (Nat.zero_le index), Nat.sub_zero, atRow, Option.map_some,
    Option.getD_some] at selected
  rw [SparseMatrix.denseAt, column_assembled conesKnown atColumn, ← selected, List.filter_flatMap,
    List.map_flatMap]
  congr 1
  rw [List.flatMap_def, List.flatMap_def]
  congr 1
  apply List.map_congr_left
  intro other _
  by_cases same : other.2 = index
  · simp [same, List.filter_map, Function.comp_def]
  · simp [same, List.filter_map, Function.comp_def]

/-- A linear cost is the coefficient of the variable of the column, or zero if it has none. -/
theorem getElem?_linearCostsAt {columns : Columns} (distinct : columns.ids.Nodup)
    {form : LinearForm K} (known : ∀ id ∈ form.variableIds, id ∈ columns.ids)
    (atColumn : columns.ids[column]? = some id) :
    (linearCostsAt columns form)[column]? =
      some (Scalar.total (form.coefficients.get? id).toList) := by
  have collected : ∀ (entries : List (VarId × K)) (costs : List K),
      (entries.foldl (fun costs entry =>
        costs.modify (columns.indexOf entry.1) (· + entry.2)) costs)[column]? =
        costs[column]?.map fun cost =>
          ((entries.filter fun entry => columns.indexOf entry.1 == column).map Prod.snd).foldl
            (· + ·) cost := by
    intro entries
    induction entries with
    | nil => simp
    | cons entry rest ih =>
        intro costs
        rw [List.foldl_cons, ih, List.getElem?_modify]
        by_cases own : columns.indexOf entry.1 = column
        · simp [own, Function.comp_def]
        · simp [own]
  have inside : column < columns.count := (List.getElem?_eq_some_iff.1 atColumn).1
  rw [linearCostsAt, collected, Columns.filter_indexOf distinct atColumn known, List.map_map,
    List.getElem?_replicate, if_pos inside, Option.map_some]
  simp [Scalar.total, Function.comp_def]

/-- If the quadratic part is made of squares of variables in the order of their columns, it is
stored square by square. -/
theorem entries_quadratic_assembled
    (objectiveKnown : ∀ id ∈ objective.variableIds, id ∈ ids)
    (squares : ∀ product ∈ objective.products.entries, product.1.1 = product.1.2)
    (increasing : (objective.products.entries.map (quadraticEntryAt (.ofVariables ids))).Pairwise
      fun left right => left.column < right.column) :
    (assembled objective cones ids).quadratic.entries =
      objective.products.entries.map (quadraticEntryAt (.ofVariables ids)) := by
  apply SparseMatrix.entries_ofEntries_of_diagonal _ increasing
  · rw [List.forall_mem_map]
    intro product member
    have columnInside := Columns.indexOf_lt_count
      (productsKnown objectiveKnown product.1 (List.mem_map_of_mem member)).2
    simpa [quadraticEntryAt, squares product member] using columnInside
  · rw [List.forall_mem_map]
    intro product member
    simp [quadraticEntryAt, squares product member]

end ConicProgram

end HingeLoss
