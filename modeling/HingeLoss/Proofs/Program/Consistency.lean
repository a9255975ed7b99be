import HingeLoss.Proofs.Program.Compressed
import HingeLoss.Proofs.Program.Entries
import HingeLoss.Solver.Answer

/-!
# Consistency of programs

The parts of a program are put together separately: the rows are counted for the layout, numbered
while the entries of the matrix are made, and counted again by the blocks that a solver is given.
All counts agree, so that no entry lies outside of its matrix. This matters because such an entry
would be dropped without a word, and a constraint with it. The entries themselves are one for each
product of the objective and one for each coefficient of each row.
-/

namespace HingeLoss

namespace ConicProgram

variable {K : Type}

/-- The sizes of the parts of a program agree, and its matrices are stored as solvers expect it. -/
structure IsConsistent (program : ConicProgram K) : Prop where
  linear : program.linear.length = program.columns.count
  quadratic : program.quadratic.rowCount = program.columns.count ∧
    program.quadratic.columnCount = program.columns.count
  matrix : program.matrix.rowCount = program.rhs.length ∧
    program.matrix.columnCount = program.columns.count
  rows : program.rhs.length = program.layout.total
  blocks : (program.layout.blocks.map ConeBlock.size).sum = program.layout.total
  contiguous : ConeBlock.Contiguous 0 program.layout.blocks
  kinds : program.layout.blocks.map (fun block => (block.kind, block.size)) =
    [(.zero, program.layout.zero), (.nonneg, program.layout.nonneg)].filter
        (fun cone => cone.2 ≠ 0) ++
      program.layout.secondOrder.map fun size => (.secondOrder, size)
  compressed : program.quadratic.IsCompressed ∧ program.matrix.IsCompressed
  upper : ∀ entry ∈ program.quadratic.entries, entry.row ≤ entry.column

/-- A solver that compares the sizes of the parts has nothing to refuse. -/
theorem IsConsistent.mismatch?_eq_none {program : ConicProgram K}
    (consistent : program.IsConsistent) : program.mismatch? = none := by
  rw [mismatch?, if_neg (not_not.2 consistent.matrix.1.symm),
    if_neg (not_not.2 consistent.rows.symm),
    if_neg (not_not.2 (consistent.linear.trans consistent.matrix.2.symm))]

variable [Scalar K]

/-- The entry of a product of two variables: in the upper triangle at their columns, and with twice
the coefficient if it is a square. -/
structure IsProductEntry (columns : Columns) (product : (VarId × VarId) × K)
    (entry : MatrixEntry K) : Prop where
  place : ∃ first second, columns.find? product.1.1 = some first ∧
    columns.find? product.1.2 = some second ∧
      entry.row = min first second ∧ entry.column = max first second
  value : entry.value = if entry.row = entry.column then Scalar.two * product.2 else product.2

/-- The entry of a variable and its coefficient in a row: at the number of the row and the column of
the variable, with the sign of the row. -/
structure IsRowEntry (columns : Columns) (numbered : Row K × Nat) (term : VarId × K)
    (entry : MatrixEntry K) : Prop where
  row : entry.row = numbered.2
  column : columns.find? term.1 = some entry.column
  value : entry.value = term.2 * rowSign numbered.1.negated

/-- The matrices collect one entry for each product of the objective, and one for each coefficient
of each row. No entry lies outside. -/
structure KeepsEntries (program : ConicProgram K) (objective : QuadraticForm K)
    (cones : List (Cone K)) : Prop where
  quadratic : ∃ entries,
    objective.products.entries.mapM (quadraticEntry program.columns) = .ok entries ∧
      List.Forall₂ (IsProductEntry program.columns) objective.products.entries entries ∧
        program.quadratic = .ofEntries program.columns.count program.columns.count entries ∧
          entries.filter (SparseMatrix.fits program.columns.count program.columns.count) = entries
  matrix : ∃ entries,
    ((rowsOf cones).zipIdx.mapM fun row => rowEntries program.columns row.1 row.2) =
        .ok entries ∧
      List.Forall₂ (fun row : Row K × Nat => List.Forall₂ (IsRowEntry program.columns row)
          row.1.form.coefficients.entries) (rowsOf cones).zipIdx entries ∧
        program.matrix =
            .ofEntries program.layout.total program.columns.count entries.flatten ∧
          entries.flatten.filter (SparseMatrix.fits program.layout.total program.columns.count) =
            entries.flatten

section Places

variable {columns : Columns}

theorem forall₂_quadraticEntryAt {products : Coefficients (VarId × VarId) K}
    (known : ∀ pair ∈ products.keys, pair.1 ∈ columns.ids ∧ pair.2 ∈ columns.ids) :
    List.Forall₂ (IsProductEntry columns) products.entries
      (products.entries.map (quadraticEntryAt columns)) := by
  rw [List.forall₂_map_right_iff, List.forall₂_same]
  intro product member
  have pairKnown := known product.1 (List.mem_map_of_mem member)
  constructor
  case place =>
    exact ⟨_, _, Columns.find?_eq_some_indexOf pairKnown.1,
      Columns.find?_eq_some_indexOf pairKnown.2, rfl, rfl⟩
  case value => rfl

theorem forall₂_rowEntriesAt {row : Row K}
    (known : ∀ id ∈ row.form.variableIds, id ∈ columns.ids) (index : Nat) :
    List.Forall₂ (IsRowEntry columns (row, index)) row.form.coefficients.entries
      (rowEntriesAt columns row index) := by
  rw [rowEntriesAt, List.forall₂_map_right_iff, List.forall₂_same]
  intro term member
  exact ⟨rfl, Columns.find?_eq_some_indexOf (known term.1 (List.mem_map_of_mem member)), rfl⟩

end Places

variable {objective : QuadraticForm K} {cones : List (Cone K)} {ids : List VarId}

theorem isConsistent_assembled : (assembled objective cones ids).IsConsistent where
  linear := length_linearCostsAt _ _
  quadratic := ⟨rfl, SparseMatrix.columnCount_ofEntries⟩
  matrix := ⟨(List.length_map _).symm, SparseMatrix.columnCount_ofEntries⟩
  rows := (List.length_map _).trans (total_layoutOf cones).symm
  blocks := ConeLayout.sum_blocks _
  contiguous := ConeLayout.contiguous_blocks _
  kinds := ConeLayout.map_blocks _
  compressed :=
    ⟨SparseMatrix.isCompressed_ofEntries _ _ _, SparseMatrix.isCompressed_ofEntries _ _ _⟩
  upper := SparseMatrix.forall_mem_entries_ofEntries (fun row column _ => row ≤ column)
    (fun _ _ _ _ upper _ => upper) (row_le_column_of_mem_quadraticEntries _ _)

theorem keepsEntries_assembled (objectiveKnown : ∀ id ∈ objective.variableIds, id ∈ ids)
    (conesKnown : ∀ cone ∈ cones, ∀ id ∈ cone.variableIds, id ∈ ids) :
    (assembled objective cones ids).KeepsEntries objective cones where
  quadratic := by
    refine ⟨_, mapM_quadraticEntry (productsKnown objectiveKnown),
      forall₂_quadraticEntryAt (productsKnown objectiveKnown), rfl, ?_⟩
    rw [List.filter_eq_self]
    intro entry member
    have upper := row_le_column_of_mem_quadraticEntries _ _ entry member
    have inside := column_lt_of_mem_quadraticEntries (productsKnown objectiveKnown) entry member
    exact SparseMatrix.fits_iff.2 ⟨upper.trans_lt inside, inside⟩
  matrix := by
    have total : (assembled objective cones ids).layout.total = (rowsOf cones).length :=
      total_layoutOf cones
    refine ⟨_, mapM_rowEntries (rowsKnown conesKnown), ?_, ?_, ?_⟩
    · rw [List.forall₂_map_right_iff, List.forall₂_same]
      intro row row_mem
      have rowKnown := rowsKnown conesKnown row.1 (List.fst_mem_of_mem_zipIdx row_mem)
      exact forall₂_rowEntriesAt rowKnown row.2
    · rw [total, ← List.flatMap_def]
      rfl
    · rw [total, ← List.flatMap_def, List.filter_eq_self]
      exact fits_of_mem_rowEntriesAt conesKnown

/-- Whatever is assembled, the sizes of all parts agree, so that a solver that compares them refuses
nothing; the constraints have as many rows as the cones have dimensions, the matrices are stored
column by column with increasing rows, and there is an entry for each product and each coefficient,
none of which is dropped for lying outside. -/
theorem assemble_consistent {objective : QuadraticForm K} {cones : List (Cone K)}
    {ids : List VarId} {program : ConicProgram K}
    (succeeds : assemble objective cones ids = .ok program) :
    program.IsConsistent ∧ program.mismatch? = none ∧
      program.rhs.length = (cones.map Cone.dimension).sum ∧
        program.KeepsEntries objective cones := by
  rcases exists_assemble_eq_ok_iff.1 ⟨program, succeeds⟩ with ⟨objectiveKnown, conesKnown⟩
  rw [assemble_eq_ok objectiveKnown conesKnown, Except.ok.injEq] at succeeds
  subst succeeds
  refine ⟨isConsistent_assembled, isConsistent_assembled.mismatch?_eq_none, ?_,
    keepsEntries_assembled objectiveKnown conesKnown⟩
  exact (List.length_map _).trans (length_rowsOf cones)

/-- Without equations, and with the inequality between two cones of second order, one of which has
no entries. -/
theorem assemble_consistent_of_interleaved_cones :
    let x : VarId := ⟨1⟩
    let y : VarId := ⟨2⟩
    let objective : QuadraticForm ℚ := ⟨.add (.single (x, x) 3) (.single (y, x) 1), ⟨.empty, 0⟩, 5⟩
    let cones : List (Cone ℚ) := [.secondOrder (.ofVariable y) [.ofVariable x],
      .nonneg (.ofVariable x), .secondOrder (.ofVariable x) []]
    ∃ program, assemble objective cones [y, x, y] = .ok program ∧
      program.rhs.length = 4 ∧
        program.layout.blocks =
            [⟨.nonneg, 0, 1⟩, ⟨.secondOrder, 1, 2⟩, ⟨.secondOrder, 3, 1⟩] ∧
          program.quadratic.IsCompressed ∧ program.quadratic.offsets = [0, 0, 2] := by
  intro x y objective cones
  have objectiveKnown : ∀ id ∈ objective.variableIds, id ∈ [y, x, y] := by decide
  have conesKnown : ∀ cone ∈ cones, ∀ id ∈ cone.variableIds, id ∈ [y, x, y] := by decide
  have assembled := assemble_eq_ok objectiveKnown conesKnown
  rcases assemble_consistent assembled with ⟨consistent, -, rows, -⟩
  exact ⟨_, assembled, rows, by decide, consistent.compressed.1, by decide +kernel⟩

end ConicProgram

end HingeLoss
