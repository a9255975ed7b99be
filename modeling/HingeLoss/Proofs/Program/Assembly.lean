import HingeLoss.Proofs.Failure
import HingeLoss.Proofs.Program.Columns
import HingeLoss.Proofs.Program.Rows
import HingeLoss.Proofs.Standard.Scope

/-!
# Assembling programs

Assembling a program succeeds if and only if every variable that occurs has a column. The program is
then given in closed form: its matrices are made of the coefficients, each at the row of its
constraint and the column of its variable.
-/

namespace HingeLoss

namespace ConicProgram

section Known

variable {K : Type}

theorem linearKnown {objective : QuadraticForm K} {ids : List VarId}
    (objectiveKnown : ∀ id ∈ objective.variableIds, id ∈ ids) :
    ∀ id ∈ objective.linear.variableIds, id ∈ (Columns.ofVariables ids).ids := by
  intro id member
  rw [Columns.mem_ids_ofVariables]
  exact objectiveKnown id (QuadraticForm.mem_variableIds.2 (.inr member))

theorem productsKnown {objective : QuadraticForm K} {ids : List VarId}
    (objectiveKnown : ∀ id ∈ objective.variableIds, id ∈ ids) :
    ∀ pair ∈ objective.products.keys,
      pair.1 ∈ (Columns.ofVariables ids).ids ∧ pair.2 ∈ (Columns.ofVariables ids).ids := by
  intro pair pair_mem
  rw [Columns.mem_ids_ofVariables, Columns.mem_ids_ofVariables]
  constructor
  · apply objectiveKnown
    exact QuadraticForm.mem_variableIds.2 (.inl ⟨pair, pair_mem, .inl rfl⟩)
  · apply objectiveKnown
    exact QuadraticForm.mem_variableIds.2 (.inl ⟨pair, pair_mem, .inr rfl⟩)

theorem rowsKnown {cones : List (Cone K)} {ids : List VarId}
    (conesKnown : ∀ cone ∈ cones, ∀ id ∈ cone.variableIds, id ∈ ids) :
    ∀ row ∈ rowsOf cones, ∀ id ∈ row.form.variableIds, id ∈ (Columns.ofVariables ids).ids := by
  intro row row_mem id id_mem
  rw [Columns.mem_ids_ofVariables]
  rcases exists_cone_of_mem_rowsOf row_mem with ⟨cone, cone_mem, form_mem⟩
  exact conesKnown cone cone_mem id (List.mem_flatMap.2 ⟨row.form, form_mem, id_mem⟩)

end Known

section Success

variable {K : Type} [Scalar K]

def quadraticEntryAt (columns : Columns) (entry : (VarId × VarId) × K) : MatrixEntry K :=
  let first := columns.indexOf entry.1.1
  let second := columns.indexOf entry.1.2
  ⟨min first second, max first second,
    if min first second = max first second then Scalar.two * entry.2 else entry.2⟩

def rowEntriesAt (columns : Columns) (row : Row K) (index : Nat) : List (MatrixEntry K) :=
  row.form.coefficients.entries.map fun entry =>
    ⟨index, columns.indexOf entry.1, entry.2 * rowSign row.negated⟩

def linearCostsAt (columns : Columns) (form : LinearForm K) : List K :=
  form.coefficients.entries.foldl
    (fun costs entry => costs.modify (columns.indexOf entry.1) (· + entry.2))
    (List.replicate columns.count 0)

/-- The program of an objective and a list of constraints all variables of which are listed. -/
def assembled (objective : QuadraticForm K) (cones : List (Cone K)) (ids : List VarId) :
    ConicProgram K :=
  let columns := Columns.ofVariables ids
  { quadratic := .ofEntries columns.count columns.count
      (objective.products.entries.map (quadraticEntryAt columns))
    linear := linearCostsAt columns objective.linear
    matrix := .ofEntries (rowsOf cones).length columns.count
      ((rowsOf cones).zipIdx.flatMap fun row => rowEntriesAt columns row.1 row.2)
    rhs := (rowsOf cones).map rowConstant
    layout := layoutOf cones
    columns := columns
    offset := objective.constant }

variable {columns : Columns}

theorem columnOf_eq_ok {id : VarId} (member : id ∈ columns.ids) :
    columnOf columns id = .ok (columns.indexOf id) := by
  rw [columnOf, Columns.find?_eq_some_indexOf member]

theorem linearCosts_eq_ok {form : LinearForm K}
    (known : ∀ id ∈ form.variableIds, id ∈ columns.ids) :
    linearCosts columns form = .ok (linearCostsAt columns form) := by
  have each : ∀ entry ∈ form.coefficients.entries, entry.1 ∈ columns.ids := by
    intro entry entry_mem
    exact known entry.1 (List.mem_map_of_mem entry_mem)
  simp only [linearCosts, linearCostsAt]
  generalize List.replicate columns.count (0 : K) = costs
  revert each
  generalize form.coefficients.entries = entries
  intro each
  induction entries generalizing costs with
  | nil => rfl
  | cons entry rest ih =>
      rw [List.forall_mem_cons] at each
      rcases entry with ⟨id, coefficient⟩
      rw [List.foldlM_cons, List.foldl_cons]
      change (columnOf columns id >>= _) >>= _ = _
      rw [columnOf_eq_ok each.1]
      exact ih _ each.2

theorem mapM_quadraticEntry {products : Coefficients (VarId × VarId) K}
    (known : ∀ pair ∈ products.keys, pair.1 ∈ columns.ids ∧ pair.2 ∈ columns.ids) :
    products.entries.mapM (quadraticEntry columns) =
      .ok (products.entries.map (quadraticEntryAt columns)) := by
  apply mapM_eq_ok
  intro entry entry_mem
  have pairKnown := known entry.1 (List.mem_map_of_mem entry_mem)
  rw [quadraticEntry, columnOf_eq_ok pairKnown.1, columnOf_eq_ok pairKnown.2]
  rfl

theorem quadraticCosts_eq_ok {products : Coefficients (VarId × VarId) K}
    (known : ∀ pair ∈ products.keys, pair.1 ∈ columns.ids ∧ pair.2 ∈ columns.ids) :
    quadraticCosts columns products =
      .ok (.ofEntries columns.count columns.count
        (products.entries.map (quadraticEntryAt columns))) := by
  rw [quadraticCosts, mapM_quadraticEntry known]
  rfl

theorem row_le_column_of_mem_quadraticEntries (columns : Columns)
    (products : Coefficients (VarId × VarId) K) :
    ∀ entry ∈ products.entries.map (quadraticEntryAt columns), entry.row ≤ entry.column := by
  intro entry entry_mem
  rcases List.mem_map.1 entry_mem with ⟨product, -, rfl⟩
  exact min_le_max

theorem column_lt_of_mem_quadraticEntries {products : Coefficients (VarId × VarId) K}
    (known : ∀ pair ∈ products.keys, pair.1 ∈ columns.ids ∧ pair.2 ∈ columns.ids) :
    ∀ entry ∈ products.entries.map (quadraticEntryAt columns), entry.column < columns.count := by
  intro entry entry_mem
  rcases List.mem_map.1 entry_mem with ⟨product, product_mem, rfl⟩
  have pairKnown := known product.1 (List.mem_map_of_mem product_mem)
  exact max_lt (Columns.indexOf_lt_count pairKnown.1) (Columns.indexOf_lt_count pairKnown.2)

theorem mapM_rowEntries {rows : List (Row K)}
    (known : ∀ row ∈ rows, ∀ id ∈ row.form.variableIds, id ∈ columns.ids) :
    (rows.zipIdx.mapM fun row => rowEntries columns row.1 row.2) =
      .ok (rows.zipIdx.map fun row => rowEntriesAt columns row.1 row.2) := by
  apply mapM_eq_ok
  intro row row_mem
  apply mapM_eq_ok
  intro entry entry_mem
  have entryKnown := known row.1 (List.fst_mem_of_mem_zipIdx row_mem) entry.1
    (List.mem_map_of_mem entry_mem)
  rcases entry with ⟨id, coefficient⟩
  change columnOf columns id >>= _ = _
  rw [columnOf_eq_ok entryKnown]
  rfl

theorem constraintMatrix_eq_ok {rows : List (Row K)}
    (known : ∀ row ∈ rows, ∀ id ∈ row.form.variableIds, id ∈ columns.ids) :
    constraintMatrix columns rows =
      .ok (.ofEntries rows.length columns.count
        (rows.zipIdx.flatMap fun row => rowEntriesAt columns row.1 row.2)) := by
  simp only [constraintMatrix]
  change (rows.zipIdx.mapM fun row => rowEntries columns row.1 row.2) >>= _ = _
  rw [mapM_rowEntries known, List.flatMap_def]
  rfl

theorem assemble_eq_ok {objective : QuadraticForm K} {cones : List (Cone K)} {ids : List VarId}
    (objectiveKnown : ∀ id ∈ objective.variableIds, id ∈ ids)
    (conesKnown : ∀ cone ∈ cones, ∀ id ∈ cone.variableIds, id ∈ ids) :
    assemble objective cones ids = .ok (assembled objective cones ids) := by
  rw [assemble, linearCosts_eq_ok (linearKnown objectiveKnown),
    quadraticCosts_eq_ok (productsKnown objectiveKnown)]
  change constraintMatrix _ _ >>= _ = _
  rw [constraintMatrix_eq_ok (rowsKnown conesKnown)]
  rfl

end Success

section Failures

variable {K : Type} [Scalar K] {columns : Columns}

theorem mem_ids_of_columnOf_eq_ok {id : VarId} {column : Nat}
    (found : columnOf columns id = .ok column) : id ∈ columns.ids := by
  rw [columnOf] at found
  split at found
  case h_1 other known => exact List.mem_of_getElem? (Columns.getElem?_of_find?_eq_some known)
  case h_2 => simp at found

theorem known_of_linearCosts_eq_ok {form : LinearForm K} {costs : List K}
    (succeeds : linearCosts columns form = .ok costs) :
    ∀ id ∈ form.variableIds, id ∈ columns.ids := by
  have each : ∀ entry ∈ form.coefficients.entries, entry.1 ∈ columns.ids := by
    revert succeeds
    simp only [linearCosts]
    generalize List.replicate columns.count (0 : K) = start
    generalize form.coefficients.entries = entries
    intro succeeds
    induction entries generalizing start with
    | nil => simp
    | cons entry rest ih =>
        rw [List.foldlM_cons, bind_eq_ok_iff] at succeeds
        rcases succeeds with ⟨next, fromEntry, fromRest⟩
        rw [bind_eq_ok_iff] at fromEntry
        rcases fromEntry with ⟨column, found, -⟩
        exact List.forall_mem_cons.2 ⟨mem_ids_of_columnOf_eq_ok found, ih next fromRest⟩
  intro id member
  rcases List.mem_map.1 member with ⟨entry, entry_mem, rfl⟩
  exact each entry entry_mem

theorem known_of_quadraticCosts_eq_ok {products : Coefficients (VarId × VarId) K}
    {matrix : SparseMatrix K} (succeeds : quadraticCosts columns products = .ok matrix) :
    ∀ pair ∈ products.keys, pair.1 ∈ columns.ids ∧ pair.2 ∈ columns.ids := by
  rw [quadraticCosts, bind_eq_ok_iff] at succeeds
  rcases succeeds with ⟨entries, all, -⟩
  intro pair member
  rcases List.mem_map.1 member with ⟨product, product_mem, rfl⟩
  rcases exists_eq_ok_of_mapM_eq_ok all product product_mem with ⟨entry, fromProduct⟩
  rw [quadraticEntry, bind_eq_ok_iff] at fromProduct
  rcases fromProduct with ⟨first, foundFirst, fromSecond⟩
  rw [bind_eq_ok_iff] at fromSecond
  rcases fromSecond with ⟨second, foundSecond, -⟩
  exact ⟨mem_ids_of_columnOf_eq_ok foundFirst, mem_ids_of_columnOf_eq_ok foundSecond⟩

theorem known_of_constraintMatrix_eq_ok {rows : List (Row K)} {matrix : SparseMatrix K}
    (succeeds : constraintMatrix columns rows = .ok matrix) :
    ∀ row ∈ rows, ∀ id ∈ row.form.variableIds, id ∈ columns.ids := by
  rw [constraintMatrix, bind_eq_ok_iff] at succeeds
  rcases succeeds with ⟨entries, all, -⟩
  intro row row_mem id id_mem
  rcases List.mem_iff_getElem.1 row_mem with ⟨index, inside, rfl⟩
  have indexed : (rows[index], index) ∈ rows.zipIdx := by
    rw [List.mem_zipIdx_iff_getElem?]
    exact List.getElem?_eq_getElem inside
  rcases exists_eq_ok_of_mapM_eq_ok all _ indexed with ⟨rowEntries, fromRow⟩
  rcases List.mem_map.1 id_mem with ⟨term, term_mem, rfl⟩
  rcases exists_eq_ok_of_mapM_eq_ok fromRow term term_mem with ⟨entry, fromTerm⟩
  rw [bind_eq_ok_iff] at fromTerm
  rcases fromTerm with ⟨column, found, -⟩
  exact mem_ids_of_columnOf_eq_ok found

/-- Assembling succeeds exactly if every variable that occurs is listed. -/
theorem exists_assemble_eq_ok_iff {objective : QuadraticForm K} {cones : List (Cone K)}
    {ids : List VarId} :
    (∃ program, assemble objective cones ids = .ok program) ↔
      (∀ id ∈ objective.variableIds, id ∈ ids) ∧
        ∀ cone ∈ cones, ∀ id ∈ cone.variableIds, id ∈ ids := by
  constructor
  · rintro ⟨program, succeeds⟩
    rw [assemble, bind_eq_ok_iff] at succeeds
    rcases succeeds with ⟨linear, fromLinear, fromRest⟩
    rw [bind_eq_ok_iff] at fromRest
    rcases fromRest with ⟨quadratic, fromProducts, fromRest⟩
    rw [bind_eq_ok_iff] at fromRest
    rcases fromRest with ⟨matrix, fromRows, -⟩
    have linearKnown := known_of_linearCosts_eq_ok fromLinear
    have productsKnown := known_of_quadraticCosts_eq_ok fromProducts
    have rowsKnown := known_of_constraintMatrix_eq_ok fromRows
    simp only [Columns.mem_ids_ofVariables] at linearKnown productsKnown rowsKnown
    constructor
    · intro id member
      rcases QuadraticForm.mem_variableIds.1 member with ⟨pair, pair_mem, rfl | rfl⟩ | inLinear
      · exact (productsKnown pair pair_mem).1
      · exact (productsKnown pair pair_mem).2
      · exact linearKnown id inLinear
    · intro cone cone_mem id id_mem
      rcases List.mem_flatMap.1 id_mem with ⟨form, form_mem, inForm⟩
      rcases exists_mem_rowsOf cone_mem form_mem with ⟨row, row_mem, rfl⟩
      exact rowsKnown row row_mem id inForm
  · rintro ⟨objectiveKnown, conesKnown⟩
    exact ⟨_, assemble_eq_ok objectiveKnown conesKnown⟩

end Failures

end ConicProgram

end HingeLoss
