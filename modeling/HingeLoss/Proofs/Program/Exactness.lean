import HingeLoss.Proofs.Program.Meaning
import HingeLoss.Proofs.Program.Storage

/-!
# Exactness of assembled programs

Assembling loses nothing and adds nothing. It succeeds exactly if every variable that occurs is
listed, and the program it makes can then be read in two ways that agree: by the symmetric matrix
of which the upper triangle is stored, and by the sum over the stored entries that the objective
of an answer is computed with. Its slack lists the forms of the constraints kind by kind.
-/

namespace HingeLoss

namespace ConicProgram

section Objective

variable {objective : QuadraticForm ℚ} {ids : List VarId}

theorem sum_zipIdx_mul (costs : List ℚ) (point : Nat → ℚ) (start : Nat) :
    ((costs.zipIdx start).map fun entry => entry.1 * point entry.2).sum =
      ∑ j ∈ Finset.range costs.length, costs.getD j 0 * point (start + j) := by
  induction costs generalizing start with
  | nil => simp
  | cons cost rest ih =>
      rw [List.zipIdx_cons, List.map_cons, List.sum_cons, ih, List.length_cons,
        Finset.sum_range_succ', add_comm]
      simp only [List.getD_cons_succ, List.getD_cons_zero, Nat.add_zero, Nat.add_right_comm,
        Nat.add_assoc]

theorem length_linearCostsAt {K : Type} [Scalar K] (columns : Columns) (form : LinearForm K) :
    (linearCostsAt columns form).length = columns.count := by
  have collected : ∀ costs : List K, (form.coefficients.entries.foldl (fun costs entry =>
      costs.modify (columns.indexOf entry.1) (· + entry.2)) costs).length = costs.length := by
    induction form.coefficients.entries with
    | nil => simp
    | cons entry rest ih => simp [ih]
  rw [linearCostsAt, collected, List.length_replicate]

/-- What a stored entry of value one costs. -/
def costWeight (point : Nat → ℚ) (row column : Nat) : ℚ :=
  if row = column then 1 / 2 * (point row * point column) else point row * point column

theorem entryCost_eq_mul_costWeight (point : Nat → ℚ) (entry : MatrixEntry ℚ) :
    entryCost point entry = entry.value * costWeight point entry.row entry.column := by
  rw [entryCost, costWeight, Scalar.two_eq]
  split
  · ring
  · ring

/-- The costs of the stored entries add up to half of the symmetric product. -/
theorem sum_entryCost_ofEntries {size : Nat} {entries : List (MatrixEntry ℚ)}
    (upper : ∀ entry ∈ entries, entry.row ≤ entry.column)
    (inside : ∀ entry ∈ entries, entry.column < size) (point : Nat → ℚ) :
    ((SparseMatrix.ofEntries size size entries).entries.map (entryCost point)).sum =
      1 / 2 * ∑ i ∈ Finset.range size, ∑ j ∈ Finset.range size,
        point i * (SparseMatrix.ofEntries size size entries).symmetricAt i j * point j := by
  have rowsInside : ∀ entry ∈ entries, entry.row < size := fun entry entry_mem =>
    (upper entry entry_mem).trans_lt (inside entry entry_mem)
  have weighted : entryCost point = fun entry : MatrixEntry ℚ =>
      entry.value * costWeight point entry.row entry.column :=
    funext (entryCost_eq_mul_costWeight point)
  rw [weighted, SparseMatrix.sum_entries_ofEntries rowsInside inside,
    SparseMatrix.sum_symmetricAt_ofEntries upper inside, ← List.sum_map_mul_left]
  congr 1
  apply List.map_congr_left
  intro entry _
  rw [costWeight]
  split
  · ring
  · ring

/-- The objective that is computed from the stored data is the cost without the offset. -/
theorem objectiveAt_assembled (objectiveKnown : ∀ id ∈ objective.variableIds, id ∈ ids)
    (cones : List (Cone ℚ)) (point : Nat → ℚ) :
    (assembled objective cones ids).objectiveAt point +
        (assembled objective cones ids).offset =
      (assembled objective cones ids).costAt point := by
  have quadratic := sum_entryCost_ofEntries
    (row_le_column_of_mem_quadraticEntries (.ofVariables ids) objective.products)
    (column_lt_of_mem_quadraticEntries (productsKnown objectiveKnown)) point
  have linear := sum_zipIdx_mul (linearCostsAt (.ofVariables ids) objective.linear) point 0
  simp only [length_linearCostsAt, Nat.zero_add] at linear
  simp only [objectiveAt, costAt, Scalar.total_eq_sum]
  change List.sum (List.map _ (List.zipIdx (linearCostsAt _ _))) +
    List.sum (List.map _ (SparseMatrix.entries (.ofEntries _ _ _))) + _ = _
  rw [linear, quadratic, add_comm (Finset.sum _ _)]
  rfl

end Objective

section Represents

/-- The parts of a program fit together: each listed variable has one column, the sizes agree, only
the upper triangle of the quadratic costs is stored, and the layout has a row for each form and a
block for each length that is bounded. -/
structure IsWellFormed (program : ConicProgram ℚ) (cones : List (Cone ℚ)) (ids : List VarId) :
    Prop where
  listed : ∀ id, id ∈ program.columns.ids ↔ id ∈ ids
  distinct : program.columns.ids.Nodup
  linear : program.linear.length = program.columns.count
  quadratic : program.quadratic.rowCount = program.columns.count ∧
    program.quadratic.columnCount = program.columns.count
  upper : ∀ entry ∈ program.quadratic.entries,
    entry.row ≤ entry.column ∧ entry.column < program.columns.count
  matrix : program.matrix.rowCount = program.layout.total ∧
    program.matrix.columnCount = program.columns.count
  rhs : program.rhs.length = program.layout.total
  layout : program.layout = ⟨(zeroForms cones).length, (nonnegForms cones).length,
    (secondOrderForms cones).map fun part => (part.1 :: part.2).length⟩

/-- At a column vector the program says about the values of the variables what the objective and the
constraints say: it has the same cost, however that is computed, its slack lists the values of the
forms by kind and in order, and lies in the cones exactly if the constraints hold. -/
structure Represents (program : ConicProgram ℚ) (objective : QuadraticForm ℚ)
    (cones : List (Cone ℚ)) (vector : Nat → ℚ) (values : VarId → ℚ) : Prop where
  cost : objective.valueAt values = program.costAt vector
  computed : objective.valueAt values = program.objectiveAt vector + program.offset
  slack : program.slackAt vector =
    (zeroForms cones).map (fun form => -form.valueAt values) ++
      (nonnegForms cones).map (fun form => form.valueAt values) ++
        (secondOrderForms cones).flatMap fun part =>
          (part.1 :: part.2).map fun form => form.valueAt values
  cones : program.layout.Contains (program.slackAt vector) ↔
    ∀ cone ∈ cones, cone.HoldsAt values

variable {objective : QuadraticForm ℚ} {cones : List (Cone ℚ)} {ids : List VarId}

theorem total_layoutOf {K : Type} (cones : List (Cone K)) :
    (layoutOf cones).total = (rowsOf cones).length := by
  rw [layoutOf_eq, rowsOf_eq, ConeLayout.total, ← List.sum_eq_foldr]
  simp [List.length_flatMap, Nat.add_assoc]

theorem isWellFormed_assembled (objectiveKnown : ∀ id ∈ objective.variableIds, id ∈ ids) :
    (assembled objective cones ids).IsWellFormed cones ids where
  listed := fun _ => Columns.mem_ids_ofVariables
  distinct := Columns.nodup_ids_ofVariables ids
  linear := length_linearCostsAt _ _
  quadratic := ⟨rfl, SparseMatrix.columnCount_ofEntries⟩
  upper := by
    apply SparseMatrix.forall_mem_entries_ofEntries fun row column _ =>
      row ≤ column ∧ column < (Columns.ofVariables ids).count
    · intro row column left right inside _
      exact inside
    · intro entry entry_mem
      exact ⟨row_le_column_of_mem_quadraticEntries _ _ entry entry_mem,
        column_lt_of_mem_quadraticEntries (productsKnown objectiveKnown) entry entry_mem⟩
  matrix := ⟨(total_layoutOf cones).symm, SparseMatrix.columnCount_ofEntries⟩
  rhs := by
    change ((rowsOf cones).map rowConstant).length = (layoutOf cones).total
    rw [List.length_map, total_layoutOf]
  layout := layoutOf_eq cones

theorem represents_assembled_valuesOf (constant : objective.linear.constant = 0)
    (objectiveKnown : ∀ id ∈ objective.variableIds, id ∈ ids)
    (conesKnown : ∀ cone ∈ cones, ∀ id ∈ cone.variableIds, id ∈ ids) (vector : Nat → ℚ) :
    (assembled objective cones ids).Represents objective cones vector
      ((Columns.ofVariables ids).valuesOf vector) := by
  have cost := costAt_assembled objectiveKnown cones vector
  rw [constant, add_zero] at cost
  constructor
  case cost => exact cost.symm
  case computed => rw [objectiveAt_assembled objectiveKnown, cost]
  case slack => rw [slackAt_assembled conesKnown, map_slackAt_rowsOf]
  case cones => exact contains_slackAt_assembled_iff conesKnown vector

/-- Only the values of the variables that occur matter. -/
theorem Represents.congr {program : ConicProgram ℚ} {vector : Nat → ℚ} {left right : VarId → ℚ}
    (represents : program.Represents objective cones vector left)
    (objectiveAgrees : ∀ id ∈ objective.variableIds, left id = right id)
    (conesAgree : ∀ cone ∈ cones, ∀ id ∈ cone.variableIds, left id = right id) :
    program.Represents objective cones vector right := by
  have sameValue := QuadraticForm.valueAt_congr objectiveAgrees
  -- Each row is a form of some constraint, so the slack is compared row by row.
  have sameForms : ∀ row ∈ rowsOf cones, row.slackAt left = row.slackAt right := by
    intro row row_mem
    rcases exists_cone_of_mem_rowsOf row_mem with ⟨cone, cone_mem, form_mem⟩
    have same : row.form.valueAt left = row.form.valueAt right :=
      LinearForm.valueAt_congr fun id id_mem =>
        conesAgree cone cone_mem id (List.mem_flatMap.2 ⟨row.form, form_mem, id_mem⟩)
    rw [Row.slackAt, Row.slackAt, same]
  constructor
  case cost => rw [← sameValue, represents.cost]
  case computed => rw [← sameValue, represents.computed]
  case slack =>
    rw [← map_slackAt_rowsOf, ← List.map_congr_left sameForms, map_slackAt_rowsOf,
      represents.slack]
  case cones =>
    rw [represents.cones]
    exact forall₂_congr fun cone cone_mem => Cone.holdsAt_congr (conesAgree cone cone_mem)

/-- Assembling succeeds exactly if every variable that occurs is listed, and with each variable
valued by its column the program then represents the objective and the constraints. -/
theorem assemble_represents (objective : QuadraticForm ℚ) (cones : List (Cone ℚ))
    (ids : List VarId) (constant : objective.linear.constant = 0) :
    ((∃ program, assemble objective cones ids = .ok program) ↔
      (∀ id ∈ objective.variableIds, id ∈ ids) ∧
        ∀ cone ∈ cones, ∀ id ∈ cone.variableIds, id ∈ ids) ∧
      ∀ program, assemble objective cones ids = .ok program →
        program.IsWellFormed cones ids ∧
          ∀ (vector : Nat → ℚ) (values : VarId → ℚ),
            (∀ id column, program.columns.find? id = some column → values id = vector column) →
              program.Represents objective cones vector values := by
  refine ⟨exists_assemble_eq_ok_iff, ?_⟩
  intro program succeeds
  rcases exists_assemble_eq_ok_iff.1 ⟨program, succeeds⟩ with ⟨objectiveKnown, conesKnown⟩
  rw [assemble_eq_ok objectiveKnown conesKnown, Except.ok.injEq] at succeeds
  subst succeeds
  refine ⟨isWellFormed_assembled objectiveKnown, ?_⟩
  intro vector values valued
  have agree : ∀ id ∈ ids, (Columns.ofVariables ids).valuesOf vector id = values id := by
    intro id member
    exact (valued id _ (Columns.find?_eq_some_indexOf (Columns.mem_ids_ofVariables.2 member))).symm
  apply (represents_assembled_valuesOf constant objectiveKnown conesKnown vector).congr
  · intro id member
    exact agree id (objectiveKnown id member)
  · intro cone cone_mem id member
    exact agree id (conesKnown cone cone_mem id member)

/-- The variables of a product are listed in the other order, and one of them twice. -/
theorem assemble_represents_of_reversed_product :
    let x : VarId := ⟨1⟩
    let y : VarId := ⟨2⟩
    let objective : QuadraticForm ℚ :=
      ⟨.add (.single (x, x) 3) (.single (y, x) 1), ⟨.single y (-2), 0⟩, 5⟩
    let cones : List (Cone ℚ) := [.secondOrder (.ofVariable y) [.ofVariable x],
      .nonneg (.ofVariable x)]
    objective.linear.constant = 0 ∧
      ∃ program, assemble objective cones [x, y, x] = .ok program ∧ ∀ vector : Nat → ℚ,
        program.costAt vector =
            3 * (vector 0 * vector 0) + vector 1 * vector 0 - 2 * vector 1 + 5 ∧
          program.slackAt vector = [vector 0, vector 1, vector 0] := by
  intro x y objective cones
  have objectiveKnown : ∀ id ∈ objective.variableIds, id ∈ [x, y, x] := by decide
  have conesKnown : ∀ cone ∈ cones, ∀ id ∈ cone.variableIds, id ∈ [x, y, x] := by decide
  have assembled := assemble_eq_ok objectiveKnown conesKnown
  refine ⟨rfl, _, assembled, ?_⟩
  intro vector
  let values : VarId → ℚ := (Columns.ofVariables [x, y, x]).valuesOf vector
  have atColumns : ∀ id column, (Columns.ofVariables [x, y, x]).find? id = some column →
      values id = vector column := by
    intro id column found
    simp [values, Columns.valuesOf, Columns.indexOf, found]
  have represents := ((assemble_represents objective cones [x, y, x] rfl).2 _ assembled).2
    vector values atColumns
  have atX : values x = vector 0 := atColumns x 0 (by decide)
  have atY : values y = vector 1 := atColumns y 1 (by decide)
  constructor
  · rw [← represents.cost]
    simp only [objective, QuadraticForm.valueAt_eq_sumAt, LinearForm.valueAt_eq_sumAt,
      Coefficients.sumAt_add, Coefficients.sumAt_single, atX, atY]
    ring
  · rw [represents.slack]
    simp [cones, zeroForms, nonnegForms, secondOrderForms, atX, atY]

end Represents

end ConicProgram

end HingeLoss
