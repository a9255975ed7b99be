import HingeLoss.Proofs.Program.Assembly
import HingeLoss.Proofs.Program.Sparse

/-!
# The meaning of assembled programs

An assembled program says the same as the standard form. With each variable valued by its column,
half of the quadratic cost plus the linear cost plus the offset is the value of the objective, and
the slack lies in the cones of the layout exactly when every cone constraint holds.
-/

namespace HingeLoss

namespace ConicProgram

section Slack

variable {columns : Columns} {objective : QuadraticForm ℚ} {cones : List (Cone ℚ)}
  {ids : List VarId}

/-- The slack `b - A x` of the rows at a point. -/
def slackAt (program : ConicProgram ℚ) (point : Nat → ℚ) : List ℚ :=
  program.rhs.zipIdx.map fun entry => entry.1 - program.matrix.apply point entry.2

/-- The slack of a row: its form as it is, or with its sign turned. -/
def Row.slackAt (row : Row ℚ) (values : VarId → ℚ) : ℚ :=
  if row.negated then row.form.valueAt values else -row.form.valueAt values

theorem flatMap_zipIdx_at {α β : Type} (items : List α) (own : α → List β) (start index : Nat) :
    ((items.zipIdx start).flatMap fun item => if item.2 = index then own item.1 else []) =
      if start ≤ index then (items[index - start]?.map own).getD [] else [] := by
  induction items generalizing start with
  | nil => simp
  | cons item rest ih =>
      rw [List.zipIdx_cons, List.flatMap_cons, ih]
      rcases Nat.lt_trichotomy start index with before | rfl | after
      · have shifted : index - start = index - (start + 1) + 1 := by omega
        have later : start + 1 ≤ index := before
        rw [if_neg before.ne, if_pos later, if_pos before.le, shifted, List.getElem?_cons_succ,
          List.nil_append]
      · simp
      · have notLater : ¬start + 1 ≤ index := by omega
        rw [if_neg after.ne', if_neg notLater, if_neg (Nat.not_le.2 after), List.nil_append]

theorem sum_zipIdx_at {α : Type} (items : List α) (value : α → ℚ) (start index : Nat) :
    ((items.zipIdx start).map fun item => if item.2 = index then value item.1 else 0).sum =
      if start ≤ index then (items[index - start]?.map value).getD 0 else 0 := by
  have asSum : ∀ item : α × Nat, (if item.2 = index then value item.1 else 0) =
      (if item.2 = index then [value item.1] else []).sum := by
    intro item
    split
    all_goals simp
  have selected := congrArg List.sum
    (flatMap_zipIdx_at items (fun item => [value item]) start index)
  rw [List.flatMap_def, List.sum_flatten, List.map_map] at selected
  simp only [asSum]
  refine selected.trans ?_
  split
  case isTrue => cases items[index - start]? <;> simp
  case isFalse => rfl

theorem sum_rowEntriesAt (row : Row ℚ) (index selected : Nat) (point : Nat → ℚ) :
    ((rowEntriesAt columns row index).map fun entry =>
        if entry.row = selected then entry.value * point entry.column else 0).sum =
      if index = selected then
        rowSign row.negated * row.form.coefficients.sumAt (columns.valuesOf point)
      else 0 := by
  simp only [rowEntriesAt, Coefficients.sumAt]
  by_cases same : index = selected
  · simp only [same, if_true, List.map_map]
    induction row.form.coefficients.entries with
    | nil => simp
    | cons entry rest ih =>
        simp only [List.map_cons, List.sum_cons, ih, Function.comp_apply, Columns.valuesOf, if_true]
        ring
  · simp [same, Function.comp_def]

theorem slackAt_assembled (conesKnown : ∀ cone ∈ cones, ∀ id ∈ cone.variableIds, id ∈ ids)
    (point : Nat → ℚ) :
    (assembled objective cones ids).slackAt point =
      (rowsOf cones).map fun row => row.slackAt ((Columns.ofVariables ids).valuesOf point) := by
  have fitting : ∀ entry ∈ (rowsOf cones).zipIdx.flatMap
      (fun row => rowEntriesAt (Columns.ofVariables ids) row.1 row.2),
      entry.column < (Columns.ofVariables ids).count := by
    intro entry entry_mem
    rcases List.mem_flatMap.1 entry_mem with ⟨row, row_mem, inRow⟩
    rcases List.mem_map.1 inRow with ⟨term, term_mem, rfl⟩
    apply Columns.indexOf_lt_count
    exact rowsKnown conesKnown row.1 (List.fst_mem_of_mem_zipIdx row_mem) term.1
      (List.mem_map_of_mem term_mem)
  apply List.ext_getElem
  · simp [slackAt, assembled]
  · intro index inside inRows
    rw [List.length_map] at inRows
    have rowSum : (assembled objective cones ids).matrix.apply point index =
        rowSign (rowsOf cones)[index].negated *
          (rowsOf cones)[index].form.coefficients.sumAt
            ((Columns.ofVariables ids).valuesOf point) := by
      have selected := sum_zipIdx_at (rowsOf cones) (fun row => rowSign row.negated *
        row.form.coefficients.sumAt ((Columns.ofVariables ids).valuesOf point)) 0 index
      change SparseMatrix.apply (.ofEntries _ _ _) point index = _
      rw [SparseMatrix.apply_ofEntries fitting point inRows, List.map_flatMap, List.flatMap_def,
        List.sum_flatten, List.map_map]
      simp only [Function.comp_def, sum_rowEntriesAt]
      rw [selected]
      simp [inRows]
    simp only [slackAt, List.getElem_map, List.getElem_zipIdx, Nat.zero_add, rowSum]
    simp only [assembled, List.getElem_map, rowConstant, rowSign, Row.slackAt,
      LinearForm.valueAt_eq_sumAt]
    split
    · ring
    · ring

/-- The slack lists the values of the forms kind by kind, each kind in the order of the list. -/
theorem map_slackAt_rowsOf (cones : List (Cone ℚ)) (values : VarId → ℚ) :
    (rowsOf cones).map (fun row => row.slackAt values) =
      (zeroForms cones).map (fun form => -form.valueAt values) ++
        (nonnegForms cones).map (fun form => form.valueAt values) ++
          (secondOrderForms cones).flatMap fun part =>
            (part.1 :: part.2).map fun form => form.valueAt values := by
  rw [rowsOf_eq]
  simp [Row.slackAt, List.map_flatMap, Function.comp_def]

/-- The slack lies in the cones of the layout exactly when all constraints hold. -/
theorem contains_slackAt_assembled_iff
    (conesKnown : ∀ cone ∈ cones, ∀ id ∈ cone.variableIds, id ∈ ids) (point : Nat → ℚ) :
    (assembled objective cones ids).layout.Contains
        ((assembled objective cones ids).slackAt point) ↔
      ∀ cone ∈ cones, cone.HoldsAt ((Columns.ofVariables ids).valuesOf point) := by
  rw [slackAt_assembled conesKnown]
  generalize (Columns.ofVariables ids).valuesOf point = values
  let zeros := (zeroForms cones).map fun form => -form.valueAt values
  let nonnegs := (nonnegForms cones).map fun form => form.valueAt values
  let parts := (secondOrderForms cones).map fun part =>
    (part.1 :: part.2).map fun form => form.valueAt values
  have slacks : (rowsOf cones).map (fun row => row.slackAt values) =
      zeros ++ nonnegs ++ parts.flatten := by
    rw [map_slackAt_rowsOf, List.flatMap_def]
  have layout : layoutOf cones =
      ⟨zeros.length, nonnegs.length, parts.map List.length⟩ := by
    simp [layoutOf_eq, zeros, nonnegs, parts, Function.comp_def]
  change (layoutOf cones).Contains _ ↔ _
  rw [slacks, layout, ConeLayout.contains_append_iff, forall_mem_cones_iff]
  refine and_congr ?_ (and_congr ?_ ?_)
  · simp [zeros, Cone.HoldsAt]
  · simp [nonnegs, Cone.HoldsAt]
  · rw [List.forall_mem_map]
    apply forall₂_congr
    intro part _
    change 0 ≤ _ ∧ ((part.2.map _).map _).sum ≤ _ ↔ _
    simp [Cone.HoldsAt, Function.comp_def]

end Slack

section Cost

variable {columns : Columns} {objective : QuadraticForm ℚ} {ids : List VarId}

/-- The cost `½ xᵀ P x + qᵀ x` of a point, with the offset. -/
def costAt (program : ConicProgram ℚ) (point : Nat → ℚ) : ℚ :=
  1 / 2 * (∑ i ∈ Finset.range program.columns.count, ∑ j ∈ Finset.range program.columns.count,
      point i * program.quadratic.symmetricAt i j * point j) +
    ∑ j ∈ Finset.range program.columns.count, program.linear.getD j 0 * point j +
      program.offset

theorem getD_modify_add (costs : List ℚ) (column selected : Nat) (added : ℚ)
    (inside : column < costs.length) :
    (costs.modify column (· + added)).getD selected 0 =
      costs.getD selected 0 + if column = selected then added else 0 := by
  rw [List.getD_eq_getElem?_getD, List.getElem?_modify, List.getD_eq_getElem?_getD]
  by_cases same : column = selected
  · subst same
    simp [inside]
  · simp [same]

/-- The linear costs of a point are the value of the linear form without its constant. -/
theorem sum_linearCostsAt {form : LinearForm ℚ}
    (known : ∀ id ∈ form.variableIds, id ∈ columns.ids) (point : Nat → ℚ) :
    ∑ j ∈ Finset.range columns.count, (linearCostsAt columns form).getD j 0 * point j =
      form.coefficients.sumAt (columns.valuesOf point) := by
  have inside : ∀ entry ∈ form.coefficients.entries, columns.indexOf entry.1 < columns.count := by
    intro entry entry_mem
    exact Columns.indexOf_lt_count (known entry.1 (List.mem_map_of_mem entry_mem))
  have collected : ∀ costs : List ℚ, costs.length = columns.count →
      ∑ j ∈ Finset.range columns.count, (form.coefficients.entries.foldl (fun costs entry =>
          costs.modify (columns.indexOf entry.1) (· + entry.2)) costs).getD j 0 * point j =
        ∑ j ∈ Finset.range columns.count, costs.getD j 0 * point j +
          form.coefficients.sumAt (columns.valuesOf point) := by
    simp only [Coefficients.sumAt]
    revert inside
    generalize form.coefficients.entries = entries
    intro inside
    induction entries with
    | nil => simp
    | cons entry rest ih =>
        intro costs length
        rw [List.forall_mem_cons] at inside
        rw [List.foldl_cons, ih inside.2 _ (by simpa using length)]
        simp only [getD_modify_add costs _ _ _ (length ▸ inside.1), add_mul,
          Finset.sum_add_distrib, ite_mul, zero_mul, Finset.sum_ite_eq, Finset.mem_range, inside.1,
          if_true, List.map_cons, List.sum_cons, Columns.valuesOf]
        ring
  have noCosts : ∀ j, (List.replicate columns.count (0 : ℚ)).getD j 0 = 0 := by
    intro j
    rw [List.getD_eq_getElem?_getD, List.getElem?_replicate]
    split
    · rfl
    · rfl
  rw [linearCostsAt, collected _ List.length_replicate]
  simp only [noCosts, zero_mul, Finset.sum_const_zero, zero_add]

/-- Half of the symmetric product with a point is the sum of the products of variables. -/
theorem sum_quadraticEntryAt {products : Coefficients (VarId × VarId) ℚ}
    (known : ∀ pair ∈ products.keys, pair.1 ∈ columns.ids ∧ pair.2 ∈ columns.ids)
    (point : Nat → ℚ) :
    1 / 2 * (∑ i ∈ Finset.range columns.count, ∑ j ∈ Finset.range columns.count,
        point i * (SparseMatrix.ofEntries columns.count columns.count
          (products.entries.map (quadraticEntryAt columns))).symmetricAt i j * point j) =
      products.sumAt fun pair =>
        columns.valuesOf point pair.1 * columns.valuesOf point pair.2 := by
  have cost : ∀ product : (VarId × VarId) × ℚ,
      (if (quadraticEntryAt columns product).row = (quadraticEntryAt columns product).column then
          (quadraticEntryAt columns product).value * point (quadraticEntryAt columns product).row *
            point (quadraticEntryAt columns product).column
        else 2 * ((quadraticEntryAt columns product).value *
          point (quadraticEntryAt columns product).row *
            point (quadraticEntryAt columns product).column)) =
        2 * (product.2 * (columns.valuesOf point product.1.1 *
          columns.valuesOf point product.1.2)) := by
    intro product
    simp only [quadraticEntryAt, Scalar.two_eq, Columns.valuesOf]
    rcases le_total (columns.indexOf product.1.1) (columns.indexOf product.1.2) with le | le
    · rw [min_eq_left le, max_eq_right le]
      split
      · ring
      · ring
    · rw [min_eq_right le, max_eq_left le]
      split
      · ring
      · ring
  rw [SparseMatrix.sum_symmetricAt_ofEntries (row_le_column_of_mem_quadraticEntries _ products)
    (column_lt_of_mem_quadraticEntries known), List.map_map, Coefficients.sumAt]
  simp only [Function.comp_def, cost]
  rw [List.sum_map_mul_left]
  ring

/-- The cost of a point is the value of the objective at the values of the variables, up to the
constant that the linear part of the objective has by itself. -/
theorem costAt_assembled (objectiveKnown : ∀ id ∈ objective.variableIds, id ∈ ids)
    (cones : List (Cone ℚ)) (point : Nat → ℚ) :
    (assembled objective cones ids).costAt point + objective.linear.constant =
      objective.valueAt ((Columns.ofVariables ids).valuesOf point) := by
  have quadratic := sum_quadraticEntryAt (productsKnown objectiveKnown) point
  have linear := sum_linearCostsAt (linearKnown objectiveKnown) point
  rw [QuadraticForm.valueAt_eq_sumAt, LinearForm.valueAt_eq_sumAt, ← quadratic, ← linear]
  simp only [costAt, assembled]
  ring

end Cost

end ConicProgram

end HingeLoss
