import HingeLoss.Proofs.Program.Assembly
import HingeLoss.Proofs.Standard.Relabelling
import Mathlib.Data.List.Forall2

/-!
# Programs of relabelled forms

A program speaks of columns, and the column of a variable is the place at which the variable is
listed. So a relabelling that keeps different variables apart moves no entry of the program: the
relabelled forms, listed in the same order, give the same numbers at the same places.
-/

namespace HingeLoss

/-- All data that a conic solver is given are the same, and so is the offset of the objective. Only
the variables to which the columns belong may differ. -/
structure ConicProgram.SameData {K : Type} (left right : ConicProgram K) : Prop where
  quadratic : left.quadratic = right.quadratic
  linear : left.linear = right.linear
  matrix : left.matrix = right.matrix
  rhs : left.rhs = right.rhs
  layout : left.layout = right.layout
  offset : left.offset = right.offset

/-- Items that are told apart after a change are found at the same places. -/
theorem idxOf?_map {α β : Type} [BEq α] [LawfulBEq α] [BEq β] [LawfulBEq β] {change : α → β}
    {items : List α} {item : α}
    (apart : ∀ other ∈ items, change other = change item → other = item) :
    (items.map change).idxOf? (change item) = items.idxOf? item := by
  induction items with
  | nil => rfl
  | cons head rest ih =>
      rw [List.forall_mem_cons] at apart
      have sameTest : (change head == change item) = (head == item) := by
        rw [Bool.eq_iff_iff, beq_iff_eq, beq_iff_eq]
        exact ⟨apart.1, congrArg change⟩
      rw [List.map_cons, List.idxOf?_cons, List.idxOf?_cons, sameTest, ih apart.2]

section Relabelled

variable {relabelling : Relabelling} {scope : VarId → Prop}

namespace Columns

theorem extend_map (increases : relabelling.IncreasesOn scope) {columns ids : List VarId}
    (columns_in : ∀ id ∈ columns, scope id) (ids_in : ∀ id ∈ ids, scope id) :
    extend (columns.map relabelling.ids) (ids.map relabelling.ids) =
      (extend columns ids).map relabelling.ids := by
  induction ids generalizing columns with
  | nil => rfl
  | cons head rest ih =>
      rw [List.forall_mem_cons] at ids_in
      have known : relabelling.ids head ∈ columns.map relabelling.ids ↔ head ∈ columns := by
        apply Iff.trans List.mem_map
        constructor
        · rintro ⟨other, other_mem, same⟩
          rwa [← (increases.ids_inj (columns_in other other_mem) ids_in.1).1 same]
        · intro head_mem
          exact ⟨head, head_mem, rfl⟩
      simp only [List.map_cons, extend, known]
      split
      case isTrue => exact ih columns_in ids_in.2
      case isFalse =>
        have longer_in : ∀ id ∈ columns ++ [head], scope id := by
          rw [List.forall_mem_append, List.forall_mem_singleton]
          exact ⟨columns_in, ids_in.1⟩
        rw [← ih longer_in ids_in.2, List.map_append, List.map_singleton]

/-- The right columns belong to the relabelled variables of the left ones. -/
structure Relabelled (relabelling : Relabelling) (scope : VarId → Prop) (left right : Columns) :
    Prop where
  inScope : ∀ id ∈ left.ids, scope id
  ids : right.ids = left.ids.map relabelling.ids

theorem relabelled_ofVariables (increases : relabelling.IncreasesOn scope) {ids : List VarId}
    (ids_in : ∀ id ∈ ids, scope id) :
    (ofVariables ids).Relabelled relabelling scope (ofVariables (ids.map relabelling.ids)) := by
  constructor
  case inScope =>
    intro id member
    exact ids_in id (mem_ids_ofVariables.1 member)
  case ids => exact extend_map increases (List.forall_mem_nil scope) ids_in

namespace Relabelled

variable {left right : Columns}

theorem count (relabelled : left.Relabelled relabelling scope right) :
    right.count = left.count := by
  rw [Columns.count, relabelled.ids, List.length_map, Columns.count]

/-- A relabelled variable has the column that the variable had. -/
theorem find? (relabelled : left.Relabelled relabelling scope right)
    (increases : relabelling.IncreasesOn scope) {id : VarId} (id_in : scope id) :
    right.find? (relabelling.ids id) = left.find? id := by
  rw [Columns.find?, Columns.find?, relabelled.ids]
  apply idxOf?_map
  intro other other_mem
  exact (increases.ids_inj (relabelled.inScope other other_mem) id_in).1

theorem indexOf (relabelled : left.Relabelled relabelling scope right)
    (increases : relabelling.IncreasesOn scope) {id : VarId} (id_in : scope id) :
    right.indexOf (relabelling.ids id) = left.indexOf id :=
  congrArg (Option.getD · 0) (relabelled.find? increases id_in)

end Relabelled

end Columns

namespace ConicProgram

variable {K : Type}

/-- The right row is the left one over relabelled variables. -/
structure Row.Relabelled (relabelling : Relabelling) (scope : VarId → Prop) (left right : Row K) :
    Prop where
  form : left.form.Relabelled relabelling scope right.form
  negated : right.negated = left.negated

variable {cones relabelledCones : List (Cone K)}

theorem relabelled_rowsOf
    (relabelled : List.Forall₂ (Cone.Relabelled relabelling scope) cones relabelledCones) :
    List.Forall₂ (Row.Relabelled relabelling scope) (rowsOf cones) (rowsOf relabelledCones) := by
  refine List.rel_append (List.rel_append ?_ ?_) ?_
  · refine List.rel_filterMap ?_ relabelled
    intro cone relabelledCone same
    cases same with
    | zero forms => exact .some ⟨forms, rfl⟩
    | nonneg forms => exact .none
    | secondOrder bounds entries => exact .none
  · refine List.rel_filterMap ?_ relabelled
    intro cone relabelledCone same
    cases same with
    | zero forms => exact .none
    | nonneg forms => exact .some ⟨forms, rfl⟩
    | secondOrder bounds entries => exact .none
  · refine List.rel_flatMap relabelled ?_
    intro cone relabelledCone same
    cases same with
    | zero forms => exact .nil
    | nonneg forms => exact .nil
    | secondOrder bounds entries =>
        exact List.rel_map (fun _ _ forms => ⟨forms, rfl⟩) (.cons bounds entries)

theorem layoutOf_relabelled
    (relabelled : List.Forall₂ (Cone.Relabelled relabelling scope) cones relabelledCones) :
    layoutOf relabelledCones = layoutOf cones := by
  induction relabelled with
  | nil => rfl
  | cons head _ ih =>
      rw [layoutOf, layoutOf, ConeLayout.mk.injEq] at ih ⊢
      rcases ih with ⟨zeros, nonnegs, secondOrders⟩
      simp only [List.countP_cons, List.filterMap_cons, zeros, nonnegs, secondOrders]
      cases head with
      | zero forms => exact ⟨rfl, rfl, rfl⟩
      | nonneg forms => exact ⟨rfl, rfl, rfl⟩
      | secondOrder bounds entries =>
          have sameLength := entries.length_eq.symm
          exact ⟨rfl, rfl, congrArg (fun length => (1 + length) :: _) sameLength⟩

variable [Scalar K] {left right : Columns}

theorem quadraticEntryAt_relabelled (increases : relabelling.IncreasesOn scope)
    (columns : left.Relabelled relabelling scope right) {entry : (VarId × VarId) × K}
    (entry_in : bothIn scope entry.1) :
    quadraticEntryAt right (Prod.map relabelling.ids relabelling.ids entry.1, entry.2) =
      quadraticEntryAt left entry := by
  simp only [quadraticEntryAt, Prod.map_fst, Prod.map_snd, columns.indexOf increases entry_in.1,
    columns.indexOf increases entry_in.2]

theorem linearCostsAt_relabelled (increases : relabelling.IncreasesOn scope)
    (columns : left.Relabelled relabelling scope right) {form relabelledForm : LinearForm K}
    (forms : form.Relabelled relabelling scope relabelledForm) :
    linearCostsAt right relabelledForm = linearCostsAt left form := by
  rw [linearCostsAt, linearCostsAt, forms.coefficients.entries, List.foldl_map, columns.count]
  apply List.foldl_ext
  intro costs entry entry_mem
  have entry_in := forms.coefficients.inScope entry.1 (List.mem_map_of_mem entry_mem)
  rw [columns.indexOf increases entry_in]

theorem rowEntriesAt_relabelled (increases : relabelling.IncreasesOn scope)
    (columns : left.Relabelled relabelling scope right) {row relabelledRow : Row K}
    (rows : row.Relabelled relabelling scope relabelledRow) (index : Nat) :
    rowEntriesAt right relabelledRow index = rowEntriesAt left row index := by
  rw [rowEntriesAt, rowEntriesAt, rows.form.coefficients.entries, List.map_map, rows.negated]
  apply List.map_congr_left
  intro entry entry_mem
  have entry_in := rows.form.coefficients.inScope entry.1 (List.mem_map_of_mem entry_mem)
  simp only [Function.comp_apply, columns.indexOf increases entry_in]

theorem map_rowConstant_relabelled {rows relabelledRows : List (Row K)}
    (relabelled : List.Forall₂ (Row.Relabelled relabelling scope) rows relabelledRows) :
    relabelledRows.map rowConstant = rows.map rowConstant := by
  induction relabelled with
  | nil => rfl
  | cons head _ ih =>
      rw [List.map_cons, List.map_cons, ih, rowConstant, rowConstant, head.form.constant,
        head.negated]

/-- All entries of the constraint matrix stay at their rows and columns. -/
theorem matrixEntries_relabelled (increases : relabelling.IncreasesOn scope)
    (columns : left.Relabelled relabelling scope right) {rows relabelledRows : List (Row K)}
    (relabelled : List.Forall₂ (Row.Relabelled relabelling scope) rows relabelledRows)
    (start : Nat) :
    ((relabelledRows.zipIdx start).flatMap fun row => rowEntriesAt right row.1 row.2) =
      (rows.zipIdx start).flatMap fun row => rowEntriesAt left row.1 row.2 := by
  induction relabelled generalizing start with
  | nil => rfl
  | cons head _ ih =>
      rw [List.zipIdx_cons, List.zipIdx_cons, List.flatMap_cons, List.flatMap_cons, ih,
        rowEntriesAt_relabelled increases columns head]

/-- Relabelled forms, listed in the same order, make a program with the same data. -/
theorem sameData_assembled (increases : relabelling.IncreasesOn scope)
    {objective relabelledObjective : QuadraticForm K} {ids : List VarId}
    (objectives : objective.Relabelled relabelling scope relabelledObjective)
    (constraints : List.Forall₂ (Cone.Relabelled relabelling scope) cones relabelledCones)
    (ids_in : ∀ id ∈ ids, scope id) :
    (assembled objective cones ids).SameData
      (assembled relabelledObjective relabelledCones (ids.map relabelling.ids)) := by
  have columns := Columns.relabelled_ofVariables increases ids_in
  have rows := relabelled_rowsOf constraints
  have products : (relabelledObjective.products.entries.map
        (quadraticEntryAt (.ofVariables (ids.map relabelling.ids)))) =
      objective.products.entries.map (quadraticEntryAt (.ofVariables ids)) := by
    rw [objectives.products.entries, List.map_map]
    apply List.map_congr_left
    intro entry entry_mem
    have entry_in := objectives.products.inScope entry.1 (List.mem_map_of_mem entry_mem)
    exact quadraticEntryAt_relabelled increases columns entry_in
  constructor
  case quadratic => simp only [assembled, products, columns.count]
  case linear => exact (linearCostsAt_relabelled increases columns objectives.linear).symm
  case matrix =>
    simp only [assembled, matrixEntries_relabelled increases columns rows, rows.length_eq,
      columns.count]
  case rhs =>
    simp only [assembled]
    exact (map_rowConstant_relabelled rows).symm
  case layout => exact (layoutOf_relabelled constraints).symm
  case offset => exact objectives.constant.symm

end ConicProgram

end Relabelled

end HingeLoss
