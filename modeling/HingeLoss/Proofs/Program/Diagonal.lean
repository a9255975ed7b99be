import HingeLoss.Proofs.Program.Entries
import HingeLoss.Proofs.Standard.Charges

/-!
# Programs of single costs and inequalities

A quadratic program is diagonal if its quadratic costs are on squares of variables. If the objective
charges numbered variables one by one and all constraints are linear forms above zero, then the
assembled program is of this kind: its data are the costs and the inequalities, each at its own
place.
-/

namespace HingeLoss

open Scalar (Same)

/-- The sum of the columns, each times its coefficient, is at most the bound. -/
structure Inequality (K : Type) where
  coefficientAt : Nat → K
  bound : K

namespace Inequality

variable {K : Type} [Scalar K]

/-- The form says what the inequality says if it is held above zero: it is the bound minus the sum
over the variables that are numbered from the supply on. -/
structure Describes (before : Supply) (inequality : Inequality K) (form : LinearForm K) : Prop where
  coefficients : ∀ column, Same (form.coefficientAt ⟨before.next + column⟩)
    (-inequality.coefficientAt column)
  bound : Same form.constant inequality.bound

end Inequality

namespace ConicProgram

variable {K : Type} [Scalar K]

/-- The data of a program without second-order cones and equations, the quadratic costs of which are
multiples of squares. -/
structure IsDiagonal (program : ConicProgram K) (costs : List K) (squares : List (Nat × K))
    (inequalities : List (Inequality K)) : Prop where
  layout : program.layout = ⟨0, inequalities.length, []⟩
  matrix : ∀ row inequality, inequalities[row]? = some inequality →
    ∀ column < program.columns.count,
      Same (program.matrix.denseAt row column) (inequality.coefficientAt column)
  bounds : List.Forall₂ (fun bound inequality => Same bound inequality.bound) program.rhs
    inequalities
  quadratic : List.Forall₂ (fun stored square => stored.row = square.1 ∧ stored.column = square.1 ∧
    Same stored.value (Scalar.two * square.2)) program.quadratic.entries squares
  linear : List.Forall₂ Same program.linear costs
  offset : Same program.offset 0

end ConicProgram

namespace Columns

variable {before : Supply} {count place : Nat}

/-- The columns of variables that were drawn one after the other. -/
def numbered (before : Supply) (count : Nat) : Columns :=
  .ofVariables (before.drawn (before.skip count))

theorem ids_numbered : (numbered before count).ids = before.drawn (before.skip count) :=
  ids_ofVariables (Supply.increasing_drawn _ _).nodup

theorem getElem?_ids_numbered (inside : place < count) :
    (numbered before count).ids[place]? = some ⟨before.next + place⟩ := by
  rw [ids_numbered]
  exact Supply.getElem?_drawn (Nat.add_lt_add_left inside _)

theorem count_numbered : (numbered before count).count = count := by
  simp [Columns.count, ids_numbered, Supply.drawn]

theorem find?_numbered (inside : place < count) :
    (numbered before count).find? ⟨before.next + place⟩ = some place :=
  (find?_eq_some_iff (nodup_ids_ofVariables _)).2 (getElem?_ids_numbered inside)

theorem indexOf_numbered (inside : place < count) :
    (numbered before count).indexOf ⟨before.next + place⟩ = place := by
  rw [indexOf, find?_numbered inside, Option.getD_some]

end Columns

namespace ConicProgram

variable {K : Type} [Scalar K] [LawfulArithmetic K] {before : Supply} {count : Nat}

/-- Where at most one coefficient is added up, the sum is the coefficient. -/
theorem same_total_toList {form : LinearForm K} {id : VarId}
    (number : Same (form.coefficientAt id) (form.coefficientAt id)) :
    Same (Scalar.total (form.coefficients.get? id).toList) (form.coefficientAt id) := by
  rw [LinearForm.coefficientAt] at number ⊢
  cases found : form.coefficients.get? id with
  | none => exact LawfulArithmetic.same_zero
  | some coefficient =>
      rw [found] at number
      exact LawfulArithmetic.zero_add_same LawfulArithmetic.same_zero number

theorem same_total_negated {form : LinearForm K} {id : VarId}
    (number : Same (form.coefficientAt id) (form.coefficientAt id)) :
    Same (Scalar.total ((form.coefficients.get? id).toList.map (· * rowSign true)))
      (-form.coefficientAt id) := by
  have negated := LinearForm.coefficientAt_neg number
  have turned : form.neg.coefficients.get? id =
      (form.coefficients.get? id).map (· * rowSign true) := Coefficients.get?_scale _ _ _
  have total := same_total_toList negated.left
  rw [turned, Option.toList_map] at total
  exact total.trans negated

section Parts

variable {objective : QuadraticForm K} {forms : List (LinearForm K)}

/-- The program of forms that are held above zero, over numbered variables. -/
def ofForms (objective : QuadraticForm K) (forms : List (LinearForm K)) (before : Supply)
    (count : Nat) : ConicProgram K :=
  assembled objective (forms.map .nonneg) (before.drawn (before.skip count))

theorem denseAt_ofForms {inequality : Inequality K} {form : LinearForm K} {row column : Nat}
    (known : ∀ form ∈ forms, ∀ id ∈ form.variableIds, id ∈ before.drawn (before.skip count))
    (atRow : forms[row]? = some form) (describes : inequality.Describes before form)
    (inside : column < count) :
    Same ((ofForms objective forms before count).matrix.denseAt row column)
      (inequality.coefficientAt column) := by
  have conesKnown : ∀ cone ∈ forms.map Cone.nonneg, ∀ id ∈ cone.variableIds,
      id ∈ before.drawn (before.skip count) := by
    rw [List.forall_mem_map]
    intro form member id id_mem
    exact known form member id (by simpa [Cone.variableIds, Cone.forms] using id_mem)
  have atRow : (rowsOf (forms.map .nonneg))[row]? = some ⟨form, true⟩ := by
    rw [rowsOf_map_nonneg, List.getElem?_map, atRow, Option.map_some]
  have coefficient := describes.coefficients column
  have turned := coefficient.neg
  rw [LawfulArithmetic.neg_neg] at turned
  rw [ofForms, denseAt_assembled conesKnown atRow (Columns.getElem?_ids_numbered inside)]
  exact (same_total_negated coefficient.left).trans turned

theorem rhs_ofForms : (ofForms objective forms before count).rhs =
    forms.map LinearForm.constant := by
  change (rowsOf (forms.map .nonneg)).map rowConstant = _
  rw [rowsOf_map_nonneg, List.map_map]
  apply List.map_congr_left
  intro form _
  change -form.constant * -1 = form.constant
  rw [LawfulArithmetic.mul_neg_one, LawfulArithmetic.neg_neg]

end Parts

section Charges

variable {costs : List K} {squares : List (Nat × K)} {form : StandardForm K}
  {forms : List (LinearForm K)}

theorem linear_ofForms (charges : form.Charges before costs squares) (length : costs.length = count)
    (known : ∀ id ∈ form.toQuadratic.variableIds, id ∈ before.drawn (before.skip count)) :
    List.Forall₂ Same (ofForms form.toQuadratic forms before count).linear costs := by
  have sameLength : (ofForms form.toQuadratic forms before count).linear.length = costs.length := by
    rw [length]
    exact (length_linearCostsAt _ _).trans Columns.count_numbered
  refine List.forall₂_iff_get.2 ⟨sameLength, ?_⟩
  intro column inside insideCosts
  have atColumn := getElem?_linearCostsAt (Columns.nodup_ids_ofVariables _)
    (linearKnown known) (Columns.getElem?_ids_numbered (length ▸ insideCosts))
  have cost := charges.linear column
  rw [List.getElem?_eq_getElem insideCosts, Option.getD_some] at cost
  have stored : (ofForms form.toQuadratic forms before count).linear.get ⟨column, inside⟩ = _ :=
    (List.getElem?_eq_some_iff.1 atColumn).2
  rw [stored]
  exact (same_total_toList cost.left).trans cost

omit [LawfulArithmetic K] in
theorem quadraticEntryAt_of_square {product : (VarId × VarId) × K} {place : Nat}
    (key : product.1 = (⟨before.next + place⟩, ⟨before.next + place⟩)) (inside : place < count) :
    quadraticEntryAt (Columns.numbered before count) product =
      ⟨place, place, Scalar.two * product.2⟩ := by
  simp [quadraticEntryAt, key, Columns.indexOf_numbered inside]

theorem quadratic_ofForms (charges : form.Charges before costs squares)
    (finite : ∀ square ∈ squares, Scalar.isFinite square.2 = true)
    (known : ∀ id ∈ form.toQuadratic.variableIds, id ∈ before.drawn (before.skip count)) :
    List.Forall₂ (fun stored square => stored.row = square.1 ∧ stored.column = square.1 ∧
        Same stored.value (Scalar.two * square.2))
      (ofForms form.toQuadratic forms before count).quadratic.entries squares := by
  have inside : ∀ product ∈ form.toQuadratic.products.entries, ∀ place,
      product.1 = (⟨before.next + place⟩, ⟨before.next + place⟩) → place < count := by
    intro product member place key
    have listed := (productsKnown known product.1 (List.mem_map_of_mem member)).1
    rw [Columns.mem_ids_ofVariables, key, Supply.mem_drawn, Supply.next_skip] at listed
    exact Nat.lt_of_add_lt_add_left listed.2
  have diagonal : ∀ product ∈ form.toQuadratic.products.entries, ∃ place, place < count ∧
      product.1 = (⟨before.next + place⟩, ⟨before.next + place⟩) := by
    intro product member
    rcases forall₂_exists_of_mem charges.products member with ⟨square, -, key, -⟩
    exact ⟨square.1, inside product member square.1 key, key⟩
  have stored : (ofForms form.toQuadratic forms before count).quadratic.entries =
      form.toQuadratic.products.entries.map
        (quadraticEntryAt (Columns.numbered before count)) := by
    apply entries_quadratic_assembled known
    · intro product member
      rcases diagonal product member with ⟨place, -, key⟩
      rw [key]
    · rw [List.pairwise_map]
      apply form.toQuadratic.products.increasing.imp_of_mem
      intro left right leftMember rightMember less
      rcases diagonal left leftMember with ⟨place, placeInside, key⟩
      rcases diagonal right rightMember with ⟨other, otherInside, otherKey⟩
      rw [key, otherKey, VarId.compare_squares_eq_lt] at less
      rw [← Columns.numbered, quadraticEntryAt_of_square key placeInside,
        quadraticEntryAt_of_square otherKey otherInside]
      exact Nat.lt_of_add_lt_add_left less
  rw [stored, List.forall₂_map_left_iff]
  refine List.forall₂_iff_zip.2 ⟨charges.products.length_eq, ?_⟩
  intro product square zipped
  rcases List.of_mem_zip zipped with ⟨product_mem, square_mem⟩
  rcases List.forall₂_zip charges.products zipped with ⟨key, same⟩
  rw [quadraticEntryAt_of_square key (inside product product_mem square.1 key)]
  have doubled := LawfulArithmetic.same_two_mul (finite square square_mem) same.symm
  exact ⟨rfl, rfl, doubled.symm⟩

/-- Numbered variables that are charged one by one and bounded by inequalities have a diagonal
program. -/
theorem isDiagonal_ofForms {inequalities : List (Inequality K)}
    (charges : form.Charges before costs squares) (length : costs.length = count)
    (finite : ∀ square ∈ squares, Scalar.isFinite square.2 = true)
    (describe : List.Forall₂ (Inequality.Describes before) inequalities forms)
    (objectiveKnown : ∀ id ∈ form.toQuadratic.variableIds, id ∈ before.drawn (before.skip count))
    (formsKnown : ∀ form ∈ forms, ∀ id ∈ form.variableIds,
      id ∈ before.drawn (before.skip count)) :
    (ofForms form.toQuadratic forms before count).IsDiagonal costs squares inequalities where
  layout := by
    rw [describe.length_eq]
    exact layoutOf_map_nonneg forms
  matrix := by
    intro row inequality atRow column inside
    have inside : column < count := inside.trans_eq Columns.count_numbered
    rcases List.getElem?_eq_some_iff.1 atRow with ⟨rowInside, rfl⟩
    have formInside : row < forms.length := describe.length_eq ▸ rowInside
    exact denseAt_ofForms formsKnown (List.getElem?_eq_getElem formInside)
      (describe.get rowInside formInside) inside
  bounds := by
    rw [rhs_ofForms, List.forall₂_map_left_iff]
    apply List.Forall₂.flip
    exact describe.imp fun _ _ describes => describes.bound
  quadratic := quadratic_ofForms charges finite objectiveKnown
  linear := linear_ofForms charges length objectiveKnown
  offset := charges.constant

end Charges

end ConicProgram

end HingeLoss
