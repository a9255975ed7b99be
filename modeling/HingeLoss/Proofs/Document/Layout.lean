import HingeLoss.Proofs.Document.CanonicalForms
import HingeLoss.Proofs.Document.Outcome
import HingeLoss.Proofs.Document.Preparation
import HingeLoss.Proofs.Program.Diagonal
import HingeLoss.Proofs.Scalar.Doubles

/-!
# The layout of programs

The conic program of a document whose weights are not negative can be read off the document. The
declared names take the first columns and the summands one column each behind them. The rows are
inequalities: two for each summand, two for each name, and one for each constraint. A summand puts
its weight on its column or on the square of it, and nothing else costs anything.
-/

namespace HingeLoss

open Scalar (Same)

/-- The multiple of a column is at most the bound. -/
def Inequality.onColumn {K : Type} [Scalar K] (column : Nat) (coefficient bound : K) :
    Inequality K :=
  ⟨fun other => if other = column then coefficient else 0, bound⟩

namespace Term

variable {K : Type} [Scalar K]

/-- The term is at most zero. -/
def bounded (names : List String) (term : Term K) : Inequality K :=
  ⟨term.coefficientAt names, -term.constant⟩

/-- The term is at most what is in the given column. -/
def boundedBy (names : List String) (column : Nat) (term : Term K) : Inequality K :=
  ⟨fun other => if other = column then -1 else term.coefficientAt names other, -term.constant⟩

end Term

namespace HingeProblem

variable {K : Type} [Scalar K]

/-- The column for the hinge of the summand at a place, behind those of the declared names. -/
def hingeColumn (problem : HingeProblem K) (place : Nat) : Nat :=
  problem.names.eraseDups.length + place

/-- The column of each summand is at least zero and at least the term, each name is between zero and
one, and the constraints hold. -/
def inequalities (problem : HingeProblem K) : List (Inequality K) :=
  (problem.summands.zipIdx.flatMap fun entry =>
      [.onColumn (problem.hingeColumn entry.2) (-1) 0,
        entry.1.boundedBy problem.names.eraseDups (problem.hingeColumn entry.2)]) ++
    ((List.range problem.names.eraseDups.length).flatMap fun place =>
        [.onColumn place (-1) 0, .onColumn place 1 1]) ++
      problem.constraints.map (Term.bounded problem.names.eraseDups)

/-- The linear costs of the columns: the weights of the summands that are not squared. -/
def linearCosts (problem : HingeProblem K) : List K :=
  List.replicate problem.names.eraseDups.length 0 ++ problem.summands.map Term.linearCost

/-- The columns of the squared summands with their weights. -/
def squareCosts (problem : HingeProblem K) : List (Nat × K) :=
  problem.summands.zipIdx.flatMap fun entry =>
    entry.1.squareCosts (problem.hingeColumn entry.2)

end HingeProblem

section Describing

variable {K : Type} [Scalar K] {before : Supply} {column : Nat}

theorem LinearForm.coefficientAt_ofColumn (before : Supply) (column other : Nat) :
    (ofVariable ⟨before.next + column⟩ : LinearForm K).coefficientAt ⟨before.next + other⟩ =
      if other = column then 1 else 0 := by
  rw [coefficientAt_ofVariable]
  simp only [VarId.mk.injEq, Nat.add_left_cancel_iff]

variable [LawfulArithmetic K]

namespace Inequality

theorem describes_lower :
    (onColumn column (-1 : K) 0).Describes before (.ofVariable ⟨before.next + column⟩) where
  coefficients other := by
    rw [LinearForm.coefficientAt_ofColumn]
    change Same _ (-(if other = column then -1 else 0))
    split
    · rw [LawfulArithmetic.neg_neg]
      exact LawfulArithmetic.same_one
    · exact LawfulArithmetic.neg_zero_same.symm
  bound := LawfulArithmetic.same_zero

theorem describes_upper :
    (onColumn column (1 : K) 1).Describes before
      ((LinearForm.ofConstant 1).add (LinearForm.ofVariable ⟨before.next + column⟩).neg) where
  coefficients other := by
    have own : (LinearForm.ofVariable ⟨before.next + column⟩ : LinearForm K).coefficientAt
        ⟨before.next + other⟩ = _ := LinearForm.coefficientAt_ofColumn before column other
    change Same _ (-(if other = column then 1 else 0))
    rw [← own]
    apply LinearForm.coefficientAt_sub LawfulArithmetic.same_zero
    rw [own]
    split
    · exact LawfulArithmetic.same_one
    · exact LawfulArithmetic.same_zero
  bound := by
    change Same (1 + (LinearForm.ofVariable _).neg.constant) 1
    rw [LinearForm.constant_neg]
    exact LawfulArithmetic.add_zero_same LawfulArithmetic.same_one LawfulArithmetic.neg_zero_same

end Inequality

namespace Term

variable {names : List String} {term : Term K}

theorem HasFiniteNumbers.constant_neg_formOver (finite : term.HasFiniteNumbers) (before : Supply)
    (names : List String) :
    Same (0 + (term.formOver before names).neg.constant) (-term.constant) := by
  have constant := (constant_formOver finite before names).neg
  rw [LinearForm.constant_neg]
  exact (LawfulArithmetic.zero_add_same LawfulArithmetic.same_zero constant.left).trans constant

variable (distinct : names.Nodup) (fits : term.Fits names) (finite : term.HasFiniteNumbers)

include distinct fits finite

theorem describes_bounded :
    (term.bounded names).Describes before (term.boundForm before names) where
  coefficients place := by
    have own : (term.formOver before names).coefficientAt ⟨before.next + place⟩ = _ :=
      coefficientAt_formOver finite distinct fits place
    change Same _ (-term.coefficientAt names place)
    rw [← own]
    apply LinearForm.coefficientAt_sub LawfulArithmetic.same_zero
    rw [own]
    exact same_coefficientAt finite names place
  bound := finite.constant_neg_formOver before names

theorem describes_boundedBy (beyond : names.length ≤ column) :
    (term.boundedBy names column).Describes before
      ((LinearForm.ofVariable ⟨before.next + column⟩).add (term.formOver before names).neg) where
  coefficients place := by
    have hinge : (LinearForm.ofVariable ⟨before.next + column⟩ : LinearForm K).coefficientAt
        ⟨before.next + place⟩ = _ := LinearForm.coefficientAt_ofColumn before column place
    have own : (term.formOver before names).coefficientAt ⟨before.next + place⟩ = _ :=
      coefficientAt_formOver finite distinct fits place
    have number := same_coefficientAt finite names place
    rw [← own] at number
    change Same _ (-(if place = column then -1 else term.coefficientAt names place))
    split
    case isTrue same =>
      -- The term itself has nothing in this column.
      have nothing : names[place]? = none := List.getElem?_eq_none (same ▸ beyond)
      rw [coefficientAt, nothing] at own
      have negated := LinearForm.coefficientAt_neg number
      rw [own] at negated
      have isZero := negated.trans LawfulArithmetic.neg_zero_same
      rw [if_pos same] at hinge
      have added := LinearForm.coefficientAt_add_of_right_zero isZero
        (hinge ▸ LawfulArithmetic.same_one)
      rw [hinge] at added
      rw [LawfulArithmetic.neg_neg]
      exact added
    case isFalse different =>
      rw [← own]
      apply LinearForm.coefficientAt_sub _ number
      rw [hinge, if_neg different]
      exact LawfulArithmetic.same_zero
  bound := finite.constant_neg_formOver before names

end Term

end Describing

namespace HingeProblem

variable {K : Type} [Scalar K]

theorem length_inequalities (problem : HingeProblem K) :
    problem.inequalities.length =
      2 * problem.summands.length + 2 * problem.names.eraseDups.length +
        problem.constraints.length := by
  simp [inequalities, List.length_flatMap]
  omega

variable [LawfulArithmetic K] {problem : HingeProblem K} {before : Supply}

theorem describe_inequalities (buildable : problem.Buildable) (finite : problem.HasFiniteNumbers)
    (before : Supply) :
    List.Forall₂ (Inequality.Describes before) problem.inequalities (problem.heldForms before) := by
  have distinct := nodup_eraseDups problem.names
  rw [inequalities, List.append_assoc]
  apply List.rel_append
  case a =>
    apply forall₂_flatMap
    intro entry member
    have summand := List.fst_mem_of_mem_zipIdx member
    apply List.Forall₂.cons Inequality.describes_lower
    apply List.Forall₂.cons _ .nil
    exact Term.describes_boundedBy distinct (buildable.summands entry.1 summand).eraseDups
      (finite.summands entry.1 summand) (Nat.le_add_right _ entry.2)
  case a =>
    apply List.rel_append
    · apply forall₂_flatMap
      intro place _
      exact .cons Inequality.describes_lower (.cons Inequality.describes_upper .nil)
    · rw [List.forall₂_map_left_iff, List.forall₂_map_right_iff, List.forall₂_same]
      intro term member
      exact Term.describes_bounded distinct (buildable.constraints term member).eraseDups
        (finite.constraints term member)

theorem isFinite_weightOrZero (finite : problem.HasFiniteNumbers) :
    ∀ term ∈ problem.summands, Scalar.isFinite term.weightOrZero = true := by
  intro term member
  rw [Term.weightOrZero]
  cases present : term.weight with
  | none => exact LawfulArithmetic.isFinite_zero
  | some weight => exact finite.weights term member weight present

theorem isFinite_squareCosts (finite : problem.HasFiniteNumbers) :
    ∀ square ∈ problem.squareCosts, Scalar.isFinite square.2 = true := by
  intro square member
  rcases List.mem_flatMap.1 member with ⟨entry, entry_mem, inSummand⟩
  rw [Term.squareCosts] at inSummand
  split at inSummand
  · rw [List.mem_singleton.1 inSummand]
    exact isFinite_weightOrZero finite entry.1 (List.fst_mem_of_mem_zipIdx entry_mem)
  · exact absurd inSummand List.not_mem_nil

namespace Preparation

/-- The standard form of a document without negative weights, written down. -/
theorem exists_charges (preparation : problem.Preparation before) (buildable : problem.Buildable)
    (finite : problem.HasFiniteNumbers)
    (nonneg : ∀ term ∈ problem.summands, 0 ≤ term.weightOrZero) :
    ∃ form, StandardForm.Charges before problem.linearCosts problem.squareCosts form ∧
      preparation.standard.objective = form.toQuadratic ∧
        preparation.standard.cones = (problem.heldForms before).map .nonneg ∧
          preparation.after =
            before.skip (problem.names.eraseDups.length + problem.summands.length) := by
  have fits : ∀ term ∈ problem.summands, term.Fits problem.names.eraseDups :=
    fun term member => (buildable.summands term member).eraseDups
  rcases preparation with ⟨decisions, model, middle, standard, after, program, builds, returns, -⟩
  rcases builds.unique fun _ => yields_model buildable before with ⟨rfl, rfl, rfl⟩
  rcases Problem.returns_standardize returns with
    ⟨-, objective, cones, auxiliaries, middle, fromObjective, fromConstraints, rfl⟩
  rcases Penalizes.exists_canonicalizes_sumOf (nodup_eraseDups problem.names) fits
    (isFinite_weightOrZero finite) nonneg with ⟨written, penalizes, derivation⟩
  rcases fromObjective.unique derivation with ⟨rfl, rfl⟩
  rcases fromConstraints.unique (canonicalizesAll_built buildable before _) with ⟨rfl, rfl⟩
  refine ⟨objective.form, penalizes.charges, rfl, ?_, rfl⟩
  rw [heldForms, List.map_append, ← penalizes.cones]

/-- The program has a column for each declared name and for each summand, and its data are those of
the document. -/
theorem isDiagonal_program (preparation : problem.Preparation before)
    (buildable : problem.Buildable) (finite : problem.HasFiniteNumbers)
    (nonneg : ∀ term ∈ problem.summands, 0 ≤ term.weightOrZero) :
    preparation.program.columns =
        .numbered before (problem.names.eraseDups.length + problem.summands.length) ∧
      preparation.program.IsDiagonal problem.linearCosts problem.squareCosts
        problem.inequalities := by
  rcases preparation.exists_charges buildable finite nonneg with
    ⟨form, charges, objective, cones, after⟩
  have listed := Problem.listed_of_returns preparation.returns
  have ids := preparation.variableIds_standard buildable
  have assembled := preparation.assembled.symm.trans listed.assemble_eq_ok
  rw [Except.ok.injEq, objective, cones, ids, after] at assembled
  have objectiveKnown := listed.objective
  rw [objective, ids, after] at objectiveKnown
  have formsKnown := listed.cones
  rw [cones, ids, after, List.forall_mem_map] at formsKnown
  rw [assembled]
  refine ⟨rfl, ?_⟩
  apply ConicProgram.isDiagonal_ofForms charges _ (isFinite_squareCosts finite)
    (describe_inequalities buildable finite before) objectiveKnown
  · intro form member id id_mem
    exact formsKnown form member id (by simpa [Cone.variableIds, Cone.forms] using id_mem)
  · simp [linearCosts]

end Preparation

/-- How the program of a document is laid out: where the declared names and the auxiliary variables
of the summands have their columns, how many rows there are, and what the data are. -/
structure LaysOut (problem : HingeProblem K) (before : Supply) (decisions : DecisionVariables K)
    (program : ConicProgram K) : Prop where
  count : program.columns.count = problem.names.eraseDups.length + problem.summands.length
  names : ∀ place name, problem.names.eraseDups[place]? = some name →
    ∃ leaf, decisions.find? name = some (.var leaf) ∧ program.columns.find? leaf.id = some place
  /-- The variables that are drawn after those of the names, in the order of the summands. -/
  hinges : ∀ place < problem.summands.length,
    program.columns.find? ((problem.declared before).skip place).draw.1 =
      some (problem.hingeColumn place)
  layout : program.layout =
    ⟨0, 2 * problem.summands.length + 2 * problem.names.eraseDups.length +
      problem.constraints.length, []⟩
  data : program.IsDiagonal problem.linearCosts problem.squareCosts problem.inequalities

/-- A valid document without negative weights that declares a name or has a summand hands over a
diagonal quadratic program, the data of which are those of the document. -/
theorem hands_over_diagonal_program [LawfulSigns K] (problem : HingeProblem K)
    (valid : problem.validate = .ok ())
    (nonneg : ∀ term ∈ problem.summands, ∀ weight, term.weight = some weight → 0 ≤ weight)
    (nonempty : problem.names ≠ [] ∨ problem.summands ≠ []) (before : Supply) :
    (∃ decisions program, problem.HandsOver before decisions program) ∧
      ∀ decisions program, problem.HandsOver before decisions program →
        problem.LaysOut before decisions program := by
  rcases validate_eq_ok_iff.1 valid with ⟨buildable, finite⟩
  have weights : ∀ term ∈ problem.summands, 0 ≤ term.weightOrZero := by
    intro term member
    rcases buildable.weights term member with ⟨weight, present⟩
    rw [Term.weightOrZero, present, Option.getD_some]
    exact nonneg term member weight present
  have dcp : (problem.built (problem.decisions before)).isDcp = true := by
    rw [isDcp_built_iff_of_validate valid]
    rintro ⟨term, member, weight, present, negative, -⟩
    exact LawfulSigns.not_neg_of_nonneg (nonneg term member weight present) negative
  constructor
  · rcases nonempty_preparation buildable dcp with ⟨preparation⟩
    exact ⟨_, _, preparation.handsOver buildable nonempty⟩
  · intro decisions program handsOver
    rcases handsOver.exists_preparation with ⟨preparation, rfl, rfl⟩
    rcases preparation.isDiagonal_program buildable finite weights with ⟨columns, data⟩
    constructor
    case count => rw [columns, Columns.count_numbered]
    case names =>
      intro place name atPlace
      refine ⟨_, ?_, preparation.find?_columns buildable atPlace⟩
      rw [(preparation.built_eq buildable).1]
      exact DecisionVariables.find?_numbered_of_getElem? before (nodup_eraseDups _) atPlace
    case hinges =>
      intro place inside
      have found : (Columns.numbered before _).find?
          ⟨before.next + problem.hingeColumn place⟩ = _ :=
        Columns.find?_numbered (Nat.add_lt_add_left inside _)
      rw [hingeColumn, ← Nat.add_assoc] at found
      rw [columns]
      exact found
    case layout => rw [data.layout, length_inequalities]
    case data => exact data

/-- Two names and two summands, one of them squared: its weight is doubled on the diagonal. -/
theorem hands_over_diagonal_program_squared_and_plain :
    let document : HingeProblem Float :=
      ⟨["a", "b", "a"], [⟨-0.5, ["a"], [1], none, false⟩],
        [⟨1, ["a"], [-1], some 2, true⟩, ⟨0.25, ["b", "b"], [1, -0.5], some 3, false⟩]⟩
    ∃ decisions program, document.HandsOver .full decisions program ∧
      program.columns.count = 4 ∧ program.layout = ⟨0, 9, []⟩ ∧
        (∃ value, program.quadratic.entries = [⟨2, 2, value⟩] ∧ Same value 4) ∧
          List.Forall₂ Same program.linear [0, 0, 0, 3] ∧
            Same (program.matrix.denseAt 3 1) 0.5 ∧ Same (program.matrix.denseAt 3 3) (-1) := by
  intro document
  have nonneg : ∀ term ∈ document.summands, ∀ weight, term.weight = some weight → 0 ≤ weight := by
    refine List.forall_mem_cons.2 ⟨?_, List.forall_mem_singleton.2 ?_⟩
    · rintro weight ⟨⟩
      decide
    · rintro weight ⟨⟩
      decide
  rcases hands_over_diagonal_program document rfl nonneg (.inl (by simp [document])) .full with
    ⟨⟨decisions, program, handsOver⟩, laysOut⟩
  have laidOut := laysOut decisions program handsOver
  have count : program.columns.count = 4 := laidOut.count
  refine ⟨decisions, program, handsOver, count, laidOut.layout, ?_, ?_, ?_, ?_⟩
  · have quadratic := laidOut.data.quadratic
    change List.Forall₂ _ _ [(2, 2)] at quadratic
    rcases List.forall₂_cons_right_iff.1 quadratic with
      ⟨⟨row, column, value⟩, rest, ⟨rfl, rfl, same⟩, others, stored⟩
    rw [List.forall₂_nil_right_iff.1 others] at stored
    have doubled : Same (Scalar.two * (2 : Float)) 4 := by
      change (Scalar.two * (2 : Float) == 4) = true
      decide +kernel
    exact ⟨value, stored, same.trans doubled⟩
  · exact laidOut.data.linear
  · exact laidOut.data.matrix 3 _ rfl 1 (by omega)
  · exact laidOut.data.matrix 3 _ rfl 3 (by omega)

end HingeProblem

end HingeLoss
