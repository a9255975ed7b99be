import HingeLoss.Document.Validation
import HingeLoss.Proofs.Failure
import HingeLoss.Proofs.Scalar

/-!
# The meaning of documents

A document speaks about values of names. It asks for names between zero and one at which no
constraint term is positive, and for each such choice it names a penalty: the weighted sum of the
positive parts of its summands, squared where the summand says so. A document is well formed if all
of its terms have a value, which is what validation makes sure of.
-/

namespace HingeLoss

namespace Term

/-- The lists of the term have the same length, and all of its names are declared. -/
structure Fits {K : Type} (declared : List String) (term : Term K) : Prop where
  lengths : term.names.length = term.coefficients.length
  known : ∀ name ∈ term.names, name ∈ declared

/-- The value of the term when each name has the given value. -/
def valueAt (term : Term ℚ) (x : String → ℚ) : ℚ :=
  term.constant + (term.entries.map fun (coefficient, name) => coefficient * x name).sum

/-- The penalty for the value of the term, without its weight. -/
def penaltyAt (term : Term ℚ) (x : String → ℚ) : ℚ :=
  if term.squared then max (term.valueAt x) 0 ^ 2 else max (term.valueAt x) 0

/-- The weight of the term; a term without one counts as weightless. -/
def weightOrZero {K : Type} [Zero K] (term : Term K) : K := term.weight.getD 0

end Term

namespace HingeProblem

/-- All terms fit, and every summand has a weight. -/
structure Buildable {K : Type} (problem : HingeProblem K) : Prop where
  constraints : ∀ term ∈ problem.constraints, term.Fits problem.names
  summands : ∀ term ∈ problem.summands, term.Fits problem.names
  weights : ∀ term ∈ problem.summands, ∃ weight, term.weight = some weight

/-- Every name has a value between zero and one, and no constraint term is positive. -/
structure FeasibleAt (problem : HingeProblem ℚ) (x : String → ℚ) : Prop where
  bounds : ∀ name ∈ problem.names, 0 ≤ x name ∧ x name ≤ 1
  constraints : ∀ term ∈ problem.constraints, term.valueAt x ≤ 0

def penaltyAt (problem : HingeProblem ℚ) (x : String → ℚ) : ℚ :=
  (problem.summands.map fun term => term.weightOrZero * term.penaltyAt x).sum

end HingeProblem

section Validation

variable {K : Type} [Scalar K] {declared : List String}

namespace Term

variable {term : Term K}

theorem checkLengths_eq_ok_iff :
    term.checkLengths = .ok () ↔ term.names.length = term.coefficients.length := by
  simp only [checkLengths]
  split
  case isTrue equal => simp [equal]
  case isFalse different => simp [different]

theorem checkNames_eq_ok_iff :
    term.checkNames declared = .ok () ↔ ∀ name ∈ term.names, name ∈ declared := by
  simp only [checkNames]
  split
  case h_1 name found =>
    have unknown := List.find?_some found
    have member := List.mem_of_find?_eq_some found
    simp only [reduceCtorEq, false_iff]
    intro known
    simp [known name member] at unknown
  case h_2 none =>
    simpa using none

theorem checkNumbers_eq_ok_iff : term.checkNumbers = .ok () ↔ term.isFinite = true := by
  simp only [checkNumbers]
  split
  case isTrue finite => simp [finite]
  case isFalse notFinite => simp [notFinite]

theorem validate_eq_ok_iff :
    term.validate declared = .ok () ↔ term.Fits declared ∧ term.isFinite = true := by
  simp only [validate, check_bind_eq_ok_iff, checkLengths_eq_ok_iff, checkNames_eq_ok_iff,
    checkNumbers_eq_ok_iff, ← and_assoc]
  refine and_congr_left fun _ => ⟨fun fits => ⟨fits.1, fits.2⟩, fun fits => ⟨?_, ?_⟩⟩
  · exact fits.lengths
  · exact fits.known

theorem checkWeight_eq_ok_iff {index : Nat} :
    term.checkWeight index = .ok () ↔
      ∃ weight, term.weight = some weight ∧ Scalar.isFinite weight = true := by
  simp only [checkWeight]
  cases term.weight with
  | none => simp
  | some weight =>
      cases finite : Scalar.isFinite weight with
      | true => simp [finite]
      | false => simp [finite]

end Term

namespace HingeProblem

theorem validateConstraints_eq_ok_iff {terms : List (Term K)} :
    validateConstraints declared terms = .ok () ↔
      ∀ term ∈ terms, term.validate declared = .ok () := by
  induction terms with
  | nil => simp [validateConstraints]
  | cons term rest ih =>
      simp only [validateConstraints, check_bind_eq_ok_iff, ih,
        List.forall_mem_cons]

theorem validateSummands_eq_ok_iff {index : Nat} {terms : List (Term K)} :
    validateSummands declared index terms = .ok () ↔
      ∀ term ∈ terms, term.validate declared = .ok () ∧
        ∃ weight, term.weight = some weight ∧ Scalar.isFinite weight = true := by
  induction terms generalizing index with
  | nil => simp [validateSummands]
  | cons term rest ih =>
      simp only [validateSummands, check_bind_eq_ok_iff, ih,
        Term.checkWeight_eq_ok_iff, List.forall_mem_cons, and_assoc]

/-- The model of a valid document can be built. -/
theorem buildable_of_validate {problem : HingeProblem K} (valid : problem.validate = .ok ()) :
    problem.Buildable := by
  simp only [validate, check_bind_eq_ok_iff, validateConstraints_eq_ok_iff,
    validateSummands_eq_ok_iff, Term.validate_eq_ok_iff] at valid
  rcases valid with ⟨constraints, summands⟩
  constructor
  case constraints =>
    exact fun term member => (constraints term member).1
  case summands =>
    exact fun term member => (summands term member).1.1
  case weights =>
    intro term member
    rcases summands term member with ⟨-, weight, present, -⟩
    exact ⟨weight, present⟩

theorem exists_finite_weight_of_validate {problem : HingeProblem K}
    (valid : problem.validate = .ok ()) {term : Term K} (member : term ∈ problem.summands) :
    ∃ weight, term.weight = some weight ∧ Scalar.isFinite weight = true := by
  simp only [validate, check_bind_eq_ok_iff, validateSummands_eq_ok_iff] at valid
  exact (valid.2 term member).2

end HingeProblem

end Validation

end HingeLoss
