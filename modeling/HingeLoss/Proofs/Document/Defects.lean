import HingeLoss.Proofs.Document.Meaning

/-!
# Defects of documents

What is wrong with a document that is not valid. A document may have many defects; the one that is
reported is the first, in an order that is fixed here by three relations, one for a term, one for a
summand and one for the document. Each constructor is a kind of defect and says what has to be in
order for it to come first.
-/

namespace HingeLoss

variable {K : Type} [Scalar K]

namespace Term

/-- The constant of the term and all of its coefficients are finite. -/
structure HasFiniteNumbers (term : Term K) : Prop where
  constant : Scalar.isFinite term.constant = true
  coefficients : ∀ coefficient ∈ term.coefficients, Scalar.isFinite coefficient = true

/-- The term fits, and its numbers are finite. -/
structure IsSound (declared : List String) (term : Term K) : Prop where
  fits : term.Fits declared
  numbers : term.HasFiniteNumbers

/-- The term has a weight, and the weight is finite. -/
def IsWeighted (term : Term K) : Prop :=
  ∃ weight, term.weight = some weight ∧ Scalar.isFinite weight = true

/-- The first defect of a term: lists of different lengths, or else a name that is not declared, or
else a number that is not finite. Of the names that are not declared, the first is blamed. -/
inductive FirstDefect (declared : List String) (term : Term K) : Failure → Prop
  | lengths (differ : term.names.length ≠ term.coefficients.length) :
      FirstDefect declared term
        (.lengthMismatch term.display term.names.length term.coefficients.length)
  | name {before name after} (lengths : term.names.length = term.coefficients.length)
      (split : term.names = before ++ name :: after) (known : ∀ other ∈ before, other ∈ declared)
      (unknown : name ∉ declared) :
      FirstDefect declared term (.unknownVariable term.display name)
  | number (fits : term.Fits declared) (infinite : ¬term.HasFiniteNumbers) :
      FirstDefect declared term (.invalidProblem (.nonFiniteTerm term.display))

/-- The first defect of the summand at the place `index`: that of its term, or else a weight that is
missing or not finite. -/
inductive FirstSummandDefect (declared : List String) (index : Nat) (term : Term K) : Failure → Prop
  | term {failure} (defect : term.FirstDefect declared failure) :
      FirstSummandDefect declared index term failure
  | missing (sound : term.IsSound declared) (missing : term.weight = none) :
      FirstSummandDefect declared index term (.missingWeight index)
  | infinite {weight} (sound : term.IsSound declared) (present : term.weight = some weight)
      (infinite : Scalar.isFinite weight = false) :
      FirstSummandDefect declared index term
        (.invalidProblem (.nonFiniteWeight index (Scalar.text weight)))

theorem isFinite_iff {term : Term K} : term.isFinite = true ↔ term.HasFiniteNumbers := by
  rw [isFinite, Bool.and_eq_true, List.all_eq_true]
  exact ⟨fun finite => ⟨finite.1, finite.2⟩, fun finite => ⟨finite.1, finite.2⟩⟩

variable {declared : List String} {term : Term K} {failure : Failure}

theorem validate_eq_ok_iff_isSound :
    term.validate declared = .ok () ↔ term.IsSound declared := by
  rw [validate_eq_ok_iff, isFinite_iff]
  exact ⟨fun sound => ⟨sound.1, sound.2⟩, fun sound => ⟨sound.1, sound.2⟩⟩

theorem checkLengths_eq_error_iff :
    term.checkLengths = .error failure ↔
      term.names.length ≠ term.coefficients.length ∧
        failure = .lengthMismatch term.display term.names.length term.coefficients.length := by
  rw [checkLengths]
  split
  case isTrue equal => simp [equal]
  case isFalse differ => simp [differ, eq_comm]

theorem checkNames_eq_error_iff :
    term.checkNames declared = .error failure ↔
      ∃ before name after, term.names = before ++ name :: after ∧
        (∀ other ∈ before, other ∈ declared) ∧ name ∉ declared ∧
          failure = .unknownVariable term.display name := by
  have first : ∀ name, (term.names.find? fun name => !declared.contains name) = some name ↔
      ∃ before after, term.names = before ++ name :: after ∧
        (∀ other ∈ before, other ∈ declared) ∧ name ∉ declared := by
    intro name
    rw [List.find?_eq_some_iff_append]
    simp
    tauto
  rw [checkNames]
  split
  case h_1 name found =>
    rw [Except.error.injEq]
    constructor
    · rintro rfl
      rcases (first name).1 found with ⟨before, after, split, known, unknown⟩
      exact ⟨before, name, after, split, known, unknown, rfl⟩
    · rintro ⟨before, other, after, split, known, unknown, rfl⟩
      have same := found.symm.trans ((first other).2 ⟨before, after, split, known, unknown⟩)
      rw [Option.some.inj same]
  case h_2 none =>
    simp only [reduceCtorEq, false_iff]
    rintro ⟨before, other, after, split, known, unknown, -⟩
    have found := none.symm.trans ((first other).2 ⟨before, after, split, known, unknown⟩)
    simp at found

theorem checkNumbers_eq_error_iff :
    term.checkNumbers = .error failure ↔
      ¬term.HasFiniteNumbers ∧ failure = .invalidProblem (.nonFiniteTerm term.display) := by
  rw [checkNumbers, ← isFinite_iff]
  split
  case isTrue finite => simp [finite]
  case isFalse infinite => simp [infinite, eq_comm]

theorem validate_eq_error_iff :
    term.validate declared = .error failure ↔ term.FirstDefect declared failure := by
  simp only [validate, check_bind_eq_error_iff, checkLengths_eq_ok_iff, checkNames_eq_ok_iff,
    checkLengths_eq_error_iff, checkNames_eq_error_iff, checkNumbers_eq_error_iff]
  constructor
  · rintro (⟨differ, rfl⟩ | ⟨lengths, ⟨before, name, after, split, known, unknown, rfl⟩ |
      ⟨known, infinite, rfl⟩⟩)
    · exact .lengths differ
    · exact .name lengths split known unknown
    · exact .number ⟨lengths, known⟩ infinite
  · intro defect
    cases defect with
    | lengths differ => exact .inl ⟨differ, rfl⟩
    | name lengths split known unknown =>
        exact .inr ⟨lengths, .inl ⟨_, _, _, split, known, unknown, rfl⟩⟩
    | number fits infinite => exact .inr ⟨fits.lengths, .inr ⟨fits.known, infinite, rfl⟩⟩

theorem checkWeight_eq_error_iff {index : Nat} :
    term.checkWeight index = .error failure ↔
      term.weight = none ∧ failure = .missingWeight index ∨
        ∃ weight, term.weight = some weight ∧ Scalar.isFinite weight = false ∧
          failure = .invalidProblem (.nonFiniteWeight index (Scalar.text weight)) := by
  rw [checkWeight]
  cases term.weight with
  | none =>
      simp only [Except.error.injEq, true_and, reduceCtorEq, false_and, exists_false, or_false]
      exact eq_comm
  | some weight =>
      simp only [reduceCtorEq, false_and, Option.some.injEq, exists_eq_left', false_or]
      cases Scalar.isFinite weight with
      | true => simp
      | false =>
          simp only [Bool.false_eq_true, if_false, Except.error.injEq, true_and]
          exact eq_comm

theorem validateSummand_eq_error_iff {index : Nat} :
    (term.validate declared = .error failure ∨
        term.validate declared = .ok () ∧ term.checkWeight index = .error failure) ↔
      term.FirstSummandDefect declared index failure := by
  rw [validate_eq_error_iff, validate_eq_ok_iff_isSound, checkWeight_eq_error_iff]
  constructor
  · rintro (defect | ⟨sound, ⟨missing, rfl⟩ | ⟨weight, present, infinite, rfl⟩⟩)
    · exact .term defect
    · exact .missing sound missing
    · exact .infinite sound present infinite
  · intro defect
    cases defect with
    | term defect => exact .inl defect
    | missing sound missing => exact .inr ⟨sound, .inl ⟨missing, rfl⟩⟩
    | infinite sound present infinite => exact .inr ⟨sound, .inr ⟨_, present, infinite, rfl⟩⟩

end Term

namespace HingeProblem

/-- All numbers of the document are finite. The weights of constraint terms are not looked at. -/
structure HasFiniteNumbers (problem : HingeProblem K) : Prop where
  constraints : ∀ term ∈ problem.constraints, term.HasFiniteNumbers
  summands : ∀ term ∈ problem.summands, term.HasFiniteNumbers
  weights : ∀ term ∈ problem.summands, ∀ weight, term.weight = some weight →
    Scalar.isFinite weight = true

/-- The first defect of a document: that of the first constraint term with a defect, or else, if all
constraint terms are sound, that of the first summand with a defect. -/
inductive FirstDefect (problem : HingeProblem K) : Failure → Prop
  | constraint {before term after failure}
      (split : problem.constraints = before ++ term :: after)
      (sound : ∀ other ∈ before, other.IsSound problem.names)
      (defect : term.FirstDefect problem.names failure) : FirstDefect problem failure
  | summand {before term after failure}
      (constraints : ∀ other ∈ problem.constraints, other.IsSound problem.names)
      (split : problem.summands = before ++ term :: after)
      (sound : ∀ other ∈ before, other.IsSound problem.names ∧ other.IsWeighted)
      (defect : term.FirstSummandDefect problem.names before.length failure) :
      FirstDefect problem failure

variable {declared : List String} {terms : List (Term K)} {failure : Failure}

theorem validateConstraints_eq_error_iff :
    validateConstraints declared terms = .error failure ↔
      ∃ before term after, terms = before ++ term :: after ∧
        (∀ other ∈ before, other.IsSound declared) ∧ term.FirstDefect declared failure := by
  induction terms with
  | nil => simp [validateConstraints]
  | cons head rest ih =>
      rw [exists_split_cons_iff, validateConstraints, check_bind_eq_error_iff,
        Term.validate_eq_error_iff, Term.validate_eq_ok_iff_isSound, ih]
      simp only [List.forall_mem_cons, List.not_mem_nil, false_implies, implies_true, true_and]
      apply or_congr_right
      constructor
      · rintro ⟨sound, before, term, after, split, others, defect⟩
        exact ⟨before, term, after, split, ⟨sound, others⟩, defect⟩
      · rintro ⟨before, term, after, split, ⟨sound, others⟩, defect⟩
        exact ⟨sound, before, term, after, split, others, defect⟩

/-- Summands are blamed by their places, which are counted on from the first of the list. -/
theorem validateSummands_eq_error_iff {index : Nat} :
    validateSummands declared index terms = .error failure ↔
      ∃ before term after, terms = before ++ term :: after ∧
        (∀ other ∈ before, other.IsSound declared ∧ other.IsWeighted) ∧
          term.FirstSummandDefect declared (index + before.length) failure := by
  induction terms generalizing index with
  | nil => simp [validateSummands]
  | cons head rest ih =>
      rw [exists_split_cons_iff, validateSummands, check_bind_eq_error_iff,
        check_bind_eq_error_iff, ih, Term.validate_eq_ok_iff_isSound, Term.checkWeight_eq_ok_iff,
        ← Term.validateSummand_eq_error_iff, Term.validate_eq_ok_iff_isSound]
      simp only [List.forall_mem_cons, List.not_mem_nil, false_implies, implies_true, true_and,
        List.length_nil, List.length_cons, Nat.add_zero, Nat.add_assoc, Nat.add_comm 1]
      constructor
      · rintro (defect | ⟨sound, defect | ⟨weighted, before, term, after, split, others, defect⟩⟩)
        · exact .inl (.inl defect)
        · exact .inl (.inr ⟨sound, defect⟩)
        · exact .inr ⟨before, term, after, split, ⟨⟨sound, weighted⟩, others⟩, defect⟩
      · rintro ((defect | ⟨sound, defect⟩) |
          ⟨before, term, after, split, ⟨⟨sound, weighted⟩, others⟩, defect⟩)
        · exact .inl defect
        · exact .inr ⟨sound, .inl defect⟩
        · exact .inr ⟨sound, .inr ⟨weighted, before, term, after, split, others, defect⟩⟩

theorem validate_eq_ok_iff {problem : HingeProblem K} :
    problem.validate = .ok () ↔ problem.Buildable ∧ problem.HasFiniteNumbers := by
  simp only [validate, check_bind_eq_ok_iff, validateConstraints_eq_ok_iff,
    validateSummands_eq_ok_iff, Term.validate_eq_ok_iff_isSound]
  constructor
  · rintro ⟨constraints, summands⟩
    refine ⟨⟨?_, ?_, ?_⟩, ⟨?_, ?_, ?_⟩⟩
    · exact fun term member => (constraints term member).fits
    · exact fun term member => (summands term member).1.fits
    · intro term member
      rcases (summands term member).2 with ⟨weight, present, -⟩
      exact ⟨weight, present⟩
    · exact fun term member => (constraints term member).numbers
    · exact fun term member => (summands term member).1.numbers
    · intro term member weight present
      rcases (summands term member).2 with ⟨other, found, finite⟩
      rw [present, Option.some.injEq] at found
      rwa [found]
  · rintro ⟨buildable, finite⟩
    constructor
    · intro term member
      exact ⟨buildable.constraints term member, finite.constraints term member⟩
    · intro term member
      rcases buildable.weights term member with ⟨weight, present⟩
      refine ⟨⟨buildable.summands term member, finite.summands term member⟩, weight, present, ?_⟩
      exact finite.weights term member weight present

theorem validate_eq_error_iff {problem : HingeProblem K} :
    problem.validate = .error failure ↔ problem.FirstDefect failure := by
  simp only [validate, check_bind_eq_error_iff, validateConstraints_eq_ok_iff,
    Term.validate_eq_ok_iff_isSound, validateConstraints_eq_error_iff,
    validateSummands_eq_error_iff, Nat.zero_add]
  constructor
  · rintro (⟨before, term, after, split, sound, defect⟩ |
      ⟨constraints, before, term, after, split, sound, defect⟩)
    · exact .constraint split sound defect
    · exact .summand constraints split sound defect
  · intro defect
    cases defect with
    | constraint split sound defect => exact .inl ⟨_, _, _, split, sound, defect⟩
    | summand constraints split sound defect =>
        exact .inr ⟨constraints, _, _, _, split, sound, defect⟩

end HingeProblem

end HingeLoss
