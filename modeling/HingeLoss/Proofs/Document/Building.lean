import HingeLoss.Proofs.Document.Defects
import HingeLoss.Proofs.Document.Model

/-!
# Building and validating

Two passes look at the structure of a document. Validation looks for the first defect of all terms,
and building the model looks up the names of each term as it goes along. Building reports events,
but what comes out of it is decided by the document alone; it succeeds exactly if all terms fit and
all summands have weights, and a document is valid exactly if in addition its numbers are finite.
-/

namespace HingeLoss

namespace Term

variable {K : Type} [Scalar K] {term : Term K} {names : List String}
  {decisions : DecisionVariables K}

/-- Looking up the names of a term's coefficients succeeds exactly if each of them is declared. -/
theorem exists_weightedVariables_eq_ok_iff (declares : decisions.Declares names) :
    (∃ terms, term.weightedVariables decisions = .ok terms) ↔
      ∀ entry ∈ term.entries, entry.2 ∈ names := by
  rw [weightedVariables, exists_mapM_eq_ok_iff]
  apply forall₂_congr
  intro entry _
  rw [← declares entry.2]
  rcases entry with ⟨coefficient, name⟩
  cases found : decisions.find? name with
  | none => simp [found]
  | some expression => simp [found]

/-- A term has an expression exactly if it fits. -/
theorem exists_expression_eq_ok_iff (declares : decisions.Declares names) :
    (∃ expression, term.expression decisions = .ok expression) ↔ term.Fits names := by
  by_cases lengths : term.names.length = term.coefficients.length
  · have seconds : term.entries.map Prod.snd = term.names := List.map_snd_zip lengths.le
    have known : (∀ entry ∈ term.entries, entry.2 ∈ names) ↔ ∀ name ∈ term.names, name ∈ names := by
      rw [← seconds, List.forall_mem_map]
    have fits : term.Fits names ↔ ∀ name ∈ term.names, name ∈ names :=
      ⟨fun fits => fits.known, fun known => ⟨lengths, known⟩⟩
    rw [fits, ← known, ← exists_weightedVariables_eq_ok_iff declares]
    simp only [expression, lengths, ne_eq, not_true, if_false, bind_eq_ok_iff,
      pure_eq_ok_iff]
    constructor
    · rintro ⟨expression, terms, found, -⟩
      exact ⟨terms, found⟩
    · rintro ⟨terms, found⟩
      exact ⟨_, terms, found, rfl⟩
  · constructor
    · rintro ⟨expression, built⟩
      simp [Term.expression, lengths, bind_eq_ok_iff] at built
    · intro fits
      exact absurd fits.lengths lengths

theorem exists_constraintOutcome_eq_ok_iff (declares : decisions.Declares names) :
    (∃ constraint, term.constraintOutcome decisions = .ok constraint) ↔ term.Fits names := by
  rw [← exists_expression_eq_ok_iff declares, constraintOutcome, exists_bind_pure_eq_ok_iff]

theorem exists_summandOutcome_eq_ok_iff (declares : decisions.Declares names) {index : Nat} :
    (∃ summand, term.summandOutcome decisions index = .ok summand) ↔
      term.Fits names ∧ ∃ weight, term.weight = some weight := by
  rw [← exists_expression_eq_ok_iff declares, summandOutcome]
  cases term.weight with
  | none => simp
  | some weight =>
      simp only [Option.some.injEq, exists_eq', and_true]
      exact exists_bind_pure_eq_ok_iff

end Term

namespace HingeProblem

variable {K : Type} [Scalar K] {problem : HingeProblem K} {names : List String}
  {decisions : DecisionVariables K}

theorem exists_constraintsOutcome_eq_ok_iff (declares : decisions.Declares names) :
    (∃ constraints, problem.constraintsOutcome decisions = .ok constraints) ↔
      ∀ term ∈ problem.constraints, term.Fits names := by
  rw [constraintsOutcome, exists_bind_pure_eq_ok_iff, exists_mapM_eq_ok_iff]
  apply forall₂_congr
  intro term _
  exact Term.exists_constraintOutcome_eq_ok_iff declares

theorem exists_objectiveOutcome_eq_ok_iff (declares : decisions.Declares names) :
    (∃ objective, problem.objectiveOutcome decisions = .ok objective) ↔
      ∀ term ∈ problem.summands, term.Fits names ∧ ∃ weight, term.weight = some weight := by
  rw [objectiveOutcome, exists_bind_pure_eq_ok_iff, exists_mapM_eq_ok_iff]
  constructor
  · intro each term member
    rcases List.mem_iff_getElem?.1 member with ⟨index, atIndex⟩
    have built := each (term, index) (List.mem_zipIdx_iff_getElem?.2 atIndex)
    exact (Term.exists_summandOutcome_eq_ok_iff declares).1 built
  · intro each entry member
    have built := each entry.1 (List.fst_mem_of_mem_zipIdx member)
    exact (Term.exists_summandOutcome_eq_ok_iff declares).2 built

/-- The builders succeed together exactly if the document is well formed. -/
theorem outcomes_eq_ok_iff (declares : decisions.Declares problem.names) :
    ((∃ constraints, problem.constraintsOutcome decisions = .ok constraints) ∧
        ∃ objective, problem.objectiveOutcome decisions = .ok objective) ↔ problem.Buildable := by
  rw [exists_constraintsOutcome_eq_ok_iff declares, exists_objectiveOutcome_eq_ok_iff declares]
  constructor
  · rintro ⟨constraints, summands⟩
    exact ⟨constraints, fun term member => (summands term member).1,
      fun term member => (summands term member).2⟩
  · intro buildable
    refine ⟨buildable.constraints, ?_⟩
    intro term member
    exact ⟨buildable.summands term member, buildable.weights term member⟩

/-- A document is valid exactly if it is well formed and its numbers are finite, and otherwise its
first defect is reported. The builders, run over its declared variables in whatever surroundings,
both succeed exactly if it is well formed. -/
theorem validate_and_build (problem : HingeProblem K) (before : Supply) :
    (problem.validate = .ok () ↔ problem.Buildable ∧ problem.HasFiniteNumbers) ∧
      (∀ failure, problem.validate = .error failure ↔ problem.FirstDefect failure) ∧
        ∃ decisions middle constraints objective,
          Modelling.YieldsEverywhere (fun _ => problem.buildVariables) before (.ok decisions)
              middle ∧
            (∀ supply, Modelling.YieldsEverywhere (fun _ => problem.buildConstraints decisions)
              supply constraints supply) ∧
              (∀ supply, Modelling.YieldsEverywhere (fun _ => problem.buildObjective decisions)
                supply objective supply) ∧
                ((∃ built, constraints = .ok built) ∧ (∃ built, objective = .ok built) ↔
                  problem.Buildable) := by
  refine ⟨validate_eq_ok_iff, fun _ => validate_eq_error_iff, ?_⟩
  let decisions : DecisionVariables K := problem.decisions before
  refine ⟨decisions, problem.declared before, problem.constraintsOutcome decisions,
    problem.objectiveOutcome decisions, ?_, ?_, ?_, ?_⟩
  · exact problem.yields_buildVariables before
  · exact problem.yields_constraintsOutcome decisions
  · exact problem.yields_objectiveOutcome decisions
  · exact outcomes_eq_ok_iff (problem.declares_decisions before)

end HingeProblem

end HingeLoss
