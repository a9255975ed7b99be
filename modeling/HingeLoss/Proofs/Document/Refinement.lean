import HingeLoss.Proofs.Document.Preparation

/-!
# From documents to conic programs

The conic program that solving a document hands over says what the document says. With no negative
weight, values of the declared names are feasible with a penalty of at most some bound exactly when
the auxiliary columns can be filled in so that the slack lies in the cones and the cost is at most
that bound; and however they are filled in, the cost never falls below the penalty.
-/

namespace HingeLoss

namespace HingeProblem

variable {problem : HingeProblem ℚ} {supply : Supply} {x : String → ℚ}

/-- The point at which the declared variables have the values of their names. -/
def pointAt (problem : HingeProblem ℚ) (supply : Supply) (x : String → ℚ) : VarId → ℚ :=
  DecisionVariables.pointOf supply problem.names.eraseDups x

theorem holds_pointAt (problem : HingeProblem ℚ) (supply : Supply) (x : String → ℚ) :
    ∀ name ∈ problem.names, ∃ expression,
      (problem.decisions supply).find? name = some expression ∧
        expression.valueAt (problem.pointAt supply x) = x name := by
  intro name member
  rcases exists_find?_decisions supply member with ⟨place, atPlace, found⟩
  exact ⟨_, found, DecisionVariables.pointOf_leafAt x atPlace⟩

/-- The bounds of the declared variables are bounds of the values of the names. -/
theorem forall_mem_decisions_iff (problem : HingeProblem ℚ) (supply : Supply) (x : String → ℚ)
    (Property : ℚ → Prop) :
    (∀ entry ∈ (problem.decisions supply).entries,
        Property (entry.2.valueAt (problem.pointAt supply x))) ↔
      ∀ name ∈ problem.names, Property (x name) := by
  constructor
  · intro holds name member
    rcases exists_find?_decisions supply member with ⟨place, atPlace, -⟩
    have value := holds (name, .var (DecisionVariables.leafAt supply name place))
      (DecisionVariables.mem_entries_numbered.2 ⟨place, atPlace, rfl⟩)
    rwa [Expression.valueAt, pointAt, DecisionVariables.pointOf_leafAt x atPlace] at value
  · intro holds entry member
    rcases DecisionVariables.mem_entries_numbered.1 member with ⟨place, atPlace, isVariable⟩
    rw [isVariable, Expression.valueAt, pointAt, DecisionVariables.pointOf_leafAt x atPlace]
    exact holds entry.1 (List.mem_eraseDups.1 (List.mem_of_getElem? atPlace))

/-- The constraints of the built model hold at the point exactly when the document is feasible,
and loose atoms make no difference. -/
theorem holdsLoosely_built_iff (buildable : problem.Buildable) (loose : Expression ℚ → Bool) :
    (∀ constraint ∈ (problem.built (problem.decisions supply)).constraints,
        constraint.HoldsLoosely loose (problem.pointAt supply x)) ↔ problem.FeasibleAt x := by
  have strict : ∀ constraint ∈ (problem.built (problem.decisions supply)).constraints,
      (constraint.HoldsLoosely loose (problem.pointAt supply x) ↔
        constraint.Allows (constraint.expression.valueAt (problem.pointAt supply x))) := by
    intro constraint member
    have free := isAtomFree_constraints_built constraint member
    have literal := hasLiteralProducts_constraints_built constraint member
    exact Constraint.holdsLoosely_iff_of_isAtomFree free literal loose _
  rw [forall₂_congr strict, forall_mem_constraints_built]
  simp only [Constraint.allows_atMost_iff, Constraint.allows_atLeast_iff, Expression.valueAt]
  have sums : ∀ term ∈ problem.constraints,
      ((term.expressionOver (problem.decisions supply)).valueAt (problem.pointAt supply x) ≤ 0 ↔
        term.valueAt x ≤ 0) := by
    intro term member
    rw [Term.valueAt_expressionOver (buildable.constraints term member)
      (holds_pointAt problem supply x)]
  have boxes := forall_mem_decisions_iff problem supply x fun value => 0 ≤ value ∧ value ≤ 1
  rw [forall₂_congr sums, boxes]
  constructor
  · intro holds
    exact ⟨holds.1, holds.2⟩
  · intro feasible
    exact ⟨feasible.bounds, feasible.constraints⟩

theorem valueAt_objective_built (buildable : problem.Buildable) (supply : Supply)
    (x : String → ℚ) :
    (problem.built (problem.decisions supply)).objective.valueAt (problem.pointAt supply x) =
      problem.penaltyAt x := by
  rw [built, Expression.valueAt_sumOf, List.map_map, penaltyAt]
  congr 1
  apply List.map_congr_left
  intro term member
  exact Term.valueAt_penaltyOver (buildable.summands term member) (holds_pointAt problem supply x)

/-- Loose values of the objective go down to the penalty and not below it. -/
theorem penaltyAt_le_of_loosened (buildable : problem.Buildable)
    (nonneg : ∀ term ∈ problem.summands, 0 ≤ term.weightOrZero) {loose : Expression ℚ → Bool}
    {value : ℚ}
    (loosened : Loosened loose (problem.pointAt supply x) true
      (problem.built (problem.decisions supply)).objective value) :
    problem.penaltyAt x ≤ value := by
  have each : ∀ summand ∈ problem.summands.map (Term.penaltyOver (problem.decisions supply)),
      ∀ value, Loosened loose (problem.pointAt supply x) true summand value →
        summand.valueAt (problem.pointAt supply x) ≤ value := by
    rw [List.forall_mem_map]
    intro term member value fromSummand
    rcases fromSummand.of_scaled with ⟨inner, fromHinge, rfl⟩
    have below := fromHinge.valueAt_hinge_le term.isAtomFree_expressionOver
    exact mul_le_mul_of_nonneg_left below (nonneg term member)
  rw [← valueAt_objective_built buildable supply, built, Expression.valueAt_sumOf]
  exact loosened.sumOf_le each

/-- What loose values attain on the built model is what the document allows. -/
theorem attainsLoosely_built_iff (buildable : problem.Buildable)
    (nonneg : ∀ term ∈ problem.summands, 0 ≤ term.weightOrZero) (supply : Supply)
    (x : String → ℚ) (bound : ℚ) :
    (problem.built (problem.decisions supply)).AttainsLoosely (fun _ => true)
        (problem.pointAt supply x) bound ↔
      problem.FeasibleAt x ∧ problem.penaltyAt x ≤ bound := by
  apply and_congr (holdsLoosely_built_iff buildable _)
  constructor
  · rintro ⟨value, loosened, below⟩
    exact (penaltyAt_le_of_loosened buildable nonneg loosened).trans below
  · intro below
    have literal := hasLiteralProducts_objective_built problem supply
    rcases Expression.exists_canonicalizes literal true supply with ⟨result, after, derivation⟩
    have reached := derivation.loosened_valueAt (fun _ => true) (problem.pointAt supply x)
    rw [valueAt_objective_built buildable] at reached
    exact ⟨_, reached, below⟩

end HingeProblem

/-- The columns of the declared variables hold the values of their names. -/
def ConicProgram.HoldsNames {K : Type} (program : ConicProgram K)
    (decisions : DecisionVariables K) (names : List String) (x : String → K)
    (vector : Nat → K) : Prop :=
  ∀ name ∈ names, ∃ leaf column, decisions.find? name = some (.var leaf) ∧
    program.columns.find? leaf.id = some column ∧ vector column = x name

namespace HingeProblem

variable {problem : HingeProblem ℚ}

theorem holdsPoint_iff_holdsNames {program : ConicProgram ℚ} {supply : Supply} {x : String → ℚ}
    {vector : Nat → ℚ} :
    program.HoldsPoint (problem.built (problem.decisions supply)).variableIds
        (problem.pointAt supply x) vector ↔
      program.HoldsNames (problem.decisions supply) problem.names x vector := by
  constructor
  · intro holdsPoint name member
    rcases exists_find?_decisions supply member with ⟨place, atPlace, found⟩
    rcases holdsPoint _ (mem_variableIds_built.2 ⟨place, name, atPlace, rfl⟩) with
      ⟨column, atColumn, value⟩
    rw [pointAt, DecisionVariables.pointOf_leafAt x atPlace] at value
    exact ⟨_, column, found, atColumn, value⟩
  · intro holdsNames id member
    rcases mem_variableIds_built.1 member with ⟨place, name, atPlace, rfl⟩
    have declared := List.mem_eraseDups.1 (List.mem_of_getElem? atPlace)
    rcases holdsNames name declared with ⟨leaf, column, found, atColumn, value⟩
    rw [decisions, DecisionVariables.find?_numbered_of_getElem? supply
      (nodup_eraseDups problem.names) atPlace, Option.some.injEq, Expression.var.injEq] at found
    subst found
    rw [pointAt, DecisionVariables.pointOf_leafAt x atPlace]
    exact ⟨column, atColumn, value⟩

/-- A valid document without negative weights has a conic program that says the same. -/
theorem exists_faithful_program (problem : HingeProblem ℚ) (valid : problem.validate = .ok ())
    (nonempty : problem.names ≠ [] ∨ problem.summands ≠ [])
    (nonneg : ∀ term ∈ problem.summands, ∀ weight, term.weight = some weight → 0 ≤ weight)
    (before : Supply) :
    ∃ decisions program, problem.HandsOver before decisions program ∧
      (∀ x bound, (problem.FeasibleAt x ∧ problem.penaltyAt x ≤ bound) ↔
          ∃ vector, program.HoldsNames decisions problem.names x vector ∧
            program.Attains vector bound) ∧
        ∀ x vector, program.HoldsNames decisions problem.names x vector →
          program.layout.Contains (program.slackAt vector) →
            problem.penaltyAt x ≤ program.costAt vector := by
  have buildable := buildable_of_validate valid
  have weights : ∀ term ∈ problem.summands, 0 ≤ term.weightOrZero := by
    intro term member
    rcases buildable.weights term member with ⟨weight, present⟩
    rw [Term.weightOrZero, present, Option.getD_some]
    exact nonneg term member weight present
  rcases Problem.exists_standard (isDcp_built weights)
      (hasLiteralProducts_objective_built problem before) hasLiteralProducts_constraints_built
      (problem.declared before) with ⟨standard, after, returns⟩
  have issued : ∀ id ∈ (problem.built (problem.decisions before)).variableIds,
      (problem.declared before).Issued id := by
    intro id member
    rcases mem_variableIds_built.1 member with ⟨place, name, atPlace, rfl⟩
    exact DecisionVariables.issued_leafAt atPlace
  rcases Problem.exists_program issued returns with ⟨program, assembled, meaning⟩
  have faithful : ∀ x bound, (problem.FeasibleAt x ∧ problem.penaltyAt x ≤ bound) ↔
      ∃ vector, program.HoldsNames (problem.decisions before) problem.names x vector ∧
        program.Attains vector bound := by
    intro x bound
    rw [← attainsLoosely_built_iff buildable weights before, meaning]
    simp only [holdsPoint_iff_holdsNames]
  refine ⟨problem.decisions before, program, ?_, faithful, ?_⟩
  · refine ⟨problem.built (problem.decisions before), problem.declared before, standard, after, ?_,
      returns, isEmpty_variableIds_eq_false nonempty returns, assembled⟩
    exact fun m => yields_model buildable before
  · intro x vector holdsNames inCones
    exact ((faithful x _).2 ⟨vector, holdsNames, inCones, le_refl _⟩).2

/-- At one half, the squared hinge of `1 - a` with weight two costs one half. -/
theorem exists_faithful_program_squared_hinge :
    let document : HingeProblem ℚ :=
      ⟨["a"], [⟨-1 / 2, ["a"], [1], none, false⟩], [⟨1, ["a"], [-1], some 2, true⟩]⟩
    ∃ decisions program, document.HandsOver .full decisions program ∧
      ∃ vector, program.HoldsNames decisions ["a"] (fun _ => 1 / 2) vector ∧
        program.Attains vector (1 / 2) := by
  intro document
  rcases exists_faithful_program document rfl (.inl (by simp [document]))
      (by simp [document]) .full with ⟨decisions, program, handsOver, faithful, -⟩
  refine ⟨decisions, program, handsOver, (faithful (fun _ => 1 / 2) (1 / 2)).1 ⟨?_, ?_⟩⟩
  · constructor
    · norm_num
    · norm_num [document, Term.valueAt, Term.entries]
  · norm_num [document, penaltyAt, Term.penaltyAt, Term.weightOrZero, Term.valueAt, Term.entries]

end HingeProblem

end HingeLoss
