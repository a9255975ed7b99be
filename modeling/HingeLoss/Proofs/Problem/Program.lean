import HingeLoss.Proofs.Problem.Exactness
import HingeLoss.Proofs.Program.Meaning
import HingeLoss.Proofs.Standard.Homomorphism
import HingeLoss.Proofs.Standard.Success

/-!
# From problems to conic programs

The conic program of a problem in standard form can always be assembled, because the standard form
lists all of its variables. Together with the meaning of the program this reads a whole problem off
the data that a conic solver is given: a bound is attained by loose values at a point exactly when a
column vector with the values of the point attains it on the program.
-/

namespace HingeLoss

theorem CanonicalizesAll.mem_occurrences_or_auxiliaries {K : Type} [Scalar K]
    {constraints : List (Constraint K)} {cones : List (Cone K)} {auxiliaries : List VarId}
    {before after : Supply}
    (derivation : CanonicalizesAll before constraints cones auxiliaries after) {cone : Cone K}
    (cone_mem : cone ∈ cones) {id : VarId} (id_mem : id ∈ cone.variableIds) :
    id ∈ Constraint.occurrencesAll constraints ∨ id ∈ auxiliaries := by
  induction derivation with
  | nil => simp at cone_mem
  | @cons _ _ _ constraint canonical form _ _ _ fromFirst linear _ ih =>
      simp only [Constraint.occurrencesAll, List.flatMap_cons, List.mem_append]
      rcases List.mem_append.1 cone_mem with inFirst | inRest
      · have known : id ∈ canonical.variableIds := by
          rcases List.mem_cons.1 inFirst with rfl | inner
          · apply Canonical.mem_variableIds_of_linear linear
            cases constraint with
            | zero expression => simpa [Constraint.cone] using id_mem
            | nonneg expression => simpa [Constraint.cone] using id_mem
          · exact Canonical.mem_variableIds.2 (.inr ⟨cone, inner, id_mem⟩)
        exact (fromFirst.mem_occurrences_or_auxiliaries known).imp .inl .inl
      · exact (ih inRest).imp .inr .inr

theorem CanonicalizesAll.exists_of_hasLiteralProducts {K : Type} [Scalar K]
    {constraints : List (Constraint K)}
    (literal : ∀ constraint ∈ constraints, constraint.expression.HasLiteralProducts)
    (before : Supply) :
    ∃ cones auxiliaries after, CanonicalizesAll before constraints cones auxiliaries after := by
  induction constraints generalizing before with
  | nil => exact ⟨_, _, _, .nil⟩
  | cons constraint rest ih =>
      rw [List.forall_mem_cons] at literal
      rcases Expression.exists_canonicalizes literal.1 false before with
        ⟨canonical, middle, fromFirst⟩
      rcases fromFirst.exists_linear rfl with ⟨form, linear⟩
      rcases ih literal.2 middle with ⟨cones, auxiliaries, after, fromRest⟩
      exact ⟨_, _, _, .cons fromFirst linear fromRest⟩

theorem Constraint.holdsLoosely_iff_of_isAtomFree {constraint : Constraint ℚ}
    (free : constraint.expression.IsAtomFree)
    (literal : constraint.expression.HasLiteralProducts) (loose : Expression ℚ → Bool)
    (point : VarId → ℚ) :
    constraint.HoldsLoosely loose point ↔
      constraint.Allows (constraint.expression.valueAt point) := by
  constructor
  · rintro ⟨value, loosened, allows⟩
    rwa [loosened.eq_valueAt_of_isAtomFree free] at allows
  · intro allows
    rcases Expression.exists_canonicalizes literal false .full with ⟨result, after, derivation⟩
    exact ⟨_, derivation.loosened_valueAt loose point, allows⟩

namespace ConicProgram

/-- The slack of the column vector lies in the cones, and its cost is at most the bound. -/
def Attains (program : ConicProgram ℚ) (vector : Nat → ℚ) (bound : ℚ) : Prop :=
  program.layout.Contains (program.slackAt vector) ∧ program.costAt vector ≤ bound

/-- The column vector holds the values that the variables have at a point. -/
def HoldsPoint {K : Type} (program : ConicProgram K) (ids : List VarId) (point : VarId → K)
    (vector : Nat → K) : Prop :=
  ∀ id ∈ ids, ∃ column, program.columns.find? id = some column ∧ vector column = point id

end ConicProgram

/-- Every variable that is mentioned is listed. -/
structure StandardProblem.Listed {K : Type} (standard : StandardProblem K) : Prop where
  objective : ∀ id ∈ standard.objective.variableIds, id ∈ standard.variableIds
  cones : ∀ cone ∈ standard.cones, ∀ id ∈ cone.variableIds, id ∈ standard.variableIds

theorem StandardProblem.Listed.assemble_eq_ok {K : Type} [Scalar K] {standard : StandardProblem K}
    (listed : standard.Listed) :
    standard.assemble =
      .ok (.assembled standard.objective standard.cones standard.variableIds) := by
  rw [assemble, ConicProgram.assemble_eq_ok listed.objective listed.cones]
  rfl

/-- Every variable that is mentioned is listed, and the linear part of the objective has no constant
of its own. -/
structure StandardProblem.Closed (standard : StandardProblem ℚ) : Prop extends standard.Listed where
  constant : standard.objective.linear.constant = 0

namespace StandardProblem.Closed

variable {standard : StandardProblem ℚ}

theorem attains_congr (closed : standard.Closed) {left right : VarId → ℚ} {bound : ℚ}
    (agree : ∀ id ∈ standard.variableIds, left id = right id) :
    standard.Attains left bound ↔ standard.Attains right bound := by
  have sameValue := QuadraticForm.valueAt_congr fun id member =>
    agree id (closed.objective id member)
  rw [Attains, Attains, sameValue]
  apply and_congr_left
  intro _
  apply forall₂_congr
  intro cone cone_mem
  apply Cone.holdsAt_congr
  intro id id_mem
  exact agree id (closed.cones cone cone_mem id id_mem)

/-- The conic program exists, and with each variable valued by its column it says the same as the
standard form. -/
theorem exists_program (closed : standard.Closed) :
    ∃ program, standard.assemble = .ok program ∧
      program.columns = .ofVariables standard.variableIds ∧
        ∀ vector bound, program.Attains vector bound ↔
          standard.Attains (program.columns.valuesOf vector) bound := by
  refine ⟨.assembled standard.objective standard.cones standard.variableIds,
    closed.assemble_eq_ok, rfl, ?_⟩
  · intro vector bound
    have cost := ConicProgram.costAt_assembled closed.objective standard.cones vector
    rw [closed.constant, add_zero] at cost
    rw [ConicProgram.Attains, ConicProgram.contains_slackAt_assembled_iff closed.cones, cost]
    rfl

end StandardProblem.Closed

namespace Problem

/-- All products in the problem have literal factors. -/
def HasLiteralProducts {K : Type} (problem : Problem K) : Prop :=
  problem.objective.HasLiteralProducts ∧
    ∀ constraint ∈ problem.constraints, constraint.expression.HasLiteralProducts

section Standardizing

variable {K : Type} [Scalar K] {problem : Problem K} {before after : Supply}
  {standard : StandardProblem K}

theorem HasLiteralProducts.exists_returns (literal : problem.HasLiteralProducts)
    (before : Supply) : ∃ standard after, problem.canonicalForm.Returns before standard after := by
  rcases Expression.exists_canonicalizes literal.1 true before with
    ⟨objective, middle, fromObjective⟩
  rcases CanonicalizesAll.exists_of_hasLiteralProducts literal.2 middle with
    ⟨cones, auxiliaries, after, fromConstraints⟩
  exact ⟨_, after, returns_canonicalForm_iff.2
    ⟨objective, cones, auxiliaries, middle, fromObjective, fromConstraints, rfl⟩⟩

/-- A problem that obeys the rules and has literal factors in its products has a standard form. -/
theorem exists_standard (dcp : problem.isDcp = true)
    (objective : problem.objective.HasLiteralProducts)
    (constraints : ∀ constraint ∈ problem.constraints, constraint.expression.HasLiteralProducts)
    (before : Supply) : ∃ standard after, problem.standardize.Returns before standard after := by
  have literal : problem.HasLiteralProducts := ⟨objective, constraints⟩
  rcases literal.exists_returns before with ⟨standard, after, returns⟩
  exact ⟨standard, after, returns_standardize_iff.2 ⟨dcp, returns⟩⟩

/-- The standard form that is put together from canonical forms lists all it mentions. -/
theorem listed_of_canonicalizes {middle : Supply} {objective : Canonical K}
    {cones : List (Cone K)} {auxiliaries : List VarId}
    (fromObjective : Canonicalizes true before problem.objective objective middle)
    (fromConstraints : CanonicalizesAll middle problem.constraints cones auxiliaries after) :
    (⟨objective.form.toQuadratic, objective.cones ++ cones,
      problem.variableIds ++ objective.auxiliaries ++ auxiliaries⟩ : StandardProblem K).Listed := by
  have objectiveListed : ∀ id ∈ objective.variableIds,
      id ∈ problem.variableIds ++ objective.auxiliaries ++ auxiliaries := by
    intro id member
    simp only [List.mem_append]
    rcases fromObjective.mem_occurrences_or_auxiliaries member with occurs | auxiliary
    · exact .inl (.inl (mem_variableIds.2 (.inl occurs)))
    · exact .inl (.inr auxiliary)
  constructor
  case objective =>
    intro id member
    rw [StandardForm.mem_variableIds_toQuadratic] at member
    exact objectiveListed id (Canonical.mem_variableIds.2 (.inl member))
  case cones =>
    intro cone cone_mem id id_mem
    rcases List.mem_append.1 cone_mem with inObjective | inConstraints
    · exact objectiveListed id (Canonical.mem_variableIds.2 (.inr ⟨cone, inObjective, id_mem⟩))
    · simp only [List.mem_append]
      rcases fromConstraints.mem_occurrences_or_auxiliaries inConstraints id_mem with
        occurs | auxiliary
      · exact .inl (.inl (mem_variableIds.2 (.inr occurs)))
      · exact .inr auxiliary

/-- The standard form lists all it mentions: the variables of the problem, and then what was
drawn. -/
theorem listed_of_returns_canonicalForm
    (returns : problem.canonicalForm.Returns before standard after) :
    standard.Listed ∧ standard.variableIds = problem.variableIds ++ before.drawn after ∧
      before.next ≤ after.next := by
  rcases returns_canonicalForm_iff.1 returns with
    ⟨objective, cones, auxiliaries, middle, fromObjective, fromConstraints, rfl⟩
  have moves := fromObjective.next_le
  have movesOn := fromConstraints.next_le
  refine ⟨listed_of_canonicalizes fromObjective fromConstraints, ?_, moves.trans movesOn⟩
  rw [List.append_assoc, fromObjective.auxiliaries_eq_drawn, fromConstraints.auxiliaries_eq_drawn,
    Supply.drawn_append moves movesOn]

theorem listed_of_returns (returns : problem.standardize.Returns before standard after) :
    standard.Listed :=
  (listed_of_returns_canonicalForm (returns_standardize_iff.1 returns).2).1

/-- The problem's own variables are followed by everything that standardization draws. -/
theorem variableIds_of_returns (returns : problem.standardize.Returns before standard after) :
    standard.variableIds = problem.variableIds ++ before.drawn after ∧
      before.next ≤ after.next :=
  (listed_of_returns_canonicalForm (returns_standardize_iff.1 returns).2).2

theorem mem_variableIds_of_returns (returns : problem.standardize.Returns before standard after)
    {id : VarId} (member : id ∈ problem.variableIds) : id ∈ standard.variableIds := by
  rw [(variableIds_of_returns returns).1]
  exact List.mem_append_left _ member

/-- A positive part in the objective makes the standard form list its auxiliary variable. -/
theorem isEmpty_variableIds_of_pos (returns : problem.standardize.Returns before standard after)
    {part : Expression K} (member : .pos part ∈ problem.objective.nodes) :
    standard.variableIds.isEmpty = false := by
  rcases returns_standardize returns with
    ⟨-, objective, cones, auxiliaries, middle, fromObjective, -, rfl⟩
  have first : before.draw.1 ∈ objective.auxiliaries := by
    rw [fromObjective.auxiliaries_eq_drawn, Supply.mem_drawn]
    exact ⟨le_refl _, fromObjective.next_lt_of_pos_mem_nodes member⟩
  rw [List.isEmpty_eq_false_iff_exists_mem]
  exact ⟨before.draw.1, by simp [first]⟩

end Standardizing

variable {problem : Problem ℚ} {before after : Supply} {standard : StandardProblem ℚ}

theorem closed_of_returns (returns : problem.standardize.Returns before standard after) :
    standard.Closed := by
  refine ⟨listed_of_returns returns, ?_⟩
  rcases returns_standardize returns with
    ⟨-, objective, cones, auxiliaries, middle, fromObjective, -, rfl⟩
  exact fromObjective.linear_constant

/-- Loose values attain a bound at a point exactly when a column vector that holds the point attains
it on the conic program. -/
theorem exists_program (issued : ∀ id ∈ problem.variableIds, before.Issued id)
    (returns : problem.standardize.Returns before standard after) :
    ∃ program, standard.assemble = .ok program ∧
      ∀ point bound, problem.AttainsLoosely (fun _ => true) point bound ↔
        ∃ vector, program.HoldsPoint problem.variableIds point vector ∧
          program.Attains vector bound := by
  have closed := closed_of_returns returns
  rcases closed.exists_program with ⟨program, assembled, columns, meaning⟩
  refine ⟨program, assembled, ?_⟩
  intro point bound
  rw [← extendsTo_attains_iff issued returns]
  constructor
  · rintro ⟨values, agree, attains⟩
    have same : ∀ id ∈ standard.variableIds,
        program.columns.valuesOf (program.columns.vectorOf values) id = values id := by
      intro id member
      apply Columns.valuesOf_vectorOf
      rwa [columns, Columns.mem_ids_ofVariables]
    refine ⟨program.columns.vectorOf values, ?_, ?_⟩
    · intro id member
      have listed : id ∈ program.columns.ids := by
        rw [columns, Columns.mem_ids_ofVariables]
        exact mem_variableIds_of_returns returns member
      refine ⟨_, Columns.find?_eq_some_indexOf listed, ?_⟩
      rw [← agree id member]
      exact Columns.valuesOf_vectorOf values listed
    · rw [meaning]
      exact (closed.attains_congr same).2 attains
  · rintro ⟨vector, holdsPoint, attains⟩
    refine ⟨program.columns.valuesOf vector, ?_, (meaning vector bound).1 attains⟩
    intro id member
    rcases holdsPoint id member with ⟨column, found, same⟩
    rw [Columns.valuesOf, Columns.indexOf, found, Option.getD_some, same]

end Problem

end HingeLoss
