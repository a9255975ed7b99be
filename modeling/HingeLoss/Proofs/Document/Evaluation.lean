import HingeLoss.Proofs.Document.Building
import HingeLoss.Proofs.Document.Refinement

/-!
# Evaluating built models

Whatever building the model of a document returns, evaluating it gives back the meaning of the
document. At an assignment that gives the declared variables the values of their names, the bounds
of the names come first and the terms of the constraints follow, each of them in order, and the
objective evaluates to the penalty. No weight has to be positive for this: signs matter only when
the problem is brought into standard form.
-/

namespace HingeLoss

open DecisionVariables (leafAt numbered)

/-- The variable of each name has the value of the name. -/
def DecisionVariables.Assigns {K : Type} (decisions : DecisionVariables K) (names : List String)
    (assignment : Assignment K) (x : String → K) : Prop :=
  ∀ name ∈ names, ∃ leaf, decisions.find? name = some (.var leaf) ∧
    assignment leaf.id = some (x name)

/-- At an assignment that covers its variables, a constraint holds if it allows the value. -/
theorem Constraint.holdsAt_iff_allows {constraint : Constraint ℚ} {assignment : Assignment ℚ}
    {point : VarId → ℚ}
    (agrees : ∀ id ∈ constraint.expression.occurrences, assignment id = some (point id)) :
    constraint.HoldsAt assignment ↔ constraint.Allows (constraint.expression.valueAt point) := by
  rw [HoldsAt, Expression.eval_eq_valueAt agrees]
  constructor
  · rintro ⟨value, evaluated, allows⟩
    rwa [Option.some.inj evaluated]
  · intro allows
    exact ⟨_, rfl, allows⟩

namespace HingeProblem

/-- The conditions of a document on the values of its names: the bounds of each distinct name, and
then one condition for each of its constraints. -/
def conditionsAt (problem : HingeProblem ℚ) (x : String → ℚ) : List Prop :=
  problem.names.eraseDups.flatMap (fun name => [0 ≤ x name, x name ≤ 1]) ++
    problem.constraints.map fun term => term.valueAt x ≤ 0

theorem forall_mem_conditionsAt_iff {problem : HingeProblem ℚ} {x : String → ℚ} :
    (∀ condition ∈ problem.conditionsAt x, condition) ↔ problem.FeasibleAt x := by
  simp only [conditionsAt, List.forall_mem_append, List.forall_mem_map, List.mem_flatMap,
    List.mem_eraseDups]
  constructor
  · rintro ⟨bounds, constraints⟩
    refine ⟨fun name member => ⟨?_, ?_⟩, constraints⟩
    · exact bounds _ ⟨name, member, by simp⟩
    · exact bounds _ ⟨name, member, by simp⟩
  · intro feasible
    refine ⟨?_, feasible.constraints⟩
    rintro condition ⟨name, member, isBound⟩
    have bounds := feasible.bounds name member
    simp only [List.mem_cons, List.not_mem_nil, or_false] at isBound
    rcases isBound with rfl | rfl
    · exact bounds.1
    · exact bounds.2

theorem names_decisions {K : Type} (problem : HingeProblem K) (supply : Supply) :
    (problem.decisions supply).entries.map Prod.fst = problem.names.eraseDups := by
  rw [decisions, numbered, List.map_map]
  exact List.zipIdx_map_fst 0 _

/-- Distinct names have variables of their own, so there is an assignment for all values. -/
theorem exists_assigns_decisions (problem : HingeProblem ℚ) (supply : Supply) (x : String → ℚ) :
    ∃ assignment, (problem.decisions supply).Assigns problem.names assignment x := by
  refine ⟨.ofPoint (problem.pointAt supply x), ?_⟩
  intro name member
  rcases exists_find?_decisions supply member with ⟨place, atPlace, found⟩
  refine ⟨_, found, ?_⟩
  exact congrArg some (DecisionVariables.pointOf_leafAt x atPlace)

variable {problem : HingeProblem ℚ} {supply : Supply} {assignment : Assignment ℚ}
  {x : String → ℚ}

theorem length_constraints_built :
    (problem.built (problem.decisions supply)).constraints.length =
      2 * problem.names.eraseDups.length + problem.constraints.length := by
  have boxes : ∀ entries : List (String × Expression ℚ),
      (entries.flatMap fun entry => boxConstraints entry.2).length = 2 * entries.length := by
    intro entries
    simp [boxConstraints, Nat.mul_comm]
  rw [built, List.length_append, boxes, List.length_map]
  exact congrArg (2 * · + _) (count_decisions problem supply)

/-- Such an assignment covers the variables of the model. -/
theorem assignment_eq_pointAt
    (assigns : (problem.decisions supply).Assigns problem.names assignment x) {id : VarId}
    (occurs : id ∈ (problem.built (problem.decisions supply)).variableIds) :
    assignment id = some (problem.pointAt supply x id) := by
  rcases mem_variableIds_built.1 occurs with ⟨place, name, atPlace, rfl⟩
  rcases assigns name (List.mem_eraseDups.1 (List.mem_of_getElem? atPlace)) with
    ⟨leaf, found, assigned⟩
  have declared := DecisionVariables.find?_numbered_of_getElem? (K := ℚ) supply
    (nodup_eraseDups problem.names) atPlace
  have same : leaf = leafAt supply name place := by
    rw [decisions, declared, Option.some.injEq, Expression.var.injEq] at found
    exact found.symm
  rw [pointAt, DecisionVariables.pointOf_leafAt x atPlace, ← assigned, same]

/-- The bounds of a variable are the bounds of its name. -/
theorem forall₂_boxConstraints {expression : Expression ℚ} {point : VarId → ℚ} {value : ℚ}
    (evaluated : expression.valueAt point = value) :
    List.Forall₂ (fun constraint condition =>
        constraint.Allows (constraint.expression.valueAt point) ↔ condition)
      (boxConstraints expression) [0 ≤ value, value ≤ 1] := by
  subst evaluated
  exact .cons Constraint.allows_atLeast_iff (.cons Constraint.allows_atMost_iff .nil)

/-- The constraints of the model are the conditions of the document, one by one and in order. -/
theorem forall₂_allows_conditionsAt (buildable : problem.Buildable) (supply : Supply)
    (x : String → ℚ) :
    List.Forall₂ (fun constraint condition =>
        constraint.Allows (constraint.expression.valueAt (problem.pointAt supply x)) ↔ condition)
      (problem.built (problem.decisions supply)).constraints (problem.conditionsAt x) := by
  have matching : List.Forall₂ (fun entry name =>
      entry.2.valueAt (problem.pointAt supply x) = x name)
      (problem.decisions supply).entries problem.names.eraseDups := by
    rw [← names_decisions problem supply, List.forall₂_map_right_iff, List.forall₂_same]
    intro entry member
    rcases DecisionVariables.mem_entries_numbered.1 member with ⟨place, atPlace, isVariable⟩
    rw [isVariable]
    exact DecisionVariables.pointOf_leafAt x atPlace
  apply List.rel_append
  · exact List.rel_flatMap matching fun _ _ evaluated => forall₂_boxConstraints evaluated
  · rw [List.forall₂_map_left_iff, List.forall₂_map_right_iff, List.forall₂_same]
    intro term member
    rw [Constraint.allows_atMost_iff, Expression.valueAt,
      Term.valueAt_expressionOver (buildable.constraints term member)
        (holds_pointAt problem supply x)]

theorem forall₂_holdsAt_conditionsAt (buildable : problem.Buildable)
    (assigns : (problem.decisions supply).Assigns problem.names assignment x) :
    List.Forall₂ (fun constraint condition => constraint.HoldsAt assignment ↔ condition)
      (problem.built (problem.decisions supply)).constraints (problem.conditionsAt x) := by
  have covered : ∀ constraint ∈ (problem.built (problem.decisions supply)).constraints,
      (constraint.HoldsAt assignment ↔
        constraint.Allows (constraint.expression.valueAt (problem.pointAt supply x))) := by
    intro constraint member
    apply Constraint.holdsAt_iff_allows
    intro id occurs
    apply assignment_eq_pointAt assigns
    exact Problem.mem_variableIds.2 (.inr (List.mem_flatMap.2 ⟨constraint, member, occurs⟩))
  have both := (List.forall₂_and_left _ _).2
    ⟨covered, forall₂_allows_conditionsAt buildable supply x⟩
  exact both.imp fun _ _ same => same.1.trans same.2

/-- Lists of equivalent statements hold together. -/
theorem forall_mem_iff_of_forall₂ {α : Type} {Holds : α → Prop} {items : List α}
    {conditions : List Prop}
    (same : List.Forall₂ (fun item condition => Holds item ↔ condition) items conditions) :
    (∀ item ∈ items, Holds item) ↔ ∀ condition ∈ conditions, condition := by
  induction same with
  | nil => simp
  | cons head _ ih => rw [List.forall_mem_cons, List.forall_mem_cons, head, ih]

theorem eval_objective_built (buildable : problem.Buildable)
    (assigns : (problem.decisions supply).Assigns problem.names assignment x) :
    (problem.built (problem.decisions supply)).objective.eval assignment =
      some (problem.penaltyAt x) := by
  rw [← valueAt_objective_built buildable supply x]
  apply Expression.eval_eq_valueAt
  intro id occurs
  exact assignment_eq_pointAt assigns (Problem.mem_variableIds.2 (.inl occurs))

/-- Built constraints and a built objective say what the document says: at the values of the
distinct names, the constraints hold exactly if the document is feasible, two bounds for each name
first and then one for each constraint term, and the objective is the weighted penalty. -/
theorem evaluate_built (problem : HingeProblem ℚ) {before middle early earlier late later : Supply}
    {decisions : DecisionVariables ℚ} {constraints : List (Constraint ℚ)}
    {objective : Expression ℚ}
    (declares : Modelling.YieldsEverywhere (fun _ => problem.buildVariables) before
      (.ok decisions) middle)
    (constrains : Modelling.YieldsEverywhere (fun _ => problem.buildConstraints decisions) earlier
      (.ok constraints) early)
    (penalizes : Modelling.YieldsEverywhere (fun _ => problem.buildObjective decisions) later
      (.ok objective) late) :
    decisions.entries.map Prod.fst = problem.names.eraseDups ∧
      constraints.length = 2 * problem.names.eraseDups.length + problem.constraints.length ∧
        (∀ term ∈ problem.summands, ∃ weight, term.weight = some weight) ∧
          ∀ x, (∃ assignment, decisions.Assigns problem.names assignment x) ∧
            ∀ assignment, decisions.Assigns problem.names assignment x →
              List.Forall₂ (fun constraint condition =>
                  constraint.HoldsAt assignment ↔ condition)
                constraints (problem.conditionsAt x) ∧
                ((∀ constraint ∈ constraints, constraint.HoldsAt assignment) ↔
                  problem.FeasibleAt x) ∧
                  objective.eval assignment = some (problem.penaltyAt x) := by
  have declared := (declares.unique (problem.yields_buildVariables before)).1
  obtain rfl : decisions = problem.decisions before := Except.ok.inj declared
  have constrained := (constrains.unique (problem.yields_constraintsOutcome _ _)).1
  have penalized := (penalizes.unique (problem.yields_objectiveOutcome _ _)).1
  have buildable : problem.Buildable :=
    (outcomes_eq_ok_iff (problem.declares_decisions before)).1
      ⟨⟨_, constrained.symm⟩, ⟨_, penalized.symm⟩⟩
  rw [constraintsOutcome_eq_ok buildable] at constrained
  rw [objectiveOutcome_eq_ok buildable] at penalized
  obtain rfl := Except.ok.inj constrained
  obtain rfl := Except.ok.inj penalized
  refine ⟨names_decisions problem before, length_constraints_built, buildable.weights, ?_⟩
  intro x
  refine ⟨exists_assigns_decisions problem before x, ?_⟩
  intro assignment assigns
  have pointwise := forall₂_holdsAt_conditionsAt buildable assigns
  refine ⟨pointwise, ?_, eval_objective_built buildable assigns⟩
  exact (forall_mem_iff_of_forall₂ pointwise).trans forall_mem_conditionsAt_iff

/-- With `a` declared twice and counted twice in one term, `2 a - 1` is at its bound for `a = 1/2`;
the squared hinge of `1 + b` is rewarded and not penalized. -/
theorem evaluate_built_repeated_name :
    let document : HingeProblem ℚ :=
      ⟨["a", "b", "a"], [⟨-1, ["a", "a"], [1, 1], none, false⟩],
        [⟨1, ["b"], [1], some (-2), true⟩]⟩
    ∃ decisions constraints objective,
      Modelling.YieldsEverywhere (fun _ => document.buildVariables) .full (.ok decisions)
          (document.declared .full) ∧
        Modelling.YieldsEverywhere (fun _ => document.buildConstraints decisions) .full
            (.ok constraints) .full ∧
          Modelling.YieldsEverywhere (fun _ => document.buildObjective decisions) .full
              (.ok objective) .full ∧
            constraints.length = 5 ∧
              ∃ assignment, decisions.Assigns document.names assignment (fun _ => 1 / 2) ∧
                (∀ constraint ∈ constraints, constraint.HoldsAt assignment) ∧
                  objective.eval assignment = some (-9 / 2) := by
  intro document
  have buildable : document.Buildable := buildable_of_validate rfl
  have declares := document.yields_buildVariables .full
  have constrains := document.yields_constraintsOutcome (document.decisions .full) .full
  have penalizes := document.yields_objectiveOutcome (document.decisions .full) .full
  rw [constraintsOutcome_eq_ok buildable] at constrains
  rw [objectiveOutcome_eq_ok buildable] at penalizes
  rcases evaluate_built document declares constrains penalizes with ⟨-, length, -, meaning⟩
  rcases meaning fun _ => 1 / 2 with ⟨⟨assignment, assigns⟩, meaning⟩
  rcases meaning assignment assigns with ⟨-, feasible, penalty⟩
  refine ⟨_, _, _, declares, constrains, penalizes, length, assignment, assigns, ?_, ?_⟩
  · apply feasible.2
    constructor
    · norm_num
    · norm_num [document, Term.valueAt, Term.entries]
  · rw [penalty]
    norm_num [document, penaltyAt, Term.penaltyAt, Term.weightOrZero, Term.valueAt, Term.entries]

end HingeProblem

end HingeLoss
