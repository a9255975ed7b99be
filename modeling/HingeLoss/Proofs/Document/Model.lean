import HingeLoss.Document.Solving
import HingeLoss.Proofs.Document.Declaration
import HingeLoss.Proofs.Document.Meaning
import HingeLoss.Proofs.Expression.Operators

/-!
# Built models

The model of a document in which every term fits: its declared variables, and a problem whose
constraints and summands are given in closed form. Building it always succeeds, and at a point that
holds the values of the names its expressions have the values that the document speaks about.
-/

namespace HingeLoss

/-- The names for which there are variables are the given ones. -/
def DecisionVariables.Declares {K : Type} (decisions : DecisionVariables K) (names : List String) :
    Prop :=
  ∀ name, (∃ expression, decisions.find? name = some expression) ↔ name ∈ names

namespace Term

variable {K : Type} {term : Term K} {declared : List String}

theorem mem_of_mem_entries (fits : term.Fits declared) {entry : K × String}
    (member : entry ∈ term.entries) : entry.2 ∈ declared :=
  fits.known entry.2 (List.of_mem_zip member).2

variable [Scalar K]

def expressionOver (decisions : DecisionVariables K) (term : Term K) : Expression K :=
  .weightedSum term.constant <| term.entries.map fun entry =>
    (entry.1, (decisions.find? entry.2).getD .zero)

def penaltyOver (decisions : DecisionVariables K) (term : Term K) : Expression K :=
  .scaled term.weightOrZero ((term.expressionOver decisions).hinge term.squared)

theorem expression_eq_ok (fits : term.Fits declared) {decisions : DecisionVariables K}
    (found : ∀ name ∈ declared, ∃ expression, decisions.find? name = some expression) :
    term.expression decisions = .ok (term.expressionOver decisions) := by
  have resolved : term.weightedVariables decisions = .ok (term.entries.map fun entry =>
      (entry.1, (decisions.find? entry.2).getD .zero)) := by
    apply mapM_eq_ok
    intro entry member
    rcases found entry.2 (mem_of_mem_entries fits member) with ⟨expression, atName⟩
    simp [atName]
  simp only [expression, fits.lengths, ne_eq, not_true, if_false, resolved]
  rfl

/-- What building a constraint comes to. -/
def constraintOutcome (decisions : DecisionVariables K) (term : Term K) :
    Except Failure (Constraint K) := do
  let expression ← term.expression decisions
  return .atMost expression (.const 0)

/-- What building the summand at a place comes to. Its weight is looked at before its term. -/
def summandOutcome (decisions : DecisionVariables K) (index : Nat) (term : Term K) :
    Except Failure (Expression K) :=
  match term.weight with
  | none => .error (.missingWeight index)
  | some weight => do
      let expression ← term.expression decisions
      return .scaled weight (expression.hinge term.squared)

section Outcomes

variable {m : Type → Type} [Monad m] [LawfulMonad m] [Logger m] (term : Term K)
  (decisions : DecisionVariables K) (supply : Supply)

theorem yields_constraintOutcome :
    Modelling.Yields (term.buildConstraint decisions : Modelling m _) supply
      (term.constraintOutcome decisions) supply := by
  apply (Modelling.yields_emit _ _).bind
  apply (Modelling.yields_ofExcept rfl _).bind_outcome
  intro expression _
  exact Modelling.yields_pure _ _

theorem yields_summandOutcome (index : Nat) :
    Modelling.Yields (term.buildSummand index decisions : Modelling m _) supply
      (term.summandOutcome decisions index) supply := by
  simp only [buildSummand, summandOutcome]
  cases term.weight with
  | none => exact Modelling.yields_throw _ _
  | some weight =>
      apply (Modelling.yields_emit _ _).bind
      apply (Modelling.yields_ofExcept rfl _).bind_outcome
      intro expression _
      exact Modelling.yields_pure _ _

end Outcomes

section Values

variable {term : Term ℚ} {decisions : DecisionVariables ℚ} {point : VarId → ℚ} {x : String → ℚ}

theorem valueAt_expressionOver (fits : term.Fits declared)
    (holds : ∀ name ∈ declared, ∃ expression,
      decisions.find? name = some expression ∧ expression.valueAt point = x name) :
    (term.expressionOver decisions).valueAt point = term.valueAt x := by
  rw [expressionOver, Expression.valueAt_weightedSum, valueAt, List.map_map]
  congr 2
  apply List.map_congr_left
  intro entry member
  rcases holds entry.2 (mem_of_mem_entries fits member) with ⟨expression, found, same⟩
  simp [found, same]

theorem valueAt_penaltyOver (fits : term.Fits declared)
    (holds : ∀ name ∈ declared, ∃ expression,
      decisions.find? name = some expression ∧ expression.valueAt point = x name) :
    (term.penaltyOver decisions).valueAt point = term.weightOrZero * term.penaltyAt x := by
  change term.weightOrZero * ((term.expressionOver decisions).hinge term.squared).valueAt point = _
  rw [Expression.valueAt_hinge, valueAt_expressionOver fits holds, penaltyAt]

end Values

end Term

namespace HingeProblem

variable {K : Type}

def decisions (problem : HingeProblem K) (supply : Supply) : DecisionVariables K :=
  .numbered supply problem.names.eraseDups

theorem count_decisions (problem : HingeProblem K) (supply : Supply) :
    (problem.decisions supply).count = problem.names.eraseDups.length := by
  simp [DecisionVariables.count, decisions, DecisionVariables.numbered]

/-- The supply after the variables have been declared. -/
def declared (problem : HingeProblem K) (supply : Supply) : Supply :=
  supply.skip problem.names.eraseDups.length

theorem exists_find?_decisions {problem : HingeProblem K} (supply : Supply) {name : String}
    (member : name ∈ problem.names) :
    ∃ place, problem.names.eraseDups[place]? = some name ∧
      (problem.decisions supply).find? name =
        some (.var (DecisionVariables.leafAt supply name place)) :=
  DecisionVariables.exists_find?_numbered supply (List.mem_eraseDups.2 member)

theorem declares_decisions (problem : HingeProblem K) (before : Supply) :
    (problem.decisions before).Declares problem.names := by
  intro name
  constructor
  · rintro ⟨expression, found⟩
    by_contra unknown
    rw [← List.mem_eraseDups, ← DecisionVariables.find?_numbered_eq_none (K := K) before] at unknown
    exact Option.some_ne_none expression (found.symm.trans unknown)
  · intro member
    rcases exists_find?_decisions before member with ⟨place, -, found⟩
    exact ⟨_, found⟩

theorem emits_buildVariables (problem : HingeProblem K) (before : Supply) :
    Modelling.EmitsEverywhere (fun _ => problem.buildVariables) before
      ((DecisionVariables.repeated problem.names).map DecisionVariables.duplicateWarning)
      (.ok (problem.decisions before)) (problem.declared before) :=
  fun _ => DecisionVariables.emits_declare before problem.names

theorem yields_buildVariables (problem : HingeProblem K) (before : Supply) :
    Modelling.YieldsEverywhere (fun _ => problem.buildVariables) before
      (.ok (problem.decisions before)) (problem.declared before) :=
  fun m => (problem.emits_buildVariables before m).yields

variable [Scalar K]

/-- The problem that the document describes, over its declared variables. -/
def built (problem : HingeProblem K) (decisions : DecisionVariables K) : Problem K where
  objective := .sumOf (problem.summands.map fun term => term.penaltyOver decisions)
  constraints := decisions.entries.flatMap (fun entry => boxConstraints entry.2) ++
    problem.constraints.map fun term => .atMost (term.expressionOver decisions) (.const 0)

/-- What building the constraints comes to. -/
def constraintsOutcome (problem : HingeProblem K) (decisions : DecisionVariables K) :
    Except Failure (List (Constraint K)) := do
  let terms ← problem.constraints.mapM (Term.constraintOutcome decisions)
  return decisions.entries.flatMap (fun (_, expression) => boxConstraints expression) ++ terms

/-- What building the objective comes to. -/
def objectiveOutcome (problem : HingeProblem K) (decisions : DecisionVariables K) :
    Except Failure (Expression K) := do
  let summands ← problem.summands.zipIdx.mapM fun (term, index) =>
    term.summandOutcome decisions index
  return .sumOf summands

section Outcomes

variable (problem : HingeProblem K) (decisions : DecisionVariables K) (supply : Supply)

theorem yields_constraintsOutcome :
    Modelling.YieldsEverywhere (fun _ => problem.buildConstraints decisions) supply
      (problem.constraintsOutcome decisions) supply := by
  intro m _ _ _ _
  apply Modelling.Yields.bind_outcome
  · exact .mapM_outcome fun term _ => term.yields_constraintOutcome decisions supply
  · intro terms _
    exact Modelling.yields_pure _ _

theorem yields_objectiveOutcome :
    Modelling.YieldsEverywhere (fun _ => problem.buildObjective decisions) supply
      (problem.objectiveOutcome decisions) supply := by
  intro m _ _ _ _
  apply Modelling.Yields.bind_outcome
  · exact .mapM_outcome fun entry _ => entry.1.yields_summandOutcome decisions supply entry.2
  · intro summands _
    exact Modelling.yields_pure _ _

end Outcomes

section Results

variable {problem : HingeProblem K}

theorem constraintsOutcome_eq_ok (buildable : problem.Buildable) (supply : Supply) :
    problem.constraintsOutcome (problem.decisions supply) =
      .ok (problem.built (problem.decisions supply)).constraints := by
  have each : ∀ term ∈ problem.constraints, term.constraintOutcome (problem.decisions supply) =
      .ok (.atMost (term.expressionOver (problem.decisions supply)) (.const 0)) := by
    intro term member
    have built := Term.expression_eq_ok (buildable.constraints term member)
      fun name => (problem.declares_decisions supply name).2
    rw [Term.constraintOutcome, built]
    rfl
  rw [constraintsOutcome, mapM_eq_ok each]
  rfl

theorem objectiveOutcome_eq_ok (buildable : problem.Buildable) (supply : Supply) :
    problem.objectiveOutcome (problem.decisions supply) =
      .ok (problem.built (problem.decisions supply)).objective := by
  have each : ∀ entry ∈ problem.summands.zipIdx,
      entry.1.summandOutcome (problem.decisions supply) entry.2 =
        .ok (entry.1.penaltyOver (problem.decisions supply)) := by
    intro entry member
    have member := List.fst_mem_of_mem_zipIdx member
    have built := Term.expression_eq_ok (buildable.summands _ member)
      fun name => (problem.declares_decisions supply name).2
    rcases buildable.weights _ member with ⟨weight, present⟩
    rw [Term.summandOutcome, Term.penaltyOver, Term.weightOrZero, present, built]
    rfl
  have unnumbered : (problem.summands.zipIdx.map fun entry =>
      entry.1.penaltyOver (problem.decisions supply)) =
        problem.summands.map (Term.penaltyOver (problem.decisions supply)) := by
    rw [← Function.comp_def, ← List.map_map, List.zipIdx_map_fst]
  rw [objectiveOutcome, mapM_eq_ok each, unnumbered]
  rfl

end Results

section Building

variable {m : Type → Type} [Monad m] [LawfulMonad m] [Logger m] [Clock m]

theorem yields_reportComplete (step : String) (start : Nat) (supply : Supply) :
    Modelling.Yields (reportComplete step start : Modelling m _) supply (.ok ⟨⟩) supply :=
  Modelling.Yields.milliseconds_bind fun _ => Modelling.yields_emit _ _

/-- A document in which every term fits has a model, whatever the surroundings do. -/
theorem yields_model {problem : HingeProblem K} (buildable : problem.Buildable) (supply : Supply) :
    Modelling.Yields (problem.model : Modelling m _) supply
      (.ok (problem.decisions supply, problem.built (problem.decisions supply)))
      (problem.declared supply) := by
  have constraints := problem.yields_constraintsOutcome (problem.decisions supply)
    (problem.declared supply) m
  have objective := problem.yields_objectiveOutcome (problem.decisions supply)
    (problem.declared supply) m
  rw [constraintsOutcome_eq_ok buildable] at constraints
  rw [objectiveOutcome_eq_ok buildable] at objective
  apply (Modelling.yields_emit _ _).bind
  apply Modelling.Yields.milliseconds_bind
  intro start
  apply (problem.yields_buildVariables supply m).bind
  apply constraints.bind
  apply objective.bind
  exact (Modelling.yields_emit _ _).bind
    ((yields_reportComplete _ start _).bind (Modelling.yields_pure _ _))

end Building

end HingeProblem

end HingeLoss
