import HingeLoss.Proofs.Document.Outcome
import HingeLoss.Proofs.Document.Refinement

/-!
# Reports

When solving a valid document succeeds, the report lists the declared names in the order of their
first declaration, each with the number that the solver put into the column of the name's own
variable. The reported objective is the objective of the model at just these values, and never the
number that the solver claims for it; over exact numbers, it is the penalty of the document.
-/

namespace HingeLoss

open DecisionVariables (leafAt numbered)

namespace SolvedValues

variable {K : Type}

/-- The assignment that gives the variable of each declared name the value of the name, and no value
to any other variable. -/
def assignment (values : SolvedValues K) (decisions : DecisionVariables K) : Assignment K :=
  fun id =>
    (decisions.entries.find? fun entry => entry.2.variableId? == some id).bind fun entry =>
      values.find? entry.1

theorem assignment_numbered (values : SolvedValues K) {supply : Supply} {names : List String}
    {place : Nat} {name : String} (atPlace : names[place]? = some name) :
    values.assignment (numbered supply names) (leafAt supply name place).id =
      values.find? name := by
  have member : (name, (.var (leafAt supply name place) : Expression K)) ∈
      (numbered supply names).entries :=
    DecisionVariables.mem_entries_numbered.2 ⟨place, atPlace, rfl⟩
  rw [assignment]
  cases found : (numbered supply names : DecisionVariables K).entries.find? fun entry =>
      entry.2.variableId? == some (leafAt supply name place).id with
  | none =>
      rw [List.find?_eq_none] at found
      exact absurd (found _ member) (by simp [Expression.variableId?])
  | some entry =>
      rcases DecisionVariables.mem_entries_numbered.1 (List.mem_of_find?_eq_some found) with
        ⟨other, atOther, isVariable⟩
      have sameId := List.find?_some found
      simp only [isVariable, Expression.variableId?, DecisionVariables.id_leafAt, beq_iff_eq,
        Option.some.injEq, VarId.mk.injEq, Nat.add_left_cancel_iff] at sameId
      rw [sameId, atPlace, Option.some.injEq] at atOther
      rw [Option.bind_some, atOther]

theorem find?_ofPoint {names : List String} (distinct : names.Nodup) {place : Nat} {name : String}
    (atPlace : names[place]? = some name) (point : Nat → K) :
    (ofPoint names point).find? name = some (point place) := by
  rw [find?, ofPoint, lookup_map_zipIdx (fun _ place => point place),
    idxOf?_of_getElem? distinct atPlace, Option.map_some]

end SolvedValues

namespace HingeProblem

variable {K : Type} [Scalar K] {problem : HingeProblem K} {before : Supply}

/-- With values for all variables of the objective, no other number is reported. -/
theorem objectiveAt_eq {objective : Expression K} {solution : Solution K}
    {assignment : Assignment K} (point : solution.primal.isSome = true)
    (valued : ∀ id ∈ objective.occurrences, ∃ value,
      solution.valueOf? id = some value ∧ assignment id = some value) :
    ∃ value, objective.eval assignment = some value ∧
      objectiveAt objective solution = some value := by
  rcases Option.isSome_iff_exists.1 point with ⟨values, primal⟩
  have same : objective.eval (fun id => values.lookup id) = objective.eval assignment := by
    apply Expression.eval_congr
    intro id member
    rcases valued id member with ⟨value, atSolution, atAssignment⟩
    rw [Solution.valueOf?, primal, Option.bind_some] at atSolution
    rw [atSolution, atAssignment]
  have covered : ∀ id ∈ objective.occurrences, (assignment id).isSome := by
    intro id member
    rcases valued id member with ⟨value, -, atAssignment⟩
    rw [atAssignment, Option.isSome_some]
  rcases Option.isSome_iff_exists.1 (Expression.isSome_eval_iff.2 covered) with ⟨value, evaluated⟩
  refine ⟨value, evaluated, ?_⟩
  rw [objectiveAt, primal, Option.bind_some, same, evaluated, Option.some_or]

namespace Preparation

/-- The values are the numbers that the answer has in the columns of the declared variables: each
distinct name has the column at its own place. -/
def ReadsOff (preparation : problem.Preparation before) (answer : Answer K)
    (values : SolvedValues K) : Prop :=
  ∀ place name, problem.names.eraseDups[place]? = some name →
    ∃ leaf value, preparation.decisions.find? name = some (.var leaf) ∧
      preparation.program.columns.find? leaf.id = some place ∧
        values.entries[place]? = some (name, value) ∧
          (answer.point.length = preparation.program.columns.count →
            answer.point[place]? = some value)

/-- What a report says, and where it comes from. -/
structure Reports (preparation : problem.Preparation before) (solver : ConicSolver K)
    (settings : Settings) (values : SolvedValues K) (summary : Summary K) : Prop where
  names : values.entries.map Prod.fst = problem.names.eraseDups
  variableCount : summary.variableCount = problem.names.eraseDups.length
  constraintCount : summary.constraintCount = problem.constraints.length
  summandCount : summary.summandCount = problem.summands.length
  objective : ∃ value,
    preparation.model.objective.eval (values.assignment preparation.decisions) = some value ∧
      summary.objective = some value
  /-- Without any variable there is nothing to ask the solver for. -/
  source : (preparation.standard.variableIds = [] ∧ summary.status = .optimal) ∨
    ∃ answer, solver preparation.program settings = .ok answer ∧
      summary.status = answer.termination.status ∧ preparation.ReadsOff answer values

variable {preparation : problem.Preparation before} {solver : ConicSolver K} {settings : Settings}

theorem readsOff_ofPoint (buildable : problem.Buildable) (answer : Answer K) :
    preparation.ReadsOff answer (.ofPoint problem.names.eraseDups answer.pointAt) := by
  intro place name atPlace
  have column := preparation.find?_columns buildable atPlace
  refine ⟨leafAt before name place, answer.pointAt place, ?_, column, ?_, ?_⟩
  · rw [(preparation.built_eq buildable).1]
    exact DecisionVariables.find?_numbered_of_getElem? before (nodup_eraseDups _) atPlace
  · simp [SolvedValues.ofPoint, List.getElem?_zipIdx, atPlace]
  · intro filled
    have inside := Columns.lt_count_of_find?_eq_some column
    rw [← filled] at inside
    rw [Answer.pointAt, List.getD_eq_getElem?_getD, List.getElem?_eq_getElem inside,
      Option.getD_some]

/-- The objective speaks about the declared variables only. -/
theorem exists_leafAt_of_mem_occurrences (buildable : problem.Buildable) {id : VarId}
    (occurs : id ∈ preparation.model.objective.occurrences) :
    ∃ place name, problem.names.eraseDups[place]? = some name ∧
      id = (leafAt before name place).id := by
  have listed : id ∈ preparation.model.variableIds := Problem.mem_variableIds.2 (.inl occurs)
  rw [(preparation.built_eq buildable).2.1] at listed
  exact mem_variableIds_built.1 listed

theorem reports_of_unlisted (buildable : problem.Buildable)
    (unlisted : preparation.standard.variableIds = []) {solution : Solution K}
    (holds : preparation.standard.constantSolution = .ok solution) :
    preparation.Reports solver settings ⟨[]⟩
      (problem.summaryOf preparation.decisions preparation.model.objective solution) := by
  have noNames := eraseDups_names_of_unlisted buildable unlisted
  rw [StandardProblem.constantSolution] at holds
  split at holds
  case isFalse => simp at holds
  case isTrue =>
    rw [Except.ok.injEq] at holds
    subst holds
    constructor
    case names => exact noNames.symm
    case variableCount =>
      rw [(preparation.built_eq buildable).1]
      exact count_decisions problem before
    case constraintCount => rfl
    case summandCount => rfl
    case objective =>
      refine objectiveAt_eq rfl ?_
      intro id occurs
      rcases exists_leafAt_of_mem_occurrences buildable occurs with ⟨place, name, atPlace, -⟩
      simp [noNames] at atPlace
    case source => exact .inl ⟨unlisted, rfl⟩

theorem reports_of_solved (buildable : problem.Buildable) {answer : Answer K}
    (answered : solver preparation.program settings = .ok answer)
    (solved : answer.termination.status.isSolved = true) :
    preparation.Reports solver settings (.ofPoint problem.names.eraseDups answer.pointAt)
      (problem.summaryOf preparation.decisions preparation.model.objective
        (answer.solution preparation.program)) := by
  constructor
  case names =>
    rw [SolvedValues.ofPoint, List.map_map]
    exact List.zipIdx_map_fst 0 _
  case variableCount =>
    rw [(preparation.built_eq buildable).1]
    exact count_decisions problem before
  case constraintCount => rfl
  case summandCount => rfl
  case objective =>
    refine objectiveAt_eq (by rw [Answer.solution, if_pos solved]; rfl) ?_
    intro id occurs
    rcases exists_leafAt_of_mem_occurrences buildable occurs with ⟨place, name, atPlace, rfl⟩
    refine ⟨answer.pointAt place, ?_, ?_⟩
    · rw [Answer.valueOf?_solution _ solved, preparation.find?_columns buildable atPlace,
        Option.map_some]
    · rw [(preparation.built_eq buildable).1]
      exact (SolvedValues.assignment_numbered _ atPlace).trans
        (SolvedValues.find?_ofPoint (nodup_eraseDups _) atPlace _)
  case source =>
    exact .inr ⟨answer, answered, answer.status_solution _, readsOff_ofPoint buildable answer⟩

end Preparation

/-- A document that is solved has been prepared. -/
theorem nonempty_preparation_of_solvesTo (buildable : problem.Buildable) {solver : ConicSolver K}
    {settings : Settings} {report : SolvedValues K × Summary K} {after : Supply}
    (solved : problem.SolvesTo solver settings before (.ok report) after) :
    Nonempty (problem.Preparation before) := by
  cases dcp : (problem.built (problem.decisions before)).isDcp with
  | true => exact nonempty_preparation buildable dcp
  | false =>
      have refused := solvesTo_violations buildable dcp solver settings
      exact absurd (Modelling.YieldsEverywhere.unique solved refused).1 (by simp)

theorem exists_reports (buildable : problem.Buildable) {solver : ConicSolver K}
    {settings : Settings} {after : Supply} {values : SolvedValues K} {summary : Summary K}
    (solved : problem.SolvesTo solver settings before (.ok (values, summary)) after) :
    ∃ preparation : problem.Preparation before,
      preparation.Reports solver settings values summary := by
  rcases nonempty_preparation_of_solvesTo buildable solved with ⟨preparation⟩
  refine ⟨preparation, ?_⟩
  have outcome := preparation.solvesTo solver settings
  have same := (Modelling.YieldsEverywhere.unique outcome solved).1
  rcases bind_eq_ok_iff.1 same with ⟨solution, found, answered⟩
  rw [answer, bind_eq_ok_iff] at answered
  rcases answered with ⟨resolvedValues, resolved, reported⟩
  obtain ⟨rfl, rfl⟩ := Prod.mk.inj (Except.ok.inj reported)
  have ends := preparation.ends_outcome solver settings
  rw [found] at ends
  cases ends with
  | constant unlisted holds =>
      rw [Preparation.resolve_of_unlisted buildable unlisted, Except.ok.injEq] at resolved
      subst resolved
      exact Preparation.reports_of_unlisted buildable unlisted holds
  | solved _ answered isSolved =>
      rw [preparation.resolve_solution buildable isSolved, Except.ok.injEq] at resolved
      subst resolved
      exact Preparation.reports_of_solved buildable answered isSolved

theorem Preparation.Reports.exists_find? {preparation : problem.Preparation before}
    {solver : ConicSolver K} {settings : Settings} {values : SolvedValues K} {summary : Summary K}
    (reports : preparation.Reports solver settings values summary) {name : String}
    (member : name ∈ problem.names.eraseDups) : ∃ value, values.find? name = some value := by
  rw [← reports.names, List.mem_map] at member
  rcases member with ⟨entry, entry_mem, rfl⟩
  rw [← Option.ne_none_iff_exists', SolvedValues.find?, ne_eq, List.lookup_eq_none_iff]
  intro absent
  simpa using absent entry entry_mem

/-- Over exact numbers, the reported objective is the penalty of the reported values. -/
theorem Preparation.Reports.objective_eq_penaltyAt {problem : HingeProblem ℚ}
    (buildable : problem.Buildable) {preparation : problem.Preparation before}
    {solver : ConicSolver ℚ} {settings : Settings} {values : SolvedValues ℚ} {summary : Summary ℚ}
    (reports : preparation.Reports solver settings values summary) :
    summary.objective = some (problem.penaltyAt fun name => (values.find? name).getD 0) := by
  rcases reports.objective with ⟨value, evaluated, reported⟩
  rw [reported, ← evaluated, ← valueAt_objective_built buildable before,
    ← (preparation.built_eq buildable).2.1]
  apply Expression.eval_eq_valueAt
  intro id occurs
  rcases exists_leafAt_of_mem_occurrences buildable occurs with ⟨place, name, atPlace, rfl⟩
  rcases reports.exists_find? (List.mem_of_getElem? atPlace) with ⟨value, found⟩
  rw [(preparation.built_eq buildable).1, pointAt, DecisionVariables.pointOf_leafAt _ atPlace,
    found, Option.getD_some, ← found]
  exact values.assignment_numbered atPlace

/-- What solving a valid document reports: each distinct name once, in order and with the number in
its own column, the sizes of the document, the solver's status, and the objective at these very
values. -/
theorem solve_reports :
    (∀ (K : Type) [Scalar K] (problem : HingeProblem K) (solver : ConicSolver K)
        (settings : Settings) (before after : Supply) (values : SolvedValues K)
        (summary : Summary K), problem.validate = .ok () →
          problem.SolvesTo solver settings before (.ok (values, summary)) after →
            ∃ preparation : problem.Preparation before,
              preparation.Reports solver settings values summary) ∧
      ∀ (problem : HingeProblem ℚ) (solver : ConicSolver ℚ) (settings : Settings)
        (before after : Supply) (values : SolvedValues ℚ) (summary : Summary ℚ),
        problem.validate = .ok () →
          problem.SolvesTo solver settings before (.ok (values, summary)) after →
            summary.objective =
              some (problem.penaltyAt fun name => (values.find? name).getD 0) := by
  constructor
  · intro K _ problem solver settings before after values summary valid solved
    exact exists_reports (buildable_of_validate valid) solved
  · intro problem solver settings before after values summary valid solved
    rcases exists_reports (buildable_of_validate valid) solved with ⟨preparation, reports⟩
    exact reports.objective_eq_penaltyAt (buildable_of_validate valid)

/-- Whatever a solver returns as solved is reported. -/
theorem Preparation.solvesTo_of_solved (buildable : problem.Buildable)
    {preparation : problem.Preparation before} {solver : ConicSolver K} {settings : Settings}
    {answer : Answer K} (listed : preparation.standard.variableIds ≠ [])
    (answered : solver preparation.program settings = .ok answer)
    (solved : answer.termination.status.isSolved = true) :
    problem.SolvesTo solver settings before
      (.ok (.ofPoint problem.names.eraseDups answer.pointAt,
        problem.summaryOf preparation.decisions preparation.model.objective
          (answer.solution preparation.program))) preparation.after := by
  have outcome := preparation.solvesTo solver settings
  have ends := preparation.ends_outcome solver settings
  generalize preparation.standard.outcome solver settings = ended at outcome ends
  cases ends with
  | violated unlisted => exact absurd unlisted listed
  | constant unlisted _ => exact absurd unlisted listed
  | refused _ refused => simp [answered] at refused
  | failed _ other failed =>
      rw [answered, Except.ok.injEq] at other
      rw [← other] at failed
      cases status : answer.termination.status <;>
        simp_all [SolveStatus.failure?, SolveStatus.isSolved]
  | solved _ other _ =>
      rw [answered, Except.ok.injEq] at other
      subst other
      change problem.SolvesTo solver settings before
        (problem.answer preparation.decisions preparation.model.objective
          (answer.solution preparation.program)) preparation.after at outcome
      rwa [HingeProblem.answer, preparation.resolve_solution buildable solved] at outcome

theorem solve_reports_repeated_name :
    let document : HingeProblem ℚ := ⟨["a", "b", "a"], [], [⟨1, ["b"], [-1], some 2, true⟩]⟩
    let solver : ConicSolver ℚ := fun _ _ => .ok ⟨.solved, [0, 1 / 2, 1 / 2], 0, 0⟩
    ∃ values summary after,
      document.SolvesTo solver .standard .full (.ok (values, summary)) after ∧
        values.entries = [("a", 0), ("b", 1 / 2)] ∧
          summary.objective =
            some (document.penaltyAt fun name => (values.find? name).getD 0) := by
  intro document solver
  have valid : document.validate = .ok () := rfl
  have buildable := buildable_of_validate valid
  have weights : ∀ term ∈ document.summands, 0 ≤ term.weightOrZero := by
    simp [document, Term.weightOrZero]
  have prepared : Nonempty (document.Preparation .full) :=
    nonempty_preparation buildable (isDcp_built weights)
  rcases prepared with ⟨preparation⟩
  have listed : preparation.standard.variableIds ≠ [] := by
    intro unlisted
    exact absurd (Preparation.eraseDups_names_of_unlisted buildable unlisted) (by decide)
  have answered : solver preparation.program .standard =
      .ok ⟨.solved, [0, 1 / 2, 1 / 2], 0, 0⟩ := rfl
  have solved := Preparation.solvesTo_of_solved buildable listed answered rfl
  exact ⟨_, _, _, solved, rfl, solve_reports.2 document solver .standard .full _ _ _ valid solved⟩

end HingeProblem

end HingeLoss
