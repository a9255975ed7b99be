import HingeLoss.Proofs.Document.Shape
import HingeLoss.Proofs.Document.Solving
import HingeLoss.Proofs.Problem.Program

/-!
# Prepared documents

A valid document gets as far as its conic program unless its model breaks the rules. The program has
one column for each number that was drawn on the way: first those of the declared names, in the
order of declaration, and then those of the auxiliary variables. Reading the values of the names out
of an answer therefore finds every name, and takes the numbers from the first columns.
-/

namespace HingeLoss

open DecisionVariables (leafAt numbered)

/-- Distinct names with the numbers at their places. -/
def SolvedValues.ofPoint {K : Type} (names : List String) (point : Nat → K) : SolvedValues K :=
  ⟨names.zipIdx.map fun (name, place) => (name, point place)⟩

theorem SolvedValues.exists_find?_ofPoint {K : Type} {names : List String} {name : String}
    (member : name ∈ names) (point : Nat → K) :
    ∃ value, (ofPoint names point).find? name = some value := by
  rw [find?, ofPoint, lookup_map_zipIdx (fun _ place => point place), ← Option.isSome_iff_exists,
    Option.isSome_map, List.isSome_idxOf?]
  exact member

theorem SolvedValues.resolve_numbered {K : Type} {solution : Solution K} {supply : Supply}
    {names : List String} {point : Nat → K}
    (valued : ∀ place name, names[place]? = some name →
      solution.valueOf? (leafAt supply name place).id = some (point place)) :
    resolve (numbered supply names) solution = .ok (ofPoint names point) := by
  have entries : (numbered supply names : DecisionVariables K).entries.mapM
      (resolveEntry solution) = .ok (ofPoint names point).entries := by
    rw [numbered, List.mapM_map]
    apply mapM_eq_ok
    rintro ⟨name, place⟩ member
    have value := valued place name (List.mem_zipIdx_iff_getElem?.1 member)
    simp only [Function.comp_apply, resolveEntry, Solution.valueOf, Expression.variableId?, value]
  rw [resolve, entries]
  rfl

namespace HingeProblem

variable {K : Type} [Scalar K] {problem : HingeProblem K} {before : Supply}

/-- The variables of a built model are numbered in the order of declaration. -/
theorem variableIds_built (problem : HingeProblem K) (supply : Supply) :
    (problem.built (problem.decisions supply)).variableIds =
      supply.drawn (problem.declared supply) := by
  apply VarId.Increasing.eq_of_mem_iff
  case increasing => exact VarId.increasing_sortedDistinct _
  case otherIncreasing => exact Supply.increasing_drawn _ _
  case same =>
    rintro ⟨index⟩
    simp only [mem_variableIds_built, DecisionVariables.id_leafAt, VarId.mk.injEq,
      Supply.mem_drawn, declared, Supply.next_skip]
    constructor
    · rintro ⟨place, name, atPlace, rfl⟩
      have inside := (List.getElem?_eq_some_iff.1 atPlace).1
      omega
    · rintro ⟨above, below⟩
      have inside : index - supply.next < problem.names.eraseDups.length := by omega
      exact ⟨_, _, List.getElem?_eq_getElem inside, by omega⟩

/-- Some variable is listed in the standard form: a declared one, or the auxiliary variable of a
summand. -/
theorem isEmpty_variableIds_eq_false (nonempty : problem.names ≠ [] ∨ problem.summands ≠ [])
    {supply middle after : Supply} {standard : StandardProblem K}
    (returns : (problem.built (problem.decisions supply)).standardize.Returns middle standard
      after) : standard.variableIds.isEmpty = false := by
  rcases nonempty with named | penalized
  · rcases List.exists_mem_of_ne_nil _ named with ⟨name, member⟩
    rcases exists_find?_decisions (K := K) supply member with ⟨place, atPlace, -⟩
    rw [List.isEmpty_eq_false_iff_exists_mem]
    exact ⟨_, Problem.mem_variableIds_of_returns returns
      (mem_variableIds_built.2 ⟨place, name, atPlace, rfl⟩)⟩
  · rcases List.exists_mem_of_ne_nil _ penalized with ⟨term, member⟩
    have part : .pos (term.expressionOver (problem.decisions supply)) ∈
        (term.penaltyOver (problem.decisions supply)).nodes := by
      have inHinge := Expression.pos_mem_nodes_hinge
        (term.expressionOver (problem.decisions supply)) term.squared
      exact List.mem_cons_of_mem _ (List.mem_append_right _ inHinge)
    exact Problem.isEmpty_variableIds_of_pos returns
      (Expression.mem_nodes_sumOf (List.mem_map_of_mem member) part)

/-- A document whose model obeys the rules gets as far as its conic program. -/
theorem nonempty_preparation (buildable : problem.Buildable)
    (dcp : (problem.built (problem.decisions before)).isDcp = true) :
    Nonempty (problem.Preparation before) := by
  rcases Problem.exists_standard dcp (hasLiteralProducts_objective_built problem before)
      hasLiteralProducts_constraints_built (problem.declared before) with
    ⟨standard, after, returns⟩
  have assembled := (Problem.listed_of_returns returns).assemble_eq_ok
  exact ⟨⟨_, _, _, standard, after, _, fun _ => yields_model buildable before, returns, assembled⟩⟩

namespace Preparation

theorem built_eq (buildable : problem.Buildable) (preparation : problem.Preparation before) :
    preparation.decisions = problem.decisions before ∧
      preparation.model = problem.built (problem.decisions before) ∧
        preparation.middle = problem.declared before :=
  preparation.builds.unique fun _ => yields_model buildable before

theorem handsOver (buildable : problem.Buildable)
    (nonempty : problem.names ≠ [] ∨ problem.summands ≠ [])
    (preparation : problem.Preparation before) :
    problem.HandsOver before preparation.decisions preparation.program := by
  refine ⟨_, _, _, _, preparation.builds, preparation.returns, ?_, preparation.assembled⟩
  have returns := preparation.returns
  rw [(preparation.built_eq buildable).2.1] at returns
  exact isEmpty_variableIds_eq_false nonempty returns

theorem columns_eq (preparation : problem.Preparation before) :
    preparation.program.columns = .ofVariables preparation.standard.variableIds := by
  have assembled := (Problem.listed_of_returns preparation.returns).assemble_eq_ok
  have same := preparation.assembled.symm.trans assembled
  rw [Except.ok.injEq] at same
  rw [same]
  rfl

/-- The numbers that were drawn on the way are listed, and nothing else is. -/
theorem variableIds_standard (buildable : problem.Buildable)
    (preparation : problem.Preparation before) :
    preparation.standard.variableIds = before.drawn preparation.after := by
  rcases preparation.built_eq buildable with ⟨-, model, middle⟩
  rcases Problem.variableIds_of_returns preparation.returns with ⟨listed, moves⟩
  rw [listed, model, variableIds_built, ← middle]
  refine Supply.drawn_append ?_ moves
  rw [middle, declared, Supply.next_skip]
  exact Nat.le_add_right _ _

/-- Each declared name takes the column at its own place. -/
theorem find?_columns (buildable : problem.Buildable) (preparation : problem.Preparation before)
    {place : Nat} {name : String} (atPlace : problem.names.eraseDups[place]? = some name) :
    preparation.program.columns.find? (leafAt before name place).id = some place := by
  have distinct := (Supply.increasing_drawn before preparation.after).nodup
  have moves := (Problem.variableIds_of_returns preparation.returns).2
  rw [(preparation.built_eq buildable).2.2, declared, Supply.next_skip] at moves
  have early := (List.getElem?_eq_some_iff.1 atPlace).1
  rw [preparation.columns_eq, preparation.variableIds_standard buildable,
    Columns.find?_eq_some_iff (Columns.nodup_ids_ofVariables _), Columns.ids_ofVariables distinct,
    DecisionVariables.id_leafAt]
  exact Supply.getElem?_drawn (by omega)

/-- Reading the values of the names out of a solved answer finds each of them in its column. -/
theorem resolve_solution (buildable : problem.Buildable)
    (preparation : problem.Preparation before) {answer : Answer K}
    (solved : answer.termination.status.isSolved = true) :
    SolvedValues.resolve preparation.decisions (answer.solution preparation.program) =
      .ok (.ofPoint problem.names.eraseDups answer.pointAt) := by
  rw [(preparation.built_eq buildable).1]
  apply SolvedValues.resolve_numbered
  intro place name atPlace
  rw [Answer.valueOf?_solution _ solved, preparation.find?_columns buildable atPlace,
    Option.map_some]

end Preparation

end HingeProblem

end HingeLoss
