import HingeLoss.Document.SolvedValues
import HingeLoss.Proofs.Document.Model

/-!
# Declared names and their values

Names are declared one by one and resolved against a solution one by one. In between stand the
variables: each distinct name has one, and it is the number of this variable under which the value
of the name is looked up. However often and in whatever spelling a name is declared, the variables,
the names and the values stay in the order of the first declarations.
-/

namespace HingeLoss

open DecisionVariables (repeated duplicateWarning leafAt numbered)

/-- How a document writes a name: as a text, or as a whole number that stands for its digits. -/
inductive Spelling where
  | text (name : String)
  | integer (value : Int)

def Spelling.name : Spelling → String
  | .text name => name
  | .integer value => nameOfInt value

/-- Decision variables for names that are given together with their variables. -/
def DecisionVariables.ofLeaves {K : Type} (leaves : List (String × Variable)) :
    DecisionVariables K :=
  ⟨leaves.map fun (name, leaf) => (name, .var leaf)⟩

namespace SolvedValues

variable {K : Type} {solution : Solution K} {name : String} {leaf : Variable}
  {leaves : List (String × Variable)}

theorem resolveEntry_var_eq_ok_iff {entry : String × K} :
    resolveEntry solution (name, .var leaf) = .ok entry ↔
      entry.1 = name ∧ solution.valueOf? leaf.id = some entry.2 := by
  rcases entry with ⟨other, value⟩
  cases found : solution.valueOf? leaf.id <;>
    simp [resolveEntry, Solution.valueOf, Expression.variableId?, found, eq_comm]

theorem resolveEntry_var_eq_error_iff {failure : Failure} :
    resolveEntry solution (name, .var leaf) = .error failure ↔
      solution.valueOf? leaf.id = none ∧ failure = .invalidProblem (.unresolvedName name) := by
  cases found : solution.valueOf? leaf.id <;>
    simp [resolveEntry, Solution.valueOf, Expression.variableId?, found, eq_comm]

theorem resolve_eq_ok_iff {decisions : DecisionVariables K} {values : SolvedValues K} :
    resolve decisions solution = .ok values ↔
      decisions.entries.mapM (resolveEntry solution) = .ok values.entries := by
  rw [resolve, bind_eq_ok_iff]
  simp only [pure_eq_ok_iff]
  constructor
  · rintro ⟨entries, resolved, rfl⟩
    exact resolved
  · intro resolved
    exact ⟨values.entries, resolved, rfl⟩

theorem resolve_eq_error_iff {decisions : DecisionVariables K} {failure : Failure} :
    resolve decisions solution = .error failure ↔
      decisions.entries.mapM (resolveEntry solution) = .error failure := by
  rw [resolve]
  cases decisions.entries.mapM (resolveEntry solution) <;>
    simp [bind, Except.bind, pure, Except.pure]

/-- Each name is listed with the value of its own variable. -/
theorem entries_of_resolve_ofLeaves_eq_ok {values : SolvedValues K}
    (resolved : resolve (.ofLeaves leaves) solution = .ok values) :
    values.entries.map Prod.fst = leaves.map Prod.fst ∧
      values.entries.map (fun entry => some entry.2) =
        leaves.map fun leaf => solution.valueOf? leaf.2.id := by
  rw [resolve_eq_ok_iff, mapM_eq_ok_iff, DecisionVariables.ofLeaves,
    List.forall₂_map_left_iff] at resolved
  simp only [resolveEntry_var_eq_ok_iff] at resolved
  constructor
  · rw [← List.forall₂_eq_eq_eq, List.forall₂_map_left_iff, List.forall₂_map_right_iff]
    exact resolved.flip.imp fun _ _ related => related.1
  · rw [← List.forall₂_eq_eq_eq, List.forall₂_map_left_iff, List.forall₂_map_right_iff]
    exact resolved.flip.imp fun _ _ related => related.2.symm

/-- The names can be resolved as soon as each variable has a value. -/
theorem exists_resolve_ofLeaves_eq_ok_iff :
    (∃ values, resolve (.ofLeaves leaves) solution = .ok values) ↔
      ∀ leaf ∈ leaves, ∃ value, solution.valueOf? leaf.2.id = some value := by
  rw [resolve, exists_bind_pure_eq_ok_iff, exists_mapM_eq_ok_iff, DecisionVariables.ofLeaves,
    List.forall_mem_map]
  simp only [resolveEntry_var_eq_ok_iff, Prod.exists, exists_and_left, exists_eq_left]

/-- What cannot be resolved is the first name whose variable has no value. -/
theorem resolve_ofLeaves_eq_error_iff {failure : Failure} :
    resolve (.ofLeaves leaves) solution = .error failure ↔
      ∃ before leaf after, leaves = before ++ leaf :: after ∧
        (∀ earlier ∈ before, ∃ value, solution.valueOf? earlier.2.id = some value) ∧
          solution.valueOf? leaf.2.id = none ∧
            failure = .invalidProblem (.unresolvedName leaf.1) := by
  rw [resolve_eq_error_iff, DecisionVariables.ofLeaves, List.mapM_map, mapM_eq_error_iff]
  simp only [Function.comp_def, resolveEntry_var_eq_ok_iff, resolveEntry_var_eq_error_iff,
    Prod.exists, exists_and_left, exists_eq_left]

end SolvedValues

namespace HingeProblem

variable {K : Type}

/-- The distinct declared names with their variables. -/
def leaves (problem : HingeProblem K) (supply : Supply) : List (String × Variable) :=
  problem.names.eraseDups.zipIdx.map fun (name, place) => (name, leafAt supply name place)

theorem decisions_eq_ofLeaves (problem : HingeProblem K) (supply : Supply) :
    problem.decisions supply = .ofLeaves (problem.leaves supply) := by
  rw [decisions, numbered, DecisionVariables.ofLeaves, leaves, List.map_map]
  rfl

theorem names_leaves (problem : HingeProblem K) (supply : Supply) :
    (problem.leaves supply).map Prod.fst = problem.names.eraseDups := by
  rw [leaves, List.map_map]
  exact List.zipIdx_map_fst _ _

theorem ids_leaves (problem : HingeProblem K) (supply : Supply) :
    (problem.leaves supply).map (fun leaf => leaf.2.id) =
      supply.drawn (problem.declared supply) := by
  have places : (problem.leaves supply).map (fun leaf => leaf.2.id) =
      (problem.names.eraseDups.zipIdx.map Prod.snd).map fun place => ⟨supply.next + place⟩ := by
    rw [leaves, List.map_map, List.map_map]
    rfl
  rw [places, List.zipIdx_map_snd, Supply.drawn, declared, Supply.next_skip,
    Nat.add_sub_cancel_left, List.range'_eq_map_range, List.range'_eq_map_range, List.map_map,
    List.map_map]
  simp only [Function.comp_def, Nat.zero_add]

/-- However its names are spelled and repeated, a document gets one variable for each distinct name,
in the order of the first declarations and with increasing numbers, and a warning for each
declaration of a known name. Any solution that has a value for each of these variables resolves the
names to these values in the same order, and any other fails at the first name without a value. -/
theorem declares_and_resolves (spellings : List Spelling) (constraints summands : List (Term K))
    (before : Supply) :
    let names := spellings.map Spelling.name
    let problem : HingeProblem K := ⟨names, constraints, summands⟩
    ∃ (leaves : List (String × Variable)) (after : Supply),
      Modelling.EmitsEverywhere (fun _ => problem.buildVariables) before
          ((repeated names).map duplicateWarning) (.ok (.ofLeaves leaves)) after ∧
        leaves.map Prod.fst = names.eraseDups ∧
        (∀ leaf ∈ leaves, leaf.2.name = some leaf.1) ∧
        leaves.map (fun leaf => leaf.2.id) = before.drawn after ∧
        VarId.Increasing (leaves.map fun leaf => leaf.2.id) ∧
        ∀ solution : Solution K,
          ((∃ values, SolvedValues.resolve (.ofLeaves leaves) solution = .ok values) ↔
            ∀ leaf ∈ leaves, ∃ value, solution.valueOf? leaf.2.id = some value) ∧
          (∀ values, SolvedValues.resolve (.ofLeaves leaves) solution = .ok values →
            values.entries.map Prod.fst = names.eraseDups ∧
              values.entries.map (fun entry => some entry.2) =
                leaves.map fun leaf => solution.valueOf? leaf.2.id) ∧
          ∀ failure, SolvedValues.resolve (.ofLeaves leaves) solution = .error failure ↔
            ∃ front leaf back, leaves = front ++ leaf :: back ∧
              (∀ earlier ∈ front, ∃ value, solution.valueOf? earlier.2.id = some value) ∧
                solution.valueOf? leaf.2.id = none ∧
                  failure = .invalidProblem (.unresolvedName leaf.1) := by
  intro names problem
  refine ⟨problem.leaves before, problem.declared before, ?_, problem.names_leaves before, ?_,
    problem.ids_leaves before, ?_, ?_⟩
  · rw [← decisions_eq_ofLeaves]
    exact problem.emits_buildVariables before
  · rw [leaves, List.forall_mem_map]
    exact fun _ _ => rfl
  · rw [ids_leaves]
    exact Supply.increasing_drawn _ _
  · intro solution
    refine ⟨SolvedValues.exists_resolve_ofLeaves_eq_ok_iff, ?_,
      fun failure => SolvedValues.resolve_ofLeaves_eq_error_iff⟩
    intro values resolved
    rw [← problem.names_leaves before]
    exact SolvedValues.entries_of_resolve_ofLeaves_eq_ok resolved

example :
    let names := [Spelling.text "1", .integer 1, .text "x", .integer 1].map Spelling.name
    names.eraseDups = ["1", "x"] ∧ repeated names = ["1", "1"] := by
  decide +kernel

end HingeProblem

end HingeLoss
