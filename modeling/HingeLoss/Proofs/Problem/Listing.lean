import HingeLoss.Proofs.Document.Outcome

/-!
# Listed variables

Standardization lists the variables of a problem and then the auxiliary ones, in the order in which
they are drawn. If the problem's own numbers were issued before, nothing is listed twice: what is
drawn lies above all of them. Everything that is mentioned is listed, so the standard form can
always be assembled, with one column for each place of the list, and solving never reports a
variable without a column.
-/

namespace HingeLoss

namespace Supply

/-- What was issued lies below everything that is drawn later. -/
theorem Issued.lt_of_mem_drawn {before after : Supply} {id other : VarId}
    (issued : before.Issued id) (drawn : other ∈ before.drawn after) : id.index < other.index :=
  Nat.lt_of_lt_of_le issued (mem_drawn.1 drawn).1

/-- Distinct numbers that were issued stay distinct from what is drawn later. -/
theorem nodup_append_drawn {before : Supply} {ids : List VarId} (distinct : ids.Nodup)
    (issued : ∀ id ∈ ids, before.Issued id) (after : Supply) :
    (ids ++ before.drawn after).Nodup := by
  apply List.nodup_append.2
  refine ⟨distinct, (increasing_drawn before after).nodup, ?_⟩
  rintro id member _ drawn rfl
  exact (issued id member).not_mem_drawn drawn

end Supply

namespace StandardProblem

variable {K : Type} [Scalar K] {standard : StandardProblem K}

/-- Once all variables are listed, no failure blames the standard form. -/
theorem Listed.blamesModel_of_outcome_eq_error (listed : standard.Listed)
    {solver : ConicSolver K} {settings : Settings} {failure : Failure}
    (failed : standard.outcome solver settings = .error failure) :
    failure.blamesModel = false := by
  rw [outcome] at failed
  split at failed
  case isTrue =>
    rw [constantSolution] at failed
    split at failed
    · simp at failed
    · obtain rfl : Failure.infeasible = failure := Except.error.inj failed
      rfl
  case isFalse =>
    rw [listed.assemble_eq_ok] at failed
    change (ConicProgram.assembled _ _ _).solve solver settings >>= Solution.checked = _ at failed
    rw [ConicProgram.solve] at failed
    split at failed
    · rename_i answer _
      change (answer.solution _).checked = .error failure at failed
      rw [Solution.checked] at failed
      split at failed
      · rename_i found
        obtain rfl := Except.error.inj failed
        exact SolveStatus.blamesModel_of_failure?_eq_some found
      · simp at failed
    · obtain rfl := Except.error.inj failed
      rfl

end StandardProblem

namespace Problem

variable {K : Type} [Scalar K] {before after : Supply} {standard : StandardProblem K}

/-- A problem whose variables were issued before is listed without repetition: its own variables in
increasing order, and then what is drawn, in the order of drawing and above all of them. -/
theorem nodup_variableIds_of_returns {problem : Problem K}
    (issued : ∀ id ∈ problem.variableIds, before.Issued id)
    (returns : problem.standardize.Returns before standard after) :
    standard.variableIds.Nodup := by
  rw [(variableIds_of_returns returns).1]
  exact Supply.nodup_append_drawn (VarId.increasing_sortedDistinct _).nodup issued after

theorem exists_yields_solve (problem : Problem K) (before : Supply) (solver : ConicSolver K)
    (settings : Settings) :
    ∃ outcome after, (∀ (m : Type → Type) [Monad m] [LawfulMonad m] [Logger m],
        Modelling.Yields (problem.solve solver settings : Modelling m _) before outcome after) ∧
      ∀ reason, outcome ≠ .error (.invalidProblem reason) := by
  rcases problem.standardize.exists_returns_or_fails before with
    ⟨standard, after, returns⟩ | ⟨reason, after, fails⟩
  · refine ⟨_, after, fun m => yields_solve returns solver settings, ?_⟩
    intro reason failed
    have blameless := (listed_of_returns returns).blamesModel_of_outcome_eq_error failed
    exact Bool.noConfusion blameless
  · refine ⟨_, after, fun m => (Modelling.yields_ofCanonicalizing fails).bind_error, ?_⟩
    intro other same
    exact Failure.noConfusion (Except.error.inj same)

/-- The list of variables that is made for the columns is complete and has no repetitions, and its
auxiliary variables are numbered in the order in which they were drawn, above the variables of the
problem. So there is a program with as many columns as the list is long, and no run of the problem
fails for a variable without a column. -/
theorem standardize_lists_variables (problem : Problem K) (before : Supply)
    (issued : ∀ id ∈ problem.variableIds, before.Issued id) :
    (∀ standard after, problem.standardize.Returns before standard after →
      standard.variableIds.Nodup ∧ standard.Listed ∧
        (∃ auxiliaries, standard.variableIds = problem.variableIds ++ auxiliaries ∧
          auxiliaries = before.drawn after ∧ VarId.Increasing auxiliaries ∧
            ∀ id ∈ problem.variableIds, ∀ auxiliary ∈ auxiliaries, id.index < auxiliary.index) ∧
          ∃ program, standard.assemble = .ok program ∧
            program.columns.ids = standard.variableIds ∧
              program.columns.count = standard.variableIds.length) ∧
      ∀ solver settings, ∃ outcome after,
        (∀ (m : Type → Type) [Monad m] [LawfulMonad m] [Logger m],
          Modelling.Yields (problem.solve solver settings : Modelling m _) before outcome after) ∧
          ∀ id, outcome ≠ .error (.invalidProblem (.unregisteredVariable id)) := by
  constructor
  · intro standard after returns
    have distinct := nodup_variableIds_of_returns issued returns
    have listed := listed_of_returns returns
    have sameColumns := Columns.ids_ofVariables distinct
    refine ⟨distinct, listed, ?_, _, listed.assemble_eq_ok, sameColumns, ?_⟩
    · refine ⟨_, (variableIds_of_returns returns).1, rfl, Supply.increasing_drawn _ _, ?_⟩
      intro id member auxiliary drawn
      exact (issued id member).lt_of_mem_drawn drawn
    · exact congrArg List.length sameColumns
  · intro solver settings
    rcases problem.exists_yields_solve before solver settings with ⟨outcome, after, yields, valid⟩
    exact ⟨outcome, after, yields, fun id => valid _⟩

/-- The positive part takes the number after that of the variable, and the square below it the next
one. -/
theorem standardize_lists_variables_square_above :
    let leaf : Variable := ⟨⟨1⟩, some "x", false⟩
    let problem : Problem ℚ := ⟨.pos (.var leaf), [.atMost (.square (.var leaf)) (.const 3)]⟩
    ∃ standard after, problem.standardize.Returns ⟨2⟩ standard after ∧
      standard.variableIds = [⟨1⟩, ⟨2⟩, ⟨3⟩] ∧ standard.variableIds.Nodup ∧ standard.Listed ∧
        ∃ program, standard.assemble = .ok program ∧ program.columns.count = 3 := by
  intro leaf problem
  obtain ⟨standard, after, returns, same⟩ : ∃ standard after,
      problem.standardize.Returns ⟨2⟩ standard after ∧ standard.variableIds = [⟨1⟩, ⟨2⟩, ⟨3⟩] :=
    ⟨_, _, rfl, rfl⟩
  have issued : ∀ id ∈ problem.variableIds, (⟨2⟩ : Supply).Issued id := by
    simp [problem, leaf, mem_variableIds, Constraint.occurrencesAll, Constraint.expression,
      Constraint.atMost, Constraint.difference, Expression.sub, Expression.occurrences,
      Supply.Issued]
  rcases (standardize_lists_variables problem ⟨2⟩ issued).1 standard after returns with
    ⟨distinct, listed, -, program, assembled, -, count⟩
  rw [same] at count
  exact ⟨standard, after, returns, same, distinct, listed, program, assembled, count⟩

end Problem

end HingeLoss
