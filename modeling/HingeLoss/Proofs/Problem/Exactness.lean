import HingeLoss.Proofs.Problem.Standardization

/-!
# Exactness of standard forms

A problem in standard form is exact when it keeps and adds no points: a bound is attained at a point
exactly when the standard form attains it on some values of the auxiliary variables. No point is
ever lost. Points are added exactly where raising atoms of constants helps, so a problem without
such atoms is exact, and the equation `pos 1 = x` is not: it admits every `x` from one upwards.
-/

namespace HingeLoss

namespace Problem

variable {problem : Problem ℚ} {before after : Supply} {standard : StandardProblem ℚ}

/-- If raising atoms of constants gains nothing at a point, the standard form is exact there. -/
theorem attains_iff_of_tight (issued : ∀ id ∈ problem.variableIds, before.Issued id)
    (returns : problem.standardize.Returns before standard after) {point : VarId → ℚ} {bound : ℚ}
    (flags : problem.FlagsHoldAt point)
    (tight : problem.AttainsLoosely Expression.isConstantAtom point bound →
      problem.Attains (.ofPoint point) bound) :
    problem.Attains (.ofPoint point) bound ↔
      ∃ values, (∀ id ∈ problem.variableIds, values id = point id) ∧
        standard.Attains values bound := by
  rw [extendsTo_attains_iff issued returns,
    attainsLoosely_iff_of_isDcp (returns_standardize returns).1 flags]
  exact ⟨fun attains => attains.loosely returns _, tight⟩

theorem attains_of_noConstantAtoms {point : VarId → ℚ} {bound : ℚ}
    (objective : ∀ node ∈ problem.objective.nodes, node.isConstantAtom = false)
    (constraints : ∀ constraint ∈ problem.constraints,
      ∀ node ∈ constraint.expression.nodes, node.isConstantAtom = false)
    (attains : problem.AttainsLoosely Expression.isConstantAtom point bound) :
    problem.Attains (.ofPoint point) bound := by
  rcases attains with ⟨holds, value, loosened, below⟩
  have exactValue := loosened.eq_valueAt fun node member _ => objective node member
  refine ⟨?_, value, ?_, below⟩
  · intro constraint constraint_mem
    rcases holds constraint constraint_mem with ⟨value, loosened, allows⟩
    have strictAtoms := constraints constraint constraint_mem
    have exactValue := loosened.eq_valueAt fun node member _ => strictAtoms node member
    exact ⟨value, by rw [Expression.eval_ofPoint, exactValue], allows⟩
  · rw [Expression.eval_ofPoint, exactValue]

/-- The standard form of a problem is exact if and only if raising atoms of constants never makes
room for a point that does not attain the bound by itself. -/
theorem standardize_exact_iff (issued : ∀ id ∈ problem.variableIds, before.Issued id)
    (returns : problem.standardize.Returns before standard after) :
    (∀ point, problem.FlagsHoldAt point → ∀ bound,
        (problem.Attains (.ofPoint point) bound ↔
          ∃ values, (∀ id ∈ problem.variableIds, values id = point id) ∧
            standard.Attains values bound)) ↔
      ∀ point, problem.FlagsHoldAt point → ∀ bound,
        problem.AttainsLoosely Expression.isConstantAtom point bound →
          problem.Attains (.ofPoint point) bound := by
  constructor
  · intro exactForm point flags bound loosely
    refine (exactForm point flags bound).2 ((extendsTo_attains_iff issued returns).2 ?_)
    exact loosely.mono fun _ _ => rfl
  · intro tight point flags bound
    exact attains_iff_of_tight issued returns flags (tight point flags bound)

theorem standardize_exact_iff_pos :
    let leaf : Variable := ⟨⟨1⟩, none, true⟩
    let problem : Problem ℚ := ⟨.pos (.var leaf), [.atMost (.var leaf) (.const 3)]⟩
    ∃ standard after, problem.standardize.Returns ⟨2⟩ standard after ∧
      ∀ point, problem.FlagsHoldAt point → ∀ bound,
        (problem.Attains (.ofPoint point) bound ↔
          ∃ values, (∀ id ∈ problem.variableIds, values id = point id) ∧
            standard.Attains values bound) := by
  intro leaf problem
  obtain ⟨standard, after, returns⟩ : ∃ standard after,
      problem.standardize.Returns ⟨2⟩ standard after := ⟨_, _, rfl⟩
  refine ⟨standard, after, returns, (standardize_exact_iff ?_ returns).2 ?_⟩
  · simp [problem, leaf, mem_variableIds, Constraint.occurrencesAll, Constraint.expression,
      Constraint.atMost, Constraint.difference, Expression.sub, Expression.occurrences,
      Supply.Issued]
  · intro point flags bound
    apply attains_of_noConstantAtoms
    · simp [problem, Expression.nodes, Expression.isConstantAtom, Expression.isAtom,
        Expression.curvature, Curvature.isConstant, Curvature.positivePart, Curvature.isConvex]
    · simp [problem, Expression.nodes, Expression.isConstantAtom, Expression.isAtom,
        Constraint.expression, Constraint.atMost, Constraint.difference, Expression.sub]

/-- With the equation `pos 1 = x` and the bound `x ≤ 3`, the smallest value of `-x` is `-1`, but the
standard form attains `-3`. -/
theorem standardize_not_exact_of_constantAtom :
    let leaf : Variable := ⟨⟨1⟩, some "x", false⟩
    let problem : Problem ℚ := ⟨.neg (.var leaf),
      [.equal (.pos (.const 1)) (.var leaf), .atMost (.var leaf) (.const 3)]⟩
    problem.isDcp = true ∧ (∀ id ∈ problem.variableIds, (⟨2⟩ : Supply).Issued id) ∧
      (∀ point, problem.FlagsHoldAt point) ∧
        (∀ point bound, problem.Attains (.ofPoint point) bound → -1 ≤ bound) ∧
          ∃ standard after, problem.standardize.Returns ⟨2⟩ standard after ∧
            ∃ values, values ⟨1⟩ = 3 ∧ standard.Attains values (-3) := by
  intro leaf problem
  have issued : ∀ id ∈ problem.variableIds, (⟨2⟩ : Supply).Issued id := by
    simp [problem, leaf, mem_variableIds, Constraint.occurrencesAll, Constraint.expression,
      Constraint.equal, Constraint.atMost, Constraint.difference, Expression.sub,
      Expression.occurrences, Supply.Issued]
  refine ⟨rfl, issued, ?_, ?_, ?_⟩
  · simp [problem, leaf, FlagsHoldAt, Constraint.expression, Constraint.equal, Constraint.atMost,
      Constraint.difference, Expression.sub, Expression.FlagsHoldAt, Expression.nodes]
  · rintro point bound ⟨holds, value, evaluated, below⟩
    rcases holds (.equal (.pos (.const 1)) (.var leaf)) (by simp [problem]) with
      ⟨difference, evaluatedDifference, isZero⟩
    rw [Expression.eval_ofPoint, Option.some.injEq] at evaluated evaluatedDifference
    simp only [problem, Constraint.expression, Constraint.equal, Constraint.difference,
      Expression.sub, Expression.valueAt] at evaluated evaluatedDifference
    have differenceZero : difference = 0 := isZero
    have one : max (1 : ℚ) 0 = 1 := by norm_num
    linarith
  · refine ⟨_, _, rfl, ?_⟩
    have loosely : problem.AttainsLoosely (fun _ => true) (fun _ => 3) (-3) := by
      refine ⟨?_, -3, .neg (.var leaf), le_refl _⟩
      have equation : Loosened (fun _ => true) (fun _ => 3) false
          (.add (.pos (.const 1)) (.neg (.var leaf))) (3 + -3) :=
        .add (.pos (.const 1) (by norm_num) (by simp)) (.neg (.var leaf))
      have limit : Loosened (fun _ => true) (fun _ => 3) false
          (.add (.const 3) (.neg (.var leaf))) (3 + -3) :=
        .add (.const 3) (.neg (.var leaf))
      simp only [problem, List.forall_mem_cons]
      refine ⟨⟨_, equation, ?_⟩, ⟨_, limit, ?_⟩, by simp⟩
      · change (3 + -3 : ℚ) = 0
        norm_num
      · change (0 : ℚ) ≤ 3 + -3
        norm_num
    rcases (extendsTo_attains_iff issued rfl).2 loosely with ⟨values, agree, attains⟩
    exact ⟨values, agree ⟨1⟩ (by decide), attains⟩

end Problem

end HingeLoss
