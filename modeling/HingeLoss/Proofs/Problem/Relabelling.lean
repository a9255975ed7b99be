import HingeLoss.Proofs.Problem.Acceptance
import HingeLoss.Proofs.Problem.Listing
import HingeLoss.Proofs.Program.Relabelling

/-!
# Relabelled problems

Two runs of one problem may start at different numbers and use different numbers and names for its
variables. As long as the new numbers of the variables go up where the old ones did, and every
number in use was issued before the run draws any, the two runs end alike: they fail for the same
reason, or make programs with the same data, in which corresponding variables have the same columns.
-/

namespace HingeLoss

open Canonicalizing

variable {K : Type} {relabelling : Relabelling} {scope : VarId → Prop} {before other : Supply}

def Constraint.relabel (relabelling : Relabelling) : Constraint K → Constraint K
  | .zero expression => .zero (expression.relabel relabelling)
  | .nonneg expression => .nonneg (expression.relabel relabelling)

def Problem.relabel (relabelling : Relabelling) (problem : Problem K) : Problem K :=
  ⟨problem.objective.relabel relabelling,
    problem.constraints.map (Constraint.relabel relabelling)⟩

namespace Relabelling

/-- The relabelling on the numbers that were issued, and the way from what is drawn from the supply
`before` to what is drawn from the supply `other` above them. -/
def continued (relabelling : Relabelling) (before other : Supply) : Relabelling where
  ids id :=
    if id.index < before.next then relabelling.ids id
    else ⟨other.next + (id.index - before.next)⟩
  names := relabelling.names

/-- What is in the scope, together with all that is drawn from the supply. -/
def withDrawn (scope : VarId → Prop) (before : Supply) (id : VarId) : Prop :=
  scope id ∨ before.next ≤ id.index

theorem continued_ids_of_issued {id : VarId} (issued : before.Issued id) :
    (relabelling.continued before other).ids id = relabelling.ids id :=
  if_pos issued

theorem continued_ids_of_drawn {id : VarId} (drawn : before.next ≤ id.index) :
    (relabelling.continued before other).ids id = ⟨other.next + (id.index - before.next)⟩ :=
  if_neg (Nat.not_lt.2 drawn)

theorem carries_continued (relabelling : Relabelling) (scope : VarId → Prop)
    (before other : Supply) :
    (relabelling.continued before other).Carries (withDrawn scope before) before other := by
  have drawn (place : Nat) : before.next ≤ before.next + place := Nat.le_add_right _ _
  constructor
  case inScope => exact fun place => .inr (drawn place)
  case ids =>
    intro place
    rw [continued_ids_of_drawn (drawn place), Nat.add_sub_cancel_left]

theorem IncreasesOn.continued (increases : relabelling.IncreasesOn scope)
    (issued : ∀ id, scope id → before.Issued id)
    (issuedToo : ∀ id, scope id → other.Issued (relabelling.ids id)) :
    (relabelling.continued before other).IncreasesOn (withDrawn scope before) := by
  intro left right left_in right_in below
  rcases right_in with right_known | right_drawn
  · have right_issued := issued right right_known
    have left_issued : before.Issued left := below.trans right_issued
    have left_known := left_in.resolve_right (Nat.not_le.2 left_issued)
    rw [continued_ids_of_issued left_issued, continued_ids_of_issued right_issued]
    exact increases left right left_known right_known below
  · rw [continued_ids_of_drawn right_drawn]
    rcases left_in with left_known | left_drawn
    · rw [continued_ids_of_issued (issued left left_known)]
      exact Nat.lt_add_right _ (issuedToo left left_known)
    · rw [continued_ids_of_drawn left_drawn]
      change other.next + (left.index - before.next) < other.next + (right.index - before.next)
      omega

end Relabelling

namespace Constraint

@[simp]
theorem expression_relabel (constraint : Constraint K) :
    (constraint.relabel relabelling).expression = constraint.expression.relabel relabelling := by
  cases constraint <;> rfl

theorem occurrencesAll_relabel (constraints : List (Constraint K)) :
    occurrencesAll (constraints.map (relabel relabelling)) =
      (occurrencesAll constraints).map relabelling.ids := by
  simp only [occurrencesAll, List.flatMap_map, List.map_flatMap, expression_relabel,
    Expression.occurrences_relabel]

theorem cone_relabel (constraint : Constraint K) (form : LinearForm K) :
    (constraint.relabel relabelling).cone form = constraint.cone form := by
  cases constraint <;> rfl

theorem relabelled_cone (constraint : Constraint K) {form relabelledForm : LinearForm K}
    (forms : form.Relabelled relabelling scope relabelledForm) :
    (constraint.cone form).Relabelled relabelling scope (constraint.cone relabelledForm) := by
  cases constraint with
  | zero expression => exact .zero forms
  | nonneg expression => exact .nonneg forms

theorem relabel_congr {otherRelabelling : Relabelling} {constraint : Constraint K}
    (sameIds : ∀ id ∈ constraint.expression.occurrences,
      relabelling.ids id = otherRelabelling.ids id)
    (sameNames : relabelling.names = otherRelabelling.names) :
    constraint.relabel relabelling = constraint.relabel otherRelabelling := by
  cases constraint with
  | zero expression => exact congrArg zero (Expression.relabel_congr sameIds sameNames)
  | nonneg expression => exact congrArg nonneg (Expression.relabel_congr sameIds sameNames)

section Rules

variable [Scalar K]

theorem relabel_difference (left right : Expression K) :
    (difference left right).relabel relabelling =
      difference (left.relabel relabelling) (right.relabel relabelling) := by
  cases right with
  | const value =>
      simp only [difference, Expression.relabel]
      split <;> rfl
  | _ => rfl

theorem relabel_atMost (left right : Expression K) :
    (atMost left right).relabel relabelling =
      atMost (left.relabel relabelling) (right.relabel relabelling) :=
  congrArg nonneg (relabel_difference right left)

theorem relabel_atLeast (left right : Expression K) :
    (atLeast left right).relabel relabelling =
      atLeast (left.relabel relabelling) (right.relabel relabelling) :=
  congrArg nonneg (relabel_difference left right)

@[simp]
theorem isDcp_relabel (constraint : Constraint K) :
    (constraint.relabel relabelling).isDcp = constraint.isDcp := by
  cases constraint with
  | zero expression => exact congrArg Curvature.isAffine (Expression.curvature_relabel expression)
  | nonneg expression =>
      exact congrArg Curvature.isConcave (Expression.curvature_relabel expression)

end Rules

end Constraint

/-- Relabelled constraints become the relabelled cone constraints. -/
theorem CanonicalizesAll.relabel [Scalar K] {after : Supply} {constraints : List (Constraint K)}
    {cones : List (Cone K)} {auxiliaries : List VarId}
    (derivation : CanonicalizesAll before constraints cones auxiliaries after)
    (increases : relabelling.IncreasesOn scope)
    (occur : ∀ id ∈ Constraint.occurrencesAll constraints, scope id)
    (carries : relabelling.Carries scope before other) :
    ∃ relabelledCones others otherAfter,
      CanonicalizesAll other (constraints.map (Constraint.relabel relabelling)) relabelledCones
          others otherAfter ∧
        List.Forall₂ (Cone.Relabelled relabelling scope) cones relabelledCones ∧
          relabelling.Carries scope after otherAfter := by
  induction derivation generalizing other with
  | nil => exact ⟨_, _, _, .nil, .nil, carries⟩
  | @cons _ _ _ constraint _ _ _ _ _ fromFirst linear _ ih =>
      simp only [Constraint.occurrencesAll, List.flatMap_cons, List.forall_mem_append] at occur
      rcases fromFirst.relabel increases occur.1 carries with
        ⟨canonical, middle, firstRelabelled, same, carriesOn⟩
      rcases same.exists_linear linear with ⟨form, formLinear, formSame⟩
      rcases ih occur.2 carriesOn with
        ⟨restCones, others, otherAfter, restRelabelled, restSame, carriesAll⟩
      rw [← Constraint.expression_relabel] at firstRelabelled
      refine ⟨_, _, _, .cons firstRelabelled formLinear restRelabelled, ?_, carriesAll⟩
      rw [Constraint.cone_relabel]
      exact List.rel_append (.cons (constraint.relabelled_cone formSame) same.cones) restSame

namespace Problem

variable {problem : Problem K}

theorem hasLiteralProducts_relabel :
    (problem.relabel relabelling).HasLiteralProducts ↔ problem.HasLiteralProducts := by
  simp only [HasLiteralProducts, relabel, List.forall_mem_map, Constraint.expression_relabel,
    Expression.hasLiteralProducts_relabel]

variable [Scalar K]

/-- Without literal factors there is no standard form, and products are the reason. -/
theorem exists_fails_of_not_hasLiteralProducts (notLiteral : ¬problem.HasLiteralProducts)
    (before : Supply) :
    ∃ after, problem.canonicalForm.Fails before .productOfNonConstants after := by
  rw [exists_fails_iff_of_reason reason_of_fails_canonicalForm, exists_returns_canonicalForm_iff]
  exact ⟨rfl, notLiteral⟩

theorem isDcp_relabel (problem : Problem K) :
    (problem.relabel relabelling).isDcp = problem.isDcp := by
  simp only [isDcp, relabel, Expression.isConvex, Expression.curvature_relabel, List.all_map,
    Function.comp_def, Constraint.isDcp_relabel]

/-- What breaks the rules does so under other numbers and names. -/
theorem violations_relabel (problem : Problem K) :
    (problem.relabel relabelling).violations = problem.violations := by
  simp only [violations, relabel, Expression.isConvex, Expression.curvature_relabel,
    List.zipIdx_map, List.filter_map, List.map_map, Function.comp_def, Prod.map_fst, Prod.map_snd,
    Constraint.isDcp_relabel, id_eq]
  rfl

theorem variableIds_relabel (increases : relabelling.IncreasesOn (· ∈ problem.variableIds)) :
    (problem.relabel relabelling).variableIds = problem.variableIds.map relabelling.ids := by
  apply VarId.Increasing.eq_of_mem_iff
  case increasing => exact VarId.increasing_sortedDistinct _
  case otherIncreasing =>
    rw [VarId.Increasing, List.pairwise_map]
    apply (VarId.increasing_sortedDistinct _).imp_of_mem
    intro left right left_mem right_mem below
    exact increases left right left_mem right_mem below
  case same =>
    intro id
    simp only [mem_variableIds, relabel, Expression.occurrences_relabel,
      Constraint.occurrencesAll_relabel, List.mem_map, ← exists_or, ← or_and_right]

theorem relabel_congr {otherRelabelling : Relabelling}
    (sameIds : ∀ id ∈ problem.variableIds, relabelling.ids id = otherRelabelling.ids id)
    (sameNames : relabelling.names = otherRelabelling.names) :
    problem.relabel relabelling = problem.relabel otherRelabelling := by
  have objectives := Expression.relabel_congr
    (fun id member => sameIds id (mem_variableIds.2 (.inl member))) sameNames
  have constraints : problem.constraints.map (Constraint.relabel relabelling) =
      problem.constraints.map (Constraint.relabel otherRelabelling) := by
    apply List.map_congr_left
    intro constraint constraint_mem
    apply Constraint.relabel_congr _ sameNames
    intro id id_mem
    exact sameIds id (mem_variableIds.2 (.inr (List.mem_flatMap.2 ⟨_, constraint_mem, id_mem⟩)))
  rw [relabel, relabel, objectives, constraints]

end Problem

/-- The left program's variable and the right program's variable have columns at the same place. -/
def ConicProgram.SameColumn (left right : ConicProgram K) (leftId rightId : VarId) : Prop :=
  ∃ column, left.columns.find? leftId = some column ∧ right.columns.find? rightId = some column

/-- Two runs end alike, of which the right one has relabelled variables and starts with the supply
`other`. -/
inductive RunsAlike [Scalar K] (relabelling : Relabelling) (ids : List VarId)
    (left right : Canonicalizing (StandardProblem K)) (before other : Supply) : Prop
  | failures {reason : NotDcp} {after otherAfter : Supply}
      (fails : left.Fails before reason after) (alsoFails : right.Fails other reason otherAfter)
  | programs {standard relabelled : StandardProblem K} {after otherAfter : Supply}
      {program otherProgram : ConicProgram K}
      (returns : left.Returns before standard after)
      (alsoReturns : right.Returns other relabelled otherAfter)
      (assembled : standard.assemble = .ok program)
      (alsoAssembled : relabelled.assemble = .ok otherProgram)
      (sameCount : relabelled.variableIds.length = standard.variableIds.length)
      (data : program.SameData otherProgram)
      (ownColumns : ∀ id ∈ ids, program.SameColumn otherProgram id (relabelling.ids id))
      (auxiliaryColumns : List.Forall₂ (program.SameColumn otherProgram)
        (before.drawn after) (other.drawn otherAfter))

/-- The right standard form is the left one over relabelled variables, listed in the same order. -/
structure StandardProblem.Relabelled (relabelling : Relabelling) (scope : VarId → Prop)
    (left right : StandardProblem K) : Prop where
  objective : left.objective.Relabelled relabelling scope right.objective
  cones : List.Forall₂ (Cone.Relabelled relabelling scope) left.cones right.cones
  inScope : ∀ id ∈ left.variableIds, scope id
  ids : right.variableIds = left.variableIds.map relabelling.ids

/-- The programs of a standard form and of its relabelling have the same data and the same
columns. -/
theorem StandardProblem.Relabelled.exists_sameData [Scalar K]
    {standard relabelled : StandardProblem K}
    (same : standard.Relabelled relabelling scope relabelled)
    (increases : relabelling.IncreasesOn scope) (listed : standard.Listed)
    (alsoListed : relabelled.Listed) :
    ∃ program otherProgram, standard.assemble = .ok program ∧
      relabelled.assemble = .ok otherProgram ∧ program.SameData otherProgram ∧
        ∀ id ∈ standard.variableIds, program.SameColumn otherProgram id (relabelling.ids id) := by
  refine ⟨_, _, listed.assemble_eq_ok, alsoListed.assemble_eq_ok, ?_, ?_⟩
  · rw [same.ids]
    exact ConicProgram.sameData_assembled increases same.objective same.cones same.inScope
  · intro id member
    have columns := Columns.relabelled_ofVariables increases same.inScope
    have found := Columns.find?_eq_some_indexOf (Columns.mem_ids_ofVariables.2 member)
    refine ⟨_, found, ?_⟩
    rw [same.ids]
    exact (columns.find? increases (same.inScope id member)).trans found

namespace Problem

variable [Scalar K] {problem : Problem K}

/-- Where fresh numbers are carried over, the relabelled problem has the relabelled standard
form. -/
theorem exists_returns_relabel (increases : relabelling.IncreasesOn scope)
    (own_in : ∀ id ∈ problem.variableIds, scope id)
    (carries : relabelling.Carries scope before other) {standard : StandardProblem K}
    {after : Supply} (returns : problem.canonicalForm.Returns before standard after) :
    ∃ relabelled otherAfter,
      (problem.relabel relabelling).canonicalForm.Returns other relabelled otherAfter ∧
        standard.Relabelled relabelling scope relabelled ∧
          (before.drawn after).map relabelling.ids = other.drawn otherAfter := by
  rcases listed_of_returns_canonicalForm returns with ⟨-, listedIds, moves⟩
  rcases returns_canonicalForm_iff.1 returns with
    ⟨objective, cones, auxiliaries, middle, fromObjective, fromConstraints, rfl⟩
  rcases fromObjective.relabel increases
      (fun id member => own_in id (mem_variableIds.2 (.inl member))) carries with
    ⟨otherObjective, otherMiddle, objectiveRelabelled, objectiveSame, carriesOn⟩
  rcases fromConstraints.relabel increases
      (fun id member => own_in id (mem_variableIds.2 (.inr member))) carriesOn with
    ⟨otherCones, others, otherAfter, constraintsRelabelled, conesSame, carriesAll⟩
  have alsoReturns : (problem.relabel relabelling).canonicalForm.Returns other _ otherAfter :=
    returns_canonicalForm_iff.2 ⟨_, _, _, _, objectiveRelabelled, constraintsRelabelled, rfl⟩
  rcases listed_of_returns_canonicalForm alsoReturns with ⟨-, alsoListedIds, -⟩
  have drawn := carries.map_drawn carriesAll moves
  refine ⟨_, otherAfter, alsoReturns, ?_, drawn⟩
  constructor
  case objective => exact objectiveSame.form.toQuadratic
  case cones => exact List.rel_append objectiveSame.cones conesSame
  case inScope =>
    rw [listedIds, List.forall_mem_append]
    exact ⟨own_in, carries.drawn_in after⟩
  case ids =>
    rw [alsoListedIds, listedIds, List.map_append, drawn,
      variableIds_relabel fun left right left_mem right_mem =>
        increases left right (own_in left left_mem) (own_in right right_mem)]

/-- The run on a problem and the run on its relabelling end alike. -/
theorem runsAlike_canonicalForm (increases : relabelling.IncreasesOn (· ∈ problem.variableIds))
    (issued : ∀ id ∈ problem.variableIds, before.Issued id)
    (issuedToo : ∀ id ∈ problem.variableIds, other.Issued (relabelling.ids id)) :
    RunsAlike relabelling problem.variableIds problem.canonicalForm
      (problem.relabel relabelling).canonicalForm before other := by
  by_cases literal : problem.HasLiteralProducts
  case neg =>
    rcases exists_fails_of_not_hasLiteralProducts literal before with ⟨after, fails⟩
    rw [← hasLiteralProducts_relabel] at literal
    rcases exists_fails_of_not_hasLiteralProducts literal other with ⟨otherAfter, alsoFails⟩
    exact .failures fails alsoFails
  case pos =>
    rcases literal.exists_returns before with ⟨standard, after, returns⟩
    rcases listed_of_returns_canonicalForm returns with ⟨listed, listedIds, -⟩
    -- Continued to what the runs draw, the relabelling has the same effect on the problem.
    have increasesOn := increases.continued issued issuedToo
    have sameIds : ∀ id ∈ problem.variableIds,
        relabelling.ids id = (relabelling.continued before other).ids id :=
      fun id member => (Relabelling.continued_ids_of_issued (issued id member)).symm
    rcases exists_returns_relabel increasesOn (fun _ => .inl)
        (relabelling.carries_continued _ before other) returns with
      ⟨relabelled, otherAfter, alsoReturns, same, drawn⟩
    rcases same.exists_sameData increasesOn listed
        (listed_of_returns_canonicalForm alsoReturns).1 with
      ⟨program, otherProgram, assembled, alsoAssembled, data, columns⟩
    rw [listedIds, List.forall_mem_append] at columns
    rw [relabel_congr sameIds rfl]
    have sameCount := congrArg List.length same.ids
    rw [List.length_map] at sameCount
    refine .programs returns alsoReturns assembled alsoAssembled sameCount data ?_ ?_
    · intro id member
      rw [sameIds id member]
      exact columns.1 id member
    · rw [← drawn, List.forall₂_map_right_iff, List.forall₂_same]
      exact columns.2

/-- The run that first checks the rules finds the same violations, or goes on alike. -/
theorem runsAlike_standardize (increases : relabelling.IncreasesOn (· ∈ problem.variableIds))
    (issued : ∀ id ∈ problem.variableIds, before.Issued id)
    (issuedToo : ∀ id ∈ problem.variableIds, other.Issued (relabelling.ids id)) :
    RunsAlike relabelling problem.variableIds problem.standardize
      (problem.relabel relabelling).standardize before other := by
  rw [standardize_eq, standardize_eq, isDcp_relabel, violations_relabel]
  split
  case isTrue => exact runsAlike_canonicalForm increases issued issuedToo
  case isFalse => exact .failures (fails_throw.2 ⟨rfl, rfl⟩) (fails_throw.2 ⟨rfl, rfl⟩)

end Problem

end HingeLoss
