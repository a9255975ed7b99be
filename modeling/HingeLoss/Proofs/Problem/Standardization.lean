import HingeLoss.Problem
import HingeLoss.Proofs.Expression.Operators
import HingeLoss.Proofs.Standard.Exactness

/-!
# Problems in standard form

A point attains a bound on a problem if it satisfies the constraints and the objective is at most
the bound there. Standardization carries this over to the cone constraints and the quadratic
objective, with looseness: the standard form is attained on some values of the auxiliary variables
exactly when the problem is attained by loose values. Under the rules of disciplined convex
programming only atoms of constants stay loose, and this is what keeps the two from being the same:
the rules admit an atom of a constant where a larger value makes room, such as below a minus sign or
in an equation.
-/

namespace HingeLoss

namespace Constraint

/-- The constraint allows its expression to have this value. -/
def Allows {K : Type} [Scalar K] (constraint : Constraint K) (value : K) : Prop :=
  match constraint with
  | .zero _ => value = 0
  | .nonneg _ => 0 ≤ value

theorem allows_atMost_iff {left right : Expression ℚ} {point : VarId → ℚ} :
    (atMost left right).Allows ((atMost left right).expression.valueAt point) ↔
      left.valueAt point ≤ right.valueAt point := by
  change 0 ≤ (difference right left).valueAt point ↔ _
  rw [valueAt_difference, sub_nonneg]

theorem allows_atLeast_iff {left right : Expression ℚ} {point : VarId → ℚ} :
    (atLeast left right).Allows ((atLeast left right).expression.valueAt point) ↔
      right.valueAt point ≤ left.valueAt point :=
  allows_atMost_iff

def HoldsAt {K : Type} [Scalar K] (constraint : Constraint K) (assignment : Assignment K) : Prop :=
  ∃ value, constraint.expression.eval assignment = some value ∧ constraint.Allows value

/-- The constraint holds for some value that its expression has with loose atoms. -/
def HoldsLoosely (loose : Expression ℚ → Bool) (point : VarId → ℚ) (constraint : Constraint ℚ) :
    Prop :=
  ∃ value, Loosened loose point false constraint.expression value ∧ constraint.Allows value

/-- The cone constraint on the form of the constrained expression. -/
def cone {K : Type} (constraint : Constraint K) (form : LinearForm K) : Cone K :=
  match constraint with
  | .zero _ => .zero form
  | .nonneg _ => .nonneg form

theorem holdsAt_cone_iff {constraint : Constraint ℚ} {form : LinearForm ℚ} {values : VarId → ℚ} :
    (constraint.cone form).HoldsAt values ↔ constraint.Allows (form.valueAt values) := by
  cases constraint <;> rfl

def occurrencesAll {K : Type} (constraints : List (Constraint K)) : List VarId :=
  constraints.flatMap fun constraint => constraint.expression.occurrences

end Constraint

/-- The rules by which a list of constraints becomes a list of cone constraints. -/
inductive CanonicalizesAll {K : Type} [Scalar K] :
    Supply → List (Constraint K) → List (Cone K) → List VarId → Supply → Prop
  | nil {supply} : CanonicalizesAll supply [] [] [] supply
  | cons {before middle after constraint canonical form rest cones auxiliaries}
      (fromFirst : Canonicalizes false before constraint.expression canonical middle)
      (linear : canonical.form = .linear form)
      (fromRest : CanonicalizesAll middle rest cones auxiliaries after) :
      CanonicalizesAll before (constraint :: rest)
        ((constraint.cone form :: canonical.cones) ++ cones)
        (canonical.auxiliaries ++ auxiliaries) after

theorem Constraint.canonicalizesAll_of_returns {K : Type} [Scalar K]
    {constraints : List (Constraint K)} {before after : Supply} {cones : List (Cone K)}
    {auxiliaries : List VarId}
    (returns : (canonicalizeAll constraints).Returns before (cones, auxiliaries) after) :
    CanonicalizesAll before constraints cones auxiliaries after := by
  induction constraints generalizing before cones auxiliaries with
  | nil =>
      simp only [canonicalizeAll, Canonicalizing.returns_pure, Prod.mk.injEq] at returns
      rcases returns with ⟨⟨rfl, rfl⟩, rfl⟩
      exact .nil
  | cons constraint rest ih =>
      simp only [canonicalizeAll, canonicalize, Canonicalizing.returns_bind,
        Canonicalizing.returns_pure, Canonicalizing.returns_linearForm] at returns
      rcases returns with
        ⟨_, middle, ⟨canonical, _, fromFirst, form, _, ⟨linear, rfl⟩, rfl, rfl⟩, ⟨others, otherIds⟩,
         _, fromRest, whole, rfl⟩
      rcases Prod.mk.inj whole with ⟨rfl, rfl⟩
      have derivation := Expression.canonicalizes_of_returns fromFirst
      cases constraint with
      | zero expression => exact .cons derivation linear (ih fromRest)
      | nonneg expression => exact .cons derivation linear (ih fromRest)

theorem Constraint.returns_of_canonicalizesAll {K : Type} [Scalar K]
    {constraints : List (Constraint K)} {before after : Supply} {cones : List (Cone K)}
    {auxiliaries : List VarId}
    (derivation : CanonicalizesAll before constraints cones auxiliaries after) :
    (canonicalizeAll constraints).Returns before (cones, auxiliaries) after := by
  induction derivation with
  | nil => simp [canonicalizeAll]
  | @cons _ _ _ constraint canonical form _ _ _ fromFirst linear _ ih =>
      simp only [canonicalizeAll, canonicalize, Canonicalizing.returns_bind,
        Canonicalizing.returns_pure, Canonicalizing.returns_linearForm]
      have returns := Expression.returns_of_canonicalizes fromFirst
      cases constraint with
      | zero expression =>
          exact ⟨_, _, ⟨_, _, returns, _, _, ⟨linear, rfl⟩, rfl, rfl⟩, _, _, ih, rfl, rfl⟩
      | nonneg expression =>
          exact ⟨_, _, ⟨_, _, returns, _, _, ⟨linear, rfl⟩, rfl, rfl⟩, _, _, ih, rfl, rfl⟩

namespace CanonicalizesAll

variable {constraints : List (Constraint ℚ)} {cones : List (Cone ℚ)} {auxiliaries : List VarId}
  {before after : Supply} {values point : VarId → ℚ}

/-- The cone constraints of a constraint ask its form to reach a value that the constraint
allows. -/
theorem forall_holdsAt_iff {constraint : Constraint ℚ} {canonical : Canonical ℚ}
    {form : LinearForm ℚ} (linear : canonical.form = .linear form) :
    (∀ cone ∈ constraint.cone form :: canonical.cones, cone.HoldsAt values) ↔
      ∃ value, canonical.Reaches value values ∧ constraint.Allows value := by
  rw [List.forall_mem_cons, Constraint.holdsAt_cone_iff]
  constructor
  · rintro ⟨allows, holds⟩
    exact ⟨form.valueAt values, ⟨holds, by rw [linear]; rfl⟩, allows⟩
  · rintro ⟨value, ⟨holds, reached⟩, allows⟩
    rw [linear] at reached
    obtain rfl : form.valueAt values = value := reached
    exact ⟨allows, holds⟩

theorem confined_cone {constraint : Constraint ℚ} {canonical : Canonical ℚ} {form : LinearForm ℚ}
    (derivation : Canonicalizes false before constraint.expression canonical after)
    (linear : canonical.form = .linear form) :
    Confined constraint.expression.occurrences before after fun values =>
      ∀ cone ∈ constraint.cone form :: canonical.cones, cone.HoldsAt values := by
  intro values other agree holds
  rcases (forall_holdsAt_iff linear).1 holds with ⟨value, reached, allows⟩
  exact (forall_holdsAt_iff linear).2
    ⟨value, derivation.confined_reaches value values other agree reached, allows⟩

theorem next_le {K : Type} [Scalar K] {constraints : List (Constraint K)} {cones : List (Cone K)}
    (derivation : CanonicalizesAll before constraints cones auxiliaries after) :
    before.next ≤ after.next := by
  induction derivation with
  | nil => exact Nat.le_refl _
  | cons fromFirst _ _ ih => exact fromFirst.next_le.trans ih

theorem exists_canonicalizes {constraint : Constraint ℚ}
    (derivation : CanonicalizesAll before constraints cones auxiliaries after)
    (member : constraint ∈ constraints) :
    ∃ start canonical stop, Canonicalizes false start constraint.expression canonical stop := by
  induction derivation with
  | nil => simp at member
  | cons fromFirst _ _ ih =>
      rcases List.mem_cons.1 member with rfl | inRest
      · exact ⟨_, _, _, fromFirst⟩
      · exact ih inRest

theorem unique {K : Type} [Scalar K] {constraints : List (Constraint K)}
    {cones others : List (Cone K)} {otherAuxiliaries : List VarId} {otherAfter : Supply}
    (derivation : CanonicalizesAll before constraints cones auxiliaries after)
    (again : CanonicalizesAll before constraints others otherAuxiliaries otherAfter) :
    cones = others ∧ after = otherAfter := by
  rcases (Constraint.returns_of_canonicalizesAll derivation).unique
    (Constraint.returns_of_canonicalizesAll again) with ⟨same, sameAfter⟩
  exact ⟨congrArg Prod.fst same, sameAfter⟩

theorem auxiliaries_eq_drawn {K : Type} [Scalar K] {constraints : List (Constraint K)}
    {cones : List (Cone K)}
    (derivation : CanonicalizesAll before constraints cones auxiliaries after) :
    auxiliaries = Supply.drawn before after := by
  induction derivation with
  | nil => simp
  | cons fromFirst _ fromRest ih =>
      rw [← Supply.drawn_append fromFirst.next_le fromRest.next_le, ← ih,
        fromFirst.auxiliaries_eq_drawn]

theorem confined (derivation : CanonicalizesAll before constraints cones auxiliaries after) :
    Confined (Constraint.occurrencesAll constraints) before after fun values =>
      ∀ cone ∈ cones, cone.HoldsAt values := by
  induction derivation with
  | nil =>
      intro values other agree holds
      simp
  | cons fromFirst linear fromRest ih =>
      simp only [List.forall_mem_append]
      exact (confined_cone fromFirst linear).and ih fromFirst.next_le fromRest.next_le

theorem holdsLoosely_of_holdsAt
    (derivation : CanonicalizesAll before constraints cones auxiliaries after)
    (holds : ∀ cone ∈ cones, cone.HoldsAt values) :
    ∀ constraint ∈ constraints, constraint.HoldsLoosely (fun _ => true) values := by
  induction derivation with
  | nil => simp
  | cons fromFirst linear _ ih =>
      rw [List.forall_mem_append] at holds
      rcases (forall_holdsAt_iff linear).1 holds.1 with ⟨value, ⟨inner, reached⟩, allows⟩
      have loosened := fromFirst.loosened_of_holdsAt inner
      rw [reached] at loosened
      exact List.forall_mem_cons.2 ⟨⟨value, loosened, allows⟩, ih holds.2⟩

/-- Constraints that hold with loose atoms become cone constraints that can be met on the auxiliary
variables. -/
theorem extendsTo_of_holdsLoosely {loose : Expression ℚ → Bool}
    (derivation : CanonicalizesAll before constraints cones auxiliaries after)
    (issued : ∀ id ∈ Constraint.occurrencesAll constraints, before.Issued id)
    (holds : ∀ constraint ∈ constraints, constraint.HoldsLoosely loose point) :
    ExtendsTo point (Supply.drawn before after) fun values =>
      ∀ cone ∈ cones, cone.HoldsAt values := by
  induction derivation with
  | nil => exact .refl (by simp)
  | cons fromFirst linear fromRest ih =>
      rw [List.forall_mem_cons] at holds
      rcases holds with ⟨⟨value, loosened, allows⟩, restHold⟩
      simp only [Constraint.occurrencesAll, List.flatMap_cons, List.mem_append] at issued
      have issuedFirst := fun id member => issued id (.inl member)
      have issuedRest := fun id member => issued id (.inr member)
      have reachFirst := fromFirst.extendsTo_of_loosened issuedFirst loosened
      have reachRest := ih
        (fun id member => (issuedRest id member).mono fromFirst.next_le) restHold
      refine (reachFirst.join_drawn reachRest (fromFirst.confined_reaches value)
        fromRest.confined issuedFirst issuedRest fromFirst.next_le fromRest.next_le).imp ?_
      rintro values ⟨reached, others⟩
      rw [List.forall_mem_append]
      exact ⟨(forall_holdsAt_iff linear).2 ⟨value, reached, allows⟩, others⟩

end CanonicalizesAll

namespace Problem

/-- The constraints hold at the assignment, and the objective is at most the bound. -/
def Attains {K : Type} [Scalar K] (problem : Problem K) (assignment : Assignment K) (bound : K) :
    Prop :=
  (∀ constraint ∈ problem.constraints, constraint.HoldsAt assignment) ∧
    ∃ value, problem.objective.eval assignment = some value ∧ value ≤ bound

/-- The bound is attained by values that the expressions have with loose atoms. -/
def AttainsLoosely (loose : Expression ℚ → Bool) (problem : Problem ℚ) (point : VarId → ℚ)
    (bound : ℚ) : Prop :=
  (∀ constraint ∈ problem.constraints, constraint.HoldsLoosely loose point) ∧
    ∃ value, Loosened loose point true problem.objective value ∧ value ≤ bound

/-- All variables of the problem that are flagged as nonnegative are so at the point. -/
def FlagsHoldAt {K : Type} [Scalar K] (problem : Problem K) (point : VarId → K) : Prop :=
  problem.objective.FlagsHoldAt point ∧
    ∀ constraint ∈ problem.constraints, constraint.expression.FlagsHoldAt point

end Problem

/-- The cone constraints hold at the values, and the objective is at most the bound. -/
def StandardProblem.Attains {K : Type} [Scalar K] (standard : StandardProblem K)
    (values : VarId → K) (bound : K) : Prop :=
  (∀ cone ∈ standard.cones, cone.HoldsAt values) ∧ standard.objective.valueAt values ≤ bound

namespace Problem

theorem mem_variableIds {K : Type} [Scalar K] {problem : Problem K} {id : VarId} :
    id ∈ problem.variableIds ↔ id ∈ problem.objective.occurrences ∨
      id ∈ Constraint.occurrencesAll problem.constraints := by
  simp [variableIds, Constraint.occurrencesAll]

section Forms

open Canonicalizing

variable {K : Type} [Scalar K]

/-- The standard form of a problem, whether or not it obeys the rules of disciplined convex
programming. -/
def canonicalForm (problem : Problem K) : Canonicalizing (StandardProblem K) := do
  let objective ← problem.objective.canonicalize true
  let (cones, auxiliaries) ← Constraint.canonicalizeAll problem.constraints
  return {
    objective := objective.form.toQuadratic
    cones := objective.cones ++ cones
    variableIds := problem.variableIds ++ objective.auxiliaries ++ auxiliaries }

/-- Standardization first checks the rules. -/
theorem standardize_eq (problem : Problem K) :
    problem.standardize = if problem.isDcp then problem.canonicalForm
      else throw problem.violations := by
  rw [standardize, canonicalForm]
  cases problem.isDcp with
  | false => rfl
  | true => rfl

variable {problem : Problem K} {before after : Supply} {standard : StandardProblem K}

theorem returns_standardize_iff :
    problem.standardize.Returns before standard after ↔
      problem.isDcp = true ∧ problem.canonicalForm.Returns before standard after := by
  rw [standardize_eq]
  cases problem.isDcp <;> simp

theorem returns_canonicalForm_iff :
    problem.canonicalForm.Returns before standard after ↔
      ∃ objective cones auxiliaries middle,
        Canonicalizes true before problem.objective objective middle ∧
          CanonicalizesAll middle problem.constraints cones auxiliaries after ∧
            standard = ⟨objective.form.toQuadratic, objective.cones ++ cones,
              problem.variableIds ++ objective.auxiliaries ++ auxiliaries⟩ := by
  simp only [canonicalForm, returns_bind, returns_pure]
  constructor
  · rintro ⟨objective, middle, fromObjective, ⟨cones, auxiliaries⟩, _, fromConstraints, rfl, rfl⟩
    exact ⟨objective, cones, auxiliaries, middle,
      Expression.canonicalizes_of_returns fromObjective,
      Constraint.canonicalizesAll_of_returns fromConstraints, rfl⟩
  · rintro ⟨objective, cones, auxiliaries, middle, fromObjective, fromConstraints, rfl⟩
    exact ⟨objective, middle, Expression.returns_of_canonicalizes fromObjective,
      ⟨cones, auxiliaries⟩, after, Constraint.returns_of_canonicalizesAll fromConstraints, rfl, rfl⟩

/-- Standardization succeeds for problems that obey the rules, by the rules of canonicalization. -/
theorem returns_standardize (returns : problem.standardize.Returns before standard after) :
    problem.isDcp = true ∧ ∃ objective cones auxiliaries middle,
      Canonicalizes true before problem.objective objective middle ∧
        CanonicalizesAll middle problem.constraints cones auxiliaries after ∧
          standard = ⟨objective.form.toQuadratic, objective.cones ++ cones,
            problem.variableIds ++ objective.auxiliaries ++ auxiliaries⟩ := by
  rcases returns_standardize_iff.1 returns with ⟨dcp, fromForm⟩
  exact ⟨dcp, returns_canonicalForm_iff.1 fromForm⟩

end Forms

variable {problem : Problem ℚ} {before after : Supply} {standard : StandardProblem ℚ}
  {point values : VarId → ℚ} {bound : ℚ}

theorem AttainsLoosely.congr {loose : Expression ℚ → Bool}
    (attains : problem.AttainsLoosely loose values bound)
    (agree : ∀ id ∈ problem.variableIds, values id = point id) :
    problem.AttainsLoosely loose point bound := by
  rcases attains with ⟨holds, value, loosened, below⟩
  refine ⟨?_, value, loosened.congr ?_, below⟩
  · intro constraint constraint_mem
    rcases holds constraint constraint_mem with ⟨value, loosened, allows⟩
    refine ⟨value, loosened.congr ?_, allows⟩
    intro id occurs
    exact agree id (mem_variableIds.2 (.inr (List.mem_flatMap.2 ⟨_, constraint_mem, occurs⟩)))
  · intro id occurs
    exact agree id (mem_variableIds.2 (.inl occurs))

theorem AttainsLoosely.mono {loose looser : Expression ℚ → Bool}
    (attains : problem.AttainsLoosely loose point bound)
    (more : ∀ node, loose node = true → looser node = true) :
    problem.AttainsLoosely looser point bound := by
  rcases attains with ⟨holds, value, loosened, below⟩
  refine ⟨?_, value, loosened.mono more, below⟩
  intro constraint constraint_mem
  rcases holds constraint constraint_mem with ⟨value, loosened, allows⟩
  exact ⟨value, loosened.mono more, allows⟩

/-- The standard form attains a bound on some values of the auxiliary variables exactly when loose
values attain it. -/
theorem extendsTo_attains_iff (issued : ∀ id ∈ problem.variableIds, before.Issued id)
    (returns : problem.standardize.Returns before standard after) :
    (∃ values, (∀ id ∈ problem.variableIds, values id = point id) ∧
        standard.Attains values bound) ↔
      problem.AttainsLoosely (fun _ => true) point bound := by
  rcases returns_standardize returns with
    ⟨-, objective, cones, auxiliaries, middle, fromObjective, fromConstraints, rfl⟩
  constructor
  · rintro ⟨values, agree, holds, below⟩
    rw [List.forall_mem_append] at holds
    rw [StandardForm.valueAt_toQuadratic] at below
    have attains : problem.AttainsLoosely (fun _ => true) values bound :=
      ⟨fromConstraints.holdsLoosely_of_holdsAt holds.2, _,
        fromObjective.loosened_of_holdsAt holds.1, below⟩
    exact attains.congr agree
  · rintro ⟨holds, value, loosened, below⟩
    have issuedObjective := fun id member => issued id (mem_variableIds.2 (.inl member))
    have issuedConstraints := fun id member => issued id (mem_variableIds.2 (.inr member))
    have reachObjective := fromObjective.extendsTo_of_loosened issuedObjective loosened
    have reachConstraints := fromConstraints.extendsTo_of_holdsLoosely
      (fun id member => (issuedConstraints id member).mono fromObjective.next_le) holds
    rcases reachObjective.join_drawn reachConstraints (fromObjective.confined_reaches value)
        fromConstraints.confined issuedObjective issuedConstraints fromObjective.next_le
        fromConstraints.next_le with
      ⟨values, off, ⟨inner, reached⟩, others⟩
    refine ⟨values, ?_, ?_, ?_⟩
    · intro id member
      apply off
      exact (issued id member).not_mem_drawn
    · exact List.forall_mem_append.2 ⟨inner, others⟩
    · rwa [StandardForm.valueAt_toQuadratic, reached]

/-- Under the rules of disciplined convex programming, atoms that do not count as constant gain
nothing from being loose. -/
theorem attainsLoosely_iff_of_isDcp (dcp : problem.isDcp = true)
    (flags : problem.FlagsHoldAt point) :
    problem.AttainsLoosely (fun _ => true) point bound ↔
      problem.AttainsLoosely Expression.isConstantAtom point bound := by
  simp only [isDcp, Bool.and_eq_true, List.all_eq_true] at dcp
  constructor
  · rintro ⟨holds, value, loosened, below⟩
    constructor
    · intro constraint constraint_mem
      rcases holds constraint constraint_mem with ⟨value, loosened, allows⟩
      rcases loosened.exists_bounds (flags.2 constraint constraint_mem) with
        ⟨strict, fromStrict, bounds⟩
      refine ⟨strict, fromStrict, ?_⟩
      have obeys := dcp.2 constraint constraint_mem
      cases constraint with
      | zero expression =>
          have same : value = strict := bounds.eq_of_isAffine obeys
          rwa [same] at allows
      | nonneg expression => exact le_trans allows (bounds.2 obeys)
    · rcases loosened.exists_bounds flags.1 with ⟨strict, fromStrict, bounds⟩
      exact ⟨strict, fromStrict, (bounds.1 dcp.1).trans below⟩
  · intro attains
    apply attains.mono
    intro _ _
    rfl

/-- What is attained is also attained with loose atoms, as far as the problem has a standard
form. -/
theorem Attains.loosely (attains : problem.Attains (.ofPoint point) bound)
    (returns : problem.standardize.Returns before standard after) (loose : Expression ℚ → Bool) :
    problem.AttainsLoosely loose point bound := by
  rcases returns_standardize returns with
    ⟨-, objective, cones, auxiliaries, middle, fromObjective, fromConstraints, rfl⟩
  rcases attains with ⟨holds, value, evaluated, below⟩
  rw [Expression.eval_ofPoint, Option.some.injEq] at evaluated
  refine ⟨?_, _, fromObjective.loosened_valueAt loose point, evaluated ▸ below⟩
  intro constraint constraint_mem
  rcases holds constraint constraint_mem with ⟨value, evaluated, allows⟩
  rw [Expression.eval_ofPoint, Option.some.injEq] at evaluated
  rcases fromConstraints.exists_canonicalizes constraint_mem with ⟨_, _, _, fromConstraint⟩
  exact ⟨value, evaluated ▸ fromConstraint.loosened_valueAt loose point, allows⟩

end Problem

end HingeLoss
