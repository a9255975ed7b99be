import HingeLoss.Proofs.Document.Defects
import HingeLoss.Proofs.Document.Shape
import HingeLoss.Proofs.Standard.Charges
import Mathlib.Data.List.Nodup

/-!
# Canonical forms of built models

The canonical form of a built model can be written down. Each summand takes one auxiliary variable,
held above zero and above the term, and puts its weight on this variable or on its square; the
constraints take none.
-/

namespace HingeLoss

open DecisionVariables (leafAt numbered)
open Scalar (Same)

theorem Term.Fits.eraseDups {K : Type} {term : Term K} {declared : List String}
    (fits : term.Fits declared) : term.Fits declared.eraseDups :=
  ⟨fits.lengths, fun name member => List.mem_eraseDups.2 (fits.known name member)⟩

namespace Term

variable {K : Type} [Scalar K] {before supply : Supply} {names : List String} {term : Term K}

/-- The sum of all coefficients that the term has for a name, in their order. -/
def coefficientOf (term : Term K) (name : String) : K :=
  Scalar.total ((term.entries.filter fun entry => entry.2 == name).map Prod.fst)

/-- The coefficient for the name at a place of a list, and zero beyond the end of the list. -/
def coefficientAt (names : List String) (term : Term K) (place : Nat) : K :=
  ((names[place]?).map term.coefficientOf).getD 0

/-- The linear form of a term over numbered variables. -/
def formOver (before : Supply) (names : List String) (term : Term K) : LinearForm K :=
  .weightedSum term.constant <| term.entries.map fun entry =>
    (entry.1, (leafAt before entry.2 (names.idxOf entry.2)).id)

theorem canonicalizes_expressionOver (distinct : names.Nodup) (fits : term.Fits names)
    {allowed : Bool} :
    Canonicalizes allowed supply (term.expressionOver (numbered before names))
      (.ofLinear (term.formOver before names)) supply := by
  have found : (term.entries.map fun entry =>
      (entry.1, ((numbered before names).find? entry.2).getD .zero)) =
        (term.entries.map fun entry =>
          (entry.1, leafAt before entry.2 (names.idxOf entry.2))).map fun entry =>
            (entry.1, (.var entry.2 : Expression K)) := by
    rw [List.map_map]
    apply List.map_congr_left
    intro entry member
    have place := List.getElem?_idxOf (mem_of_mem_entries fits member)
    rw [DecisionVariables.find?_numbered_of_getElem? before distinct place]
    rfl
  have derivation : Canonicalizes allowed supply _ _ supply :=
    .weightedSum term.constant (term.entries.map fun entry =>
      (entry.1, leafAt before entry.2 (names.idxOf entry.2)))
  rw [← found, List.map_map] at derivation
  exact derivation

section Numbers

variable (finite : term.HasFiniteNumbers)

include finite

theorem isFinite_weights :
    ∀ entry ∈ term.entries.map fun entry =>
        (entry.1, (leafAt before entry.2 (names.idxOf entry.2)).id),
      Scalar.isFinite entry.1 = true := by
  rw [List.forall_mem_map]
  intro entry member
  exact finite.coefficients entry.1 (List.of_mem_zip member).1

variable [LawfulArithmetic K]

theorem same_coefficientAt (names : List String) (place : Nat) :
    Same (term.coefficientAt names place) (term.coefficientAt names place) := by
  rw [coefficientAt]
  cases names[place]? with
  | none => exact LawfulArithmetic.same_zero
  | some name =>
      apply LawfulArithmetic.same_total
      rw [List.forall_mem_map]
      intro entry member
      exact finite.coefficients entry.1 (List.of_mem_zip (List.mem_of_mem_filter member)).1

theorem constant_formOver (before : Supply) (names : List String) :
    Same (term.formOver before names).constant term.constant :=
  LinearForm.constant_weightedSum finite.constant (isFinite_weights finite)

theorem coefficientAt_formOver (distinct : names.Nodup) (fits : term.Fits names) (place : Nat) :
    (term.formOver before names).coefficientAt ⟨before.next + place⟩ =
      term.coefficientAt names place := by
  have own : ∀ entry ∈ term.entries,
      ((leafAt before entry.2 (names.idxOf entry.2)).id == ⟨before.next + place⟩) =
        (names[place]? == some entry.2) := by
    intro entry member
    have atOwn := List.getElem?_idxOf (mem_of_mem_entries fits member)
    rw [Bool.eq_iff_iff, beq_iff_eq, beq_iff_eq, DecisionVariables.id_leafAt, VarId.mk.injEq,
      Nat.add_left_cancel_iff]
    constructor
    · rintro rfl
      exact atOwn
    · intro atPlace
      have inside := (List.getElem?_eq_some_iff.1 atPlace).1
      exact ((List.getElem?_inj inside distinct).1 (atPlace.trans atOwn.symm)).symm
  rw [formOver, LinearForm.coefficientAt_weightedSum (isFinite_weights finite), coefficientAt,
    List.filter_map, List.map_map]
  simp only [Function.comp_def]
  rw [List.filter_congr own]
  cases names[place]? with
  | none => simp [Scalar.total]
  | some name => simp [coefficientOf, BEq.comm]

end Numbers

/-- The forms that are held above zero for a summand with a given auxiliary variable. -/
def hingeForms (before : Supply) (names : List String) (term : Term K) (id : VarId) :
    List (LinearForm K) :=
  [.ofVariable id, (LinearForm.ofVariable id).add (term.formOver before names).neg]

/-- The weight of a summand on its auxiliary variable or on the square of that. -/
def chargeOn (id : VarId) (term : Term K) : StandardForm K :=
  if term.squared then .quadratic ((QuadraticForm.square id 1).scale term.weightOrZero)
  else .linear ((LinearForm.ofVariable id).scale term.weightOrZero)

theorem canonicalizes_penaltyOver [LawfulArithmetic K] (distinct : names.Nodup)
    (fits : term.Fits names) (nonneg : 0 ≤ term.weightOrZero) :
    Canonicalizes true supply (term.penaltyOver (numbered before names))
      ⟨term.chargeOn supply.draw.1, (term.hingeForms before names supply.draw.1).map .nonneg,
        [supply.draw.1]⟩ supply.draw.2 := by
  have hinged : ∀ allowed, Canonicalizes allowed supply
      (.pos (term.expressionOver (numbered before names)))
      ⟨.linear (.ofVariable supply.draw.1),
        (term.hingeForms before names supply.draw.1).map .nonneg, [supply.draw.1]⟩
      supply.draw.2 :=
    fun _ => .pos (canonicalizes_expressionOver distinct fits) rfl
  have stillAllowed : (true && decide (0 ≤ term.weightOrZero)) = true := by simpa using nonneg
  rw [penaltyOver, Expression.scaled, Expression.hinge, chargeOn]
  cases term.squared with
  | false => exact .mulLeft term.weightOrZero (hinged _)
  | true =>
      -- A hinge has become one variable by now, so that its square needs no variable of its own.
      have single : (LinearForm.ofVariable supply.draw.1 : LinearForm K).singleVariable? =
          some supply.draw.1 := by
        have isZero : ((0 : K) == 0) = true := LawfulArithmetic.same_zero
        have isOne : ((1 : K) == 1) = true := LawfulArithmetic.same_one
        simp [LinearForm.singleVariable?, LinearForm.ofVariable, Coefficients.single, isZero, isOne]
      have squared := Canonicalizes.squareVariable (hinged false) rfl single
      rw [← stillAllowed] at squared
      exact .mulLeft term.weightOrZero squared

/-- The form that is held above zero for a constraint. -/
def boundForm (before : Supply) (names : List String) (term : Term K) : LinearForm K :=
  (LinearForm.ofConstant 0).add (term.formOver before names).neg

/-- The linear cost of a summand's auxiliary variable. -/
def linearCost (term : Term K) : K := if term.squared then 0 else term.weightOrZero

/-- The costs of the squares of a summand's auxiliary variable, which has this place. -/
def squareCosts (place : Nat) (term : Term K) : List (Nat × K) :=
  if term.squared then [(place, term.weightOrZero)] else []

theorem place_of_mem_squareCosts {place : Nat} {square : Nat × K}
    (member : square ∈ term.squareCosts place) : square.1 = place := by
  rw [squareCosts] at member
  split at member
  · rw [List.mem_singleton.1 member]
  · exact absurd member List.not_mem_nil

theorem charges_chargeOn [LawfulArithmetic K] (finite : Scalar.isFinite term.weightOrZero = true)
    (before : Supply) (place : Nat) :
    StandardForm.Charges before (List.replicate place 0 ++ [term.linearCost])
      (term.squareCosts place) (term.chargeOn ⟨before.next + place⟩) := by
  rw [linearCost, squareCosts, chargeOn]
  cases term.squared with
  | false => exact .linearCost before place finite
  | true => exact .squareCost before place finite

end Term

/-- The constraint holds the linear form above zero, and needs no auxiliary variables. -/
def Constraint.KeepsAbove {K : Type} [Scalar K] (supply : Supply) (constraint : Constraint K)
    (form : LinearForm K) : Prop :=
  ∃ expression, constraint = .nonneg expression ∧
    Canonicalizes false supply expression (.ofLinear form) supply

theorem CanonicalizesAll.of_keepsAbove {K : Type} [Scalar K] {supply : Supply}
    {constraints : List (Constraint K)} {forms : List (LinearForm K)}
    (each : List.Forall₂ (Constraint.KeepsAbove supply) constraints forms) :
    CanonicalizesAll supply constraints (forms.map .nonneg) [] supply := by
  induction each with
  | nil => exact .nil
  | cons first _ ih =>
      rcases first with ⟨expression, rfl, derivation⟩
      have first : Canonicalizes false _ (Constraint.nonneg expression).expression _ _ := derivation
      exact .cons first rfl ih

theorem forall₂_flatMap {α β γ : Type} {R : β → γ → Prop} {items : List α} {left : α → List β}
    {right : α → List γ} (each : ∀ item ∈ items, List.Forall₂ R (left item) (right item)) :
    List.Forall₂ R (items.flatMap left) (items.flatMap right) := by
  rw [List.flatMap_def, List.flatMap_def]
  apply List.rel_flatten
  rw [List.forall₂_map_left_iff, List.forall₂_map_right_iff, List.forall₂_same]
  exact each

section Constraints

variable {K : Type} [Scalar K] {before supply : Supply} {names : List String}

/-- Taking an expression away from a literal number takes its form away from the number. -/
theorem Canonicalizes.constSub {expression : Expression K} {form : LinearForm K} (value : K)
    (derivation : Canonicalizes false supply expression (.ofLinear form) supply) :
    Canonicalizes false supply ((Expression.const value).sub expression)
      (.ofLinear ((LinearForm.ofConstant value).add form.neg)) supply :=
  .add (.const value) (.neg derivation rfl)

/-- The forms that are held above zero for the bounds of a variable. -/
def boxForms (id : VarId) : List (LinearForm K) :=
  [.ofVariable id, (LinearForm.ofConstant 1).add (LinearForm.ofVariable id).neg]

theorem keepsAbove_boxConstraints [LawfulArithmetic K] (leaf : Variable) :
    List.Forall₂ (Constraint.KeepsAbove supply)
      (HingeProblem.boxConstraints (.var leaf : Expression K)) (boxForms leaf.id) := by
  have atLeast : Constraint.KeepsAbove supply (.atLeast (.var leaf) (.const (0 : K)))
      (.ofVariable leaf.id) := by
    have isZero : ((0 : K) == 0) = true := LawfulArithmetic.same_zero
    refine ⟨.var leaf, ?_, .var leaf⟩
    rw [Constraint.atLeast, Constraint.difference, if_pos isZero]
  have atMost : Constraint.KeepsAbove supply (.atMost (.var leaf) (.const (1 : K)))
      ((LinearForm.ofConstant 1).add (LinearForm.ofVariable leaf.id).neg) :=
    ⟨_, rfl, (Canonicalizes.var leaf).constSub 1⟩
  exact .cons atLeast (.cons atMost .nil)

theorem Term.keepsAbove_boundForm {term : Term K} (distinct : names.Nodup)
    (fits : term.Fits names) :
    Constraint.KeepsAbove supply (.atMost (term.expressionOver (numbered before names)) (.const 0))
      (term.boundForm before names) :=
  ⟨_, rfl, (term.canonicalizes_expressionOver distinct fits).constSub 0⟩

end Constraints

section Penalties

variable {K : Type} [Scalar K]

/-- The canonical form of a sum of penalties, if the auxiliary variables of the summands are
numbered after those of the names. -/
structure Penalizes (before : Supply) (names : List String) (terms : List (Term K))
    (objective : Canonical K) : Prop where
  cones : objective.cones = (terms.zipIdx.flatMap fun entry =>
    entry.1.hingeForms before names ⟨before.next + (names.length + entry.2)⟩).map .nonneg
  charges : objective.form.Charges before
    (List.replicate names.length 0 ++ terms.map Term.linearCost)
    (terms.zipIdx.flatMap fun entry => entry.1.squareCosts (names.length + entry.2))

namespace Penalizes

variable [LawfulArithmetic K] {before : Supply} {names : List String} {terms : List (Term K)}
  {term : Term K} {objective : Canonical K}

theorem nil (before : Supply) (names : List String) :
    Penalizes before names ([] : List (Term K)) (.ofLinear (.ofConstant 0)) where
  cones := rfl
  charges := by
    rw [List.map_nil, List.append_nil]
    exact .zero before names.length

theorem singleton (before : Supply) (names : List String)
    (finite : Scalar.isFinite term.weightOrZero = true) (auxiliaries : List VarId) :
    Penalizes before names [term]
      ⟨term.chargeOn ⟨before.next + names.length⟩,
        (term.hingeForms before names ⟨before.next + names.length⟩).map .nonneg, auxiliaries⟩ where
  cones := by simp
  charges := by simpa using Term.charges_chargeOn finite before names.length

/-- Each further summand charges the next variable. -/
theorem snoc (penalizes : Penalizes before names terms objective)
    (finite : Scalar.isFinite term.weightOrZero = true) (auxiliaries : List VarId) :
    let id : VarId := ⟨before.next + (names.length + terms.length)⟩
    Penalizes before names (terms ++ [term])
      (objective.add ⟨term.chargeOn id, (term.hingeForms before names id).map .nonneg,
        auxiliaries⟩) := by
  intro id
  have count : (List.replicate names.length (0 : K) ++ terms.map Term.linearCost).length =
      names.length + terms.length := by simp
  have charges := Term.charges_chargeOn finite before (names.length + terms.length)
  constructor
  case cones =>
    change objective.cones ++ _ = _
    simp [penalizes.cones, List.zipIdx_append, id]
  case charges =>
    rw [← count] at charges
    have summed := penalizes.charges.add charges ?below ?own
    case below =>
      rw [count]
      intro square member
      rcases List.mem_flatMap.1 member with ⟨⟨other, index⟩, other_mem, inOther⟩
      have inside := (List.getElem?_eq_some_iff.1 (List.mem_zipIdx_iff_getElem?.1 other_mem)).1
      rw [Term.place_of_mem_squareCosts inOther]
      exact Nat.add_lt_add_left inside _
    case own => exact fun square => Term.place_of_mem_squareCosts
    change StandardForm.Charges _ _ _ (objective.form.add _)
    simpa [List.zipIdx_append, count] using summed

/-- Summed up one after the other, penalties take the variables that come next. -/
theorem exists_canonicalizes_sum (distinct : names.Nodup)
    (fits : ∀ term ∈ terms, term.Fits names)
    (finite : ∀ term ∈ terms, Scalar.isFinite term.weightOrZero = true)
    (nonneg : ∀ term ∈ terms, 0 ≤ term.weightOrZero) :
    ∃ objective, Penalizes before names terms objective ∧
      Canonicalizes true (before.skip names.length)
        (.sum (terms.map (Term.penaltyOver (numbered before names)))) objective
        (before.skip (names.length + terms.length)) := by
  induction terms using List.reverseRecOn with
  | nil => exact ⟨_, .nil before names, .sumNil⟩
  | append_singleton terms term ih =>
      rw [List.forall_mem_append, List.forall_mem_singleton] at fits finite nonneg
      rcases ih fits.1 finite.1 nonneg.1 with ⟨objective, penalizes, derivation⟩
      have fromTerm : Canonicalizes true (before.skip (names.length + terms.length))
          (term.penaltyOver (numbered before names)) _ _ :=
        Term.canonicalizes_penaltyOver distinct fits.2 nonneg.2
      have longer := derivation.sumSnoc fromTerm
      rw [List.map_append, List.length_append]
      exact ⟨_, penalizes.snoc finite.2 _, longer⟩

theorem exists_canonicalizes_sumOf (distinct : names.Nodup)
    (fits : ∀ term ∈ terms, term.Fits names)
    (finite : ∀ term ∈ terms, Scalar.isFinite term.weightOrZero = true)
    (nonneg : ∀ term ∈ terms, 0 ≤ term.weightOrZero) :
    ∃ objective, Penalizes before names terms objective ∧
      Canonicalizes true (before.skip names.length)
        (.sumOf (terms.map (Term.penaltyOver (numbered before names)))) objective
        (before.skip (names.length + terms.length)) := by
  match terms with
  | [] => exact ⟨_, .nil before names, .const 0⟩
  | [term] =>
      rw [List.forall_mem_singleton] at fits finite nonneg
      exact ⟨_, .singleton before names finite _,
        Term.canonicalizes_penaltyOver distinct fits nonneg⟩
  | _ :: _ :: _ => exact exists_canonicalizes_sum distinct fits finite nonneg

end Penalizes

end Penalties

namespace HingeProblem

variable {K : Type} [Scalar K] {problem : HingeProblem K}

/-- The forms that are held above zero for the bounds of the declared names, in their order, and for
the constraints. -/
def boundForms (problem : HingeProblem K) (before : Supply) : List (LinearForm K) :=
  (List.range problem.names.eraseDups.length).flatMap
      (fun place => boxForms ⟨before.next + place⟩) ++
    problem.constraints.map (Term.boundForm before problem.names.eraseDups)

/-- All forms that are held above zero, those of the summands first. -/
def heldForms (problem : HingeProblem K) (before : Supply) : List (LinearForm K) :=
  (problem.summands.zipIdx.flatMap fun entry =>
      entry.1.hingeForms before problem.names.eraseDups
        ⟨before.next + (problem.names.eraseDups.length + entry.2)⟩) ++
    problem.boundForms before

variable [LawfulArithmetic K]

theorem canonicalizesAll_built (buildable : problem.Buildable) (before supply : Supply) :
    CanonicalizesAll supply (problem.built (problem.decisions before)).constraints
      ((problem.boundForms before).map .nonneg) [] supply := by
  apply CanonicalizesAll.of_keepsAbove
  apply List.rel_append
  · rw [List.range_eq_range', ← List.zipIdx_map_snd, List.flatMap_map]
    change List.Forall₂ _ (List.flatMap _ (List.map _ problem.names.eraseDups.zipIdx)) _
    rw [List.flatMap_map]
    exact forall₂_flatMap fun entry _ => keepsAbove_boxConstraints _
  · rw [List.forall₂_map_left_iff, List.forall₂_map_right_iff, List.forall₂_same]
    intro term member
    exact Term.keepsAbove_boundForm (nodup_eraseDups _)
      (buildable.constraints term member).eraseDups

end HingeProblem

end HingeLoss
