import HingeLoss.Proofs.Extension
import HingeLoss.Proofs.Standard.Loosening

/-!
# Canonical forms reach exactly the loose values

The cone constraints of a canonical form hold at some values of the auxiliary variables exactly when
the value of the form is a loose value of the expression. That the form reaches no other value needs
nothing about the variables: the constraints hold an auxiliary variable above its atom, whichever
variable it is. That every loose value is reached needs the auxiliary variables to be fresh, so that
what the parts of an expression ask of them can be put together. Both directions go through one
equivalence for each kind of node, which says what its constraints leave of the value.
-/

namespace HingeLoss

namespace Cone

variable {values : VarId → ℚ}

/-- The length of `(2 x, t - 1)` is at most `t + 1` exactly when `x²` is at most `t`. -/
theorem holdsAt_square_iff {bound form : LinearForm ℚ} (nonneg : 0 ≤ bound.valueAt values) :
    (Cone.secondOrder (bound.add (.ofConstant 1))
        [form.scale Scalar.two, bound.add (.ofConstant (-1))]).HoldsAt values ↔
      form.valueAt values * form.valueAt values ≤ bound.valueAt values := by
  simp only [HoldsAt, List.map_cons, List.map_nil, Scalar.total_eq_sum, List.sum_cons,
    List.sum_nil, LinearForm.valueAt_add, LinearForm.valueAt_scale, LinearForm.valueAt_ofConstant,
    Scalar.two_eq]
  constructor
  · rintro ⟨-, squares⟩
    linarith
  · intro below
    constructor
    · linarith
    · linarith

end Cone

namespace Canonical

def HoldsAt {K : Type} [Scalar K] (canonical : Canonical K) (values : VarId → K) : Prop :=
  ∀ cone ∈ canonical.cones, cone.HoldsAt values

variable {canonical left right : Canonical ℚ} {form : StandardForm ℚ} {cones : List (Cone ℚ)}
  {auxiliaries : List VarId} {values : VarId → ℚ}

@[simp]
theorem holdsAt_ofLinear (form : LinearForm ℚ) : (ofLinear form).HoldsAt values := by
  simp [HoldsAt, ofLinear]

@[simp]
theorem holdsAt_extend :
    (canonical.extend form cones auxiliaries).HoldsAt values ↔
      canonical.HoldsAt values ∧ ∀ cone ∈ cones, cone.HoldsAt values := by
  simp [HoldsAt, extend, or_imp, forall_and]

@[simp]
theorem holdsAt_add :
    (left.add right).HoldsAt values ↔ left.HoldsAt values ∧ right.HoldsAt values :=
  holdsAt_extend

@[simp]
theorem holdsAt_scale {factor : ℚ} :
    (canonical.scale factor).HoldsAt values ↔ canonical.HoldsAt values := Iff.rfl

@[simp]
theorem form_add : (left.add right).form = left.form.add right.form := rfl

@[simp]
theorem form_scale {factor : ℚ} : (canonical.scale factor).form = canonical.form.scale factor := rfl

theorem holdsAt_congr {other : VarId → ℚ}
    (agree : ∀ id ∈ canonical.variableIds, values id = other id) :
    canonical.HoldsAt values ↔ canonical.HoldsAt other := by
  apply forall₂_congr
  intro cone cone_mem
  apply Cone.holdsAt_congr
  intro id id_mem
  exact agree id (mem_variableIds.2 (.inr ⟨cone, cone_mem, id_mem⟩))

/-- At these values the constraints hold and the form has the given value. -/
def Reaches (canonical : Canonical ℚ) (value : ℚ) (values : VarId → ℚ) : Prop :=
  canonical.HoldsAt values ∧ canonical.form.valueAt values = value

namespace Reaches

variable {value leftValue rightValue : ℚ}

theorem congr {other : VarId → ℚ}
    (agree : ∀ id ∈ canonical.variableIds, values id = other id)
    (reached : canonical.Reaches value values) : canonical.Reaches value other := by
  refine ⟨(holdsAt_congr agree).1 reached.1, ?_⟩
  rw [← reached.2]
  exact StandardForm.valueAt_congr fun id id_mem =>
    (agree id (mem_variableIds.2 (.inl id_mem))).symm

theorem add (fromLeft : left.Reaches leftValue values)
    (fromRight : right.Reaches rightValue values) :
    (left.add right).Reaches (leftValue + rightValue) values := by
  refine ⟨holdsAt_add.2 ⟨fromLeft.1, fromRight.1⟩, ?_⟩
  rw [form_add, StandardForm.valueAt_add, fromLeft.2, fromRight.2]

theorem scale (reached : canonical.Reaches value values) (factor : ℚ) :
    (canonical.scale factor).Reaches (value * factor) values := by
  refine ⟨holdsAt_scale.2 reached.1, ?_⟩
  rw [form_scale, StandardForm.valueAt_scale, reached.2]

end Reaches

section Nodes

variable {inner : Canonical ℚ} {form : LinearForm ℚ} {value : ℚ} {id : VarId}

theorem reaches_extend {form : StandardForm ℚ} :
    (inner.extend form cones auxiliaries).Reaches value values ↔
      inner.HoldsAt values ∧ (∀ cone ∈ cones, cone.HoldsAt values) ∧
        form.valueAt values = value := by
  rw [Reaches, holdsAt_extend, and_assoc]
  rfl

theorem reaches_iff_of_linear (linear : inner.form = .linear form) :
    inner.Reaches value values ↔ inner.HoldsAt values ∧ form.valueAt values = value := by
  rw [Reaches, linear]
  rfl

theorem reaches_add_iff :
    (left.add right).Reaches value values ↔ ∃ leftValue rightValue,
      left.Reaches leftValue values ∧ right.Reaches rightValue values ∧
        leftValue + rightValue = value := by
  constructor
  · rintro ⟨holds, reached⟩
    rw [holdsAt_add] at holds
    rw [form_add, StandardForm.valueAt_add] at reached
    exact ⟨_, _, ⟨holds.1, rfl⟩, ⟨holds.2, rfl⟩, reached⟩
  · rintro ⟨leftValue, rightValue, fromLeft, fromRight, rfl⟩
    exact fromLeft.add fromRight

theorem reaches_scale_iff {factor : ℚ} :
    (inner.scale factor).Reaches value values ↔ ∃ innerValue,
      inner.Reaches innerValue values ∧ innerValue * factor = value := by
  constructor
  · rintro ⟨holds, reached⟩
    rw [form_scale, StandardForm.valueAt_scale] at reached
    exact ⟨_, ⟨holds, rfl⟩, reached⟩
  · rintro ⟨innerValue, fromInner, rfl⟩
    exact fromInner.scale factor

theorem reaches_neg_iff (linear : inner.form = .linear form) :
    (inner.extend (.linear form.neg) [] auxiliaries).Reaches value values ↔ ∃ innerValue,
      inner.Reaches innerValue values ∧ -innerValue = value := by
  rw [reaches_extend]
  change inner.HoldsAt values ∧ _ ∧ form.neg.valueAt values = value ↔ _
  simp [reaches_iff_of_linear linear, LinearForm.valueAt_neg]

/-- The variable of a positive part takes any value above the value of the body and above zero. -/
theorem reaches_pos_iff (linear : inner.form = .linear form) :
    (inner.extend (.linear (.ofVariable id))
        [.nonneg (.ofVariable id), .nonneg ((LinearForm.ofVariable id).add form.neg)]
        auxiliaries).Reaches value values ↔
      ∃ innerValue, inner.Reaches innerValue values ∧ max innerValue 0 ≤ value ∧
        values id = value := by
  rw [reaches_extend]
  change inner.HoldsAt values ∧ _ ∧ (LinearForm.ofVariable id).valueAt values = value ↔ _
  simp only [reaches_iff_of_linear linear, Cone.HoldsAt, List.forall_mem_cons,
    LinearForm.valueAt_add, LinearForm.valueAt_neg, LinearForm.valueAt_ofVariable, max_le_iff]
  constructor
  · rintro ⟨holds, ⟨nonneg, above, -⟩, rfl⟩
    exact ⟨_, ⟨holds, rfl⟩, ⟨by linarith, nonneg⟩, rfl⟩
  · rintro ⟨_, ⟨holds, rfl⟩, ⟨above, nonneg⟩, rfl⟩
    exact ⟨holds, ⟨nonneg, by linarith, by simp⟩, rfl⟩

/-- The square of one variable is the square of the value of the body. -/
theorem reaches_squareVariable_iff (linear : inner.form = .linear form)
    (single : form.singleVariable? = some id) :
    (inner.extend (.quadratic (.square id 1)) [] auxiliaries).Reaches value values ↔
      ∃ innerValue, inner.Reaches innerValue values ∧ innerValue * innerValue = value := by
  rw [reaches_extend]
  change inner.HoldsAt values ∧ _ ∧ (QuadraticForm.square id 1).valueAt values = value ↔ _
  rw [QuadraticForm.valueAt_square, one_mul, ← LinearForm.valueAt_of_singleVariable? single values]
  simp [reaches_iff_of_linear linear]

/-- A variable that is held equal to the body has the square of the value of the body. -/
theorem reaches_squareEqual_iff (linear : inner.form = .linear form) :
    (inner.extend (.quadratic (.square id 1)) [.zero ((LinearForm.ofVariable id).add form.neg)]
        auxiliaries).Reaches value values ↔
      ∃ innerValue, inner.Reaches innerValue values ∧ values id = innerValue ∧
        innerValue * innerValue = value := by
  rw [reaches_extend]
  change inner.HoldsAt values ∧ _ ∧ (QuadraticForm.square id 1).valueAt values = value ↔ _
  rw [QuadraticForm.valueAt_square, one_mul]
  simp only [reaches_iff_of_linear linear, Cone.HoldsAt, List.forall_mem_singleton,
    LinearForm.valueAt_add, LinearForm.valueAt_neg, LinearForm.valueAt_ofVariable]
  constructor
  · rintro ⟨holds, equal, rfl⟩
    have same : values id = form.valueAt values := by linarith
    exact ⟨_, ⟨holds, rfl⟩, same, by rw [same]⟩
  · rintro ⟨_, ⟨holds, rfl⟩, same, rfl⟩
    exact ⟨holds, by linarith, by rw [same]⟩

/-- The variable of a bounded square takes any value above the square of the value of the body. -/
theorem reaches_squareAbove_iff (linear : inner.form = .linear form) :
    (inner.extend (.linear (.ofVariable id))
        [.nonneg (.ofVariable id),
          .secondOrder ((LinearForm.ofVariable id).add (.ofConstant 1))
            [form.scale Scalar.two, (LinearForm.ofVariable id).add (.ofConstant (-1))]]
        auxiliaries).Reaches value values ↔
      ∃ innerValue, inner.Reaches innerValue values ∧ innerValue * innerValue ≤ value ∧
        values id = value := by
  rw [reaches_extend]
  change inner.HoldsAt values ∧ _ ∧ (LinearForm.ofVariable id).valueAt values = value ↔ _
  simp only [reaches_iff_of_linear linear, List.forall_mem_cons]
  constructor
  · rintro ⟨holds, ⟨nonneg, squares, -⟩, rfl⟩
    have above := (Cone.holdsAt_square_iff nonneg).1 squares
    exact ⟨_, ⟨holds, rfl⟩, above, (LinearForm.valueAt_ofVariable id values).symm⟩
  · rintro ⟨_, ⟨holds, rfl⟩, above, rfl⟩
    rw [← LinearForm.valueAt_ofVariable id values] at above
    have nonneg := (mul_self_nonneg _).trans above
    exact ⟨holds, ⟨nonneg, (Cone.holdsAt_square_iff nonneg).2 above, by simp⟩,
      LinearForm.valueAt_ofVariable id values⟩

end Nodes

end Canonical

namespace Canonicalizes

variable {allowed : Bool} {before middle after : Supply} {expression : Expression ℚ}
  {result : Canonical ℚ} {values point : VarId → ℚ}

/-- What a canonical form reaches is a loose value of the expression. -/
theorem loosened_of_reaches {value : ℚ}
    (derivation : Canonicalizes allowed before expression result after)
    (reached : result.Reaches value values) :
    Loosened (fun _ => true) values allowed expression value := by
  induction derivation generalizing value with
  | var leaf =>
      obtain rfl : values leaf.id = value :=
        (LinearForm.valueAt_ofVariable leaf.id values).symm.trans reached.2
      exact .var leaf
  | const number =>
      obtain rfl : number = value := reached.2
      exact .const number
  | add _ _ ihLeft ihRight =>
      rcases Canonical.reaches_add_iff.1 reached with ⟨_, _, fromLeft, fromRight, rfl⟩
      exact .add (ihLeft fromLeft) (ihRight fromRight)
  | neg _ linear ih =>
      rcases (Canonical.reaches_neg_iff linear).1 reached with ⟨_, fromBody, rfl⟩
      exact .neg (ih fromBody)
  | mulLeft factor _ ih =>
      rcases Canonical.reaches_scale_iff.1 reached with ⟨_, fromRight, rfl⟩
      exact .mulLeft factor (ih fromRight)
  | mulRight factor notLiteral _ ih =>
      rcases Canonical.reaches_scale_iff.1 reached with ⟨_, fromLeft, rfl⟩
      exact .mulRight factor notLiteral (ih fromLeft)
  | sumNil =>
      obtain rfl : 0 = value := reached.2
      exact .sumNil
  | sumSnoc _ _ ihTerms ihTerm =>
      rcases Canonical.reaches_add_iff.1 reached with ⟨_, _, fromTerms, fromTerm, rfl⟩
      exact .sumSnoc (ihTerms fromTerms) (ihTerm fromTerm)
  | pos _ linear ih =>
      rcases (Canonical.reaches_pos_iff linear).1 reached with ⟨_, fromBody, above, -⟩
      exact .pos (ih fromBody) above (by simp)
  | squareVariable _ linear single ih =>
      rcases (Canonical.reaches_squareVariable_iff linear single).1 reached with
        ⟨_, fromBody, rfl⟩
      exact .squareKept (ih fromBody)
  | squareEqual _ linear _ ih =>
      rcases (Canonical.reaches_squareEqual_iff linear).1 reached with ⟨_, fromBody, -, rfl⟩
      exact .squareKept (ih fromBody)
  | squareAbove _ linear ih =>
      rcases (Canonical.reaches_squareAbove_iff linear).1 reached with ⟨_, fromBody, above, -⟩
      exact .squareAbove (ih fromBody) above (by simp)

/-- Where the constraints hold, the value of the form is a loose value of the expression. -/
theorem loosened_of_holdsAt (derivation : Canonicalizes allowed before expression result after)
    (holds : result.HoldsAt values) :
    Loosened (fun _ => true) values allowed expression (result.form.valueAt values) :=
  derivation.loosened_of_reaches ⟨holds, rfl⟩

theorem confined_reaches (derivation : Canonicalizes allowed before expression result after)
    (value : ℚ) : Confined expression.occurrences before after (result.Reaches value) := by
  intro values other agree
  refine Canonical.Reaches.congr fun id member => agree id ?_
  rw [← derivation.auxiliaries_eq_drawn]
  exact derivation.mem_occurrences_or_auxiliaries member

/-- What two parts of an expression ask of their auxiliary variables can be met at once, so their
sum reaches the sum of their values. -/
theorem extendsTo_add {secondAllowed : Bool} {first second : Expression ℚ}
    {firstResult secondResult : Canonical ℚ} {firstValue secondValue : ℚ}
    (fromFirst : Canonicalizes allowed before first firstResult middle)
    (fromSecond : Canonicalizes secondAllowed middle second secondResult after)
    (issuedFirst : ∀ id ∈ first.occurrences, before.Issued id)
    (issuedSecond : ∀ id ∈ second.occurrences, before.Issued id)
    (reachFirst : ExtendsTo point (Supply.drawn before middle) (firstResult.Reaches firstValue))
    (reachSecond : ExtendsTo point (Supply.drawn middle after)
      (secondResult.Reaches secondValue)) :
    ExtendsTo point (Supply.drawn before after)
      ((firstResult.add secondResult).Reaches (firstValue + secondValue)) := by
  have both := reachFirst.join_drawn reachSecond (fromFirst.confined_reaches firstValue)
    (fromSecond.confined_reaches secondValue) issuedFirst issuedSecond fromFirst.next_le
    fromSecond.next_le
  exact both.imp fun values reached => reached.1.add reached.2

/-- The next variable of the supply can be given any value on top of what an expression asks of its
auxiliary variables. -/
theorem extendsTo_next (derivation : Canonicalizes allowed before expression result after)
    (issued : ∀ id ∈ expression.occurrences, before.Issued id) {value : ℚ}
    (reach : ExtendsTo point (Supply.drawn before after) (result.Reaches value)) (bound : ℚ) :
    ExtendsTo point (Supply.drawn before after.draw.2) fun values =>
      result.Reaches value values ∧ values after.draw.1 = bound :=
  reach.join_drawn (.next after bound) (derivation.confined_reaches value)
    (.next after bound) issued (by simp) derivation.next_le (Nat.le_succ _)

/-- Every loose value of an expression is reached by its canonical form, at values that only differ
from the point on the auxiliary variables. -/
theorem extendsTo_of_loosened {loose : Expression ℚ → Bool} {value : ℚ}
    (derivation : Canonicalizes allowed before expression result after)
    (issued : ∀ id ∈ expression.occurrences, before.Issued id)
    (loosened : Loosened loose point allowed expression value) :
    ExtendsTo point (Supply.drawn before after) (result.Reaches value) := by
  induction derivation generalizing value with
  | var leaf =>
      cases loosened
      exact .refl ⟨Canonical.holdsAt_ofLinear _, LinearForm.valueAt_ofVariable leaf.id point⟩
  | const number =>
      cases loosened
      exact .refl ⟨Canonical.holdsAt_ofLinear _, rfl⟩
  | add fromLeft fromRight ihLeft ihRight =>
      cases loosened with
      | add looseLeft looseRight =>
          rw [Expression.occurrences, List.forall_mem_append] at issued
          have issuedLater := fun id member => (issued.2 id member).mono fromLeft.next_le
          exact fromLeft.extendsTo_add fromRight issued.1 issued.2 (ihLeft issued.1 looseLeft)
            (ihRight issuedLater looseRight)
  | neg _ linear ih =>
      cases loosened with
      | neg looseBody =>
          exact (ih issued looseBody).imp fun values reached =>
            (Canonical.reaches_neg_iff linear).2 ⟨_, reached, rfl⟩
  | mulLeft factor _ ih =>
      cases loosened with
      | mulLeft _ looseRight =>
          simp only [Expression.occurrences, List.nil_append] at issued
          exact (ih issued looseRight).imp fun values reached => reached.scale factor
      | mulRight _ notLiteral _ => simp [Expression.constant?] at notLiteral
  | mulRight factor notLiteral _ ih =>
      cases loosened with
      | mulLeft _ _ => simp [Expression.constant?] at notLiteral
      | mulRight _ _ looseLeft =>
          simp only [Expression.occurrences, List.append_nil] at issued
          exact (ih issued looseLeft).imp fun values reached => reached.scale factor
  | sumNil =>
      generalize whole : Expression.sum [] = sum at loosened
      cases loosened <;> simp at whole
      exact .refl ⟨Canonical.holdsAt_ofLinear _, rfl⟩
  | sumSnoc fromTerms fromTerm ihTerms ihTerm =>
      rcases loosened.of_sum_snoc with ⟨accumulated, termValue, looseTerms, looseTerm, rfl⟩
      rw [Expression.occurrences_sum_snoc, List.forall_mem_append] at issued
      have issuedLater := fun id member => (issued.2 id member).mono fromTerms.next_le
      exact fromTerms.extendsTo_add fromTerm issued.1 issued.2 (ihTerms issued.1 looseTerms)
        (ihTerm issuedLater looseTerm)
  | pos fromBody linear ih =>
      cases loosened with
      | pos looseBody above _ =>
          apply (fromBody.extendsTo_next issued (ih issued looseBody) value).imp
          rintro values ⟨reached, bound⟩
          exact (Canonical.reaches_pos_iff linear).2 ⟨_, reached, above, bound⟩
  | squareVariable _ linear single ih =>
      cases loosened with
      | squareKept looseBody =>
          exact (ih issued looseBody).imp fun values reached =>
            (Canonical.reaches_squareVariable_iff linear single).2 ⟨_, reached, rfl⟩
  | squareEqual fromBody linear _ ih =>
      cases loosened with
      | @squareKept _ inner looseBody =>
          apply (fromBody.extendsTo_next issued (ih issued looseBody) inner).imp
          rintro values ⟨reached, bound⟩
          exact (Canonical.reaches_squareEqual_iff linear).2 ⟨_, reached, bound, rfl⟩
  | squareAbove fromBody linear ih =>
      cases loosened with
      | squareAbove looseBody above _ =>
          apply (fromBody.extendsTo_next issued (ih issued looseBody) value).imp
          rintro values ⟨reached, bound⟩
          exact (Canonical.reaches_squareAbove_iff linear).2 ⟨_, reached, above, bound⟩

end Canonicalizes

namespace Expression

open Canonicalizing

/-- Canonicalization cuts off no point: whatever values the variables of an expression have, its
auxiliary variables can be given values at which all constraints hold and the form has the value of
the expression. -/
theorem exists_auxiliary_values {expression : Expression ℚ} {allowed : Bool}
    {before after : Supply} {result : Canonical ℚ}
    (issued : ∀ id ∈ expression.occurrences, before.Issued id)
    (returns : (expression.canonicalize allowed).Returns before result after)
    {assignment : Assignment ℚ} {point : VarId → ℚ}
    (agrees : ∀ id ∈ expression.occurrences, assignment id = some (point id)) :
    ∃ values : VarId → ℚ,
      (∀ id ∈ expression.occurrences, values id = point id) ∧
        (∀ id ∉ result.auxiliaries, values id = point id) ∧
          (∀ cone ∈ result.cones, cone.HoldsAt values) ∧
            expression.eval assignment = some (result.form.valueAt values) := by
  have derivation := canonicalizes_of_returns returns
  rcases derivation.extendsTo_of_loosened issued (derivation.loosened_valueAt (fun _ => false)
      point) with
    ⟨values, off, holds, reached⟩
  rw [← derivation.auxiliaries_eq_drawn] at off
  refine ⟨values, fun id occurs => off id ?_, off, holds, ?_⟩
  · rw [derivation.auxiliaries_eq_drawn]
    exact (issued id occurs).not_mem_drawn
  · rw [eval_eq_valueAt agrees, reached]

theorem exists_auxiliary_values_square_pos :
    let expression : Expression ℚ := .square (.pos (.var ⟨⟨1⟩, none, false⟩))
    ∃ result after, (expression.canonicalize true).Returns ⟨2⟩ result after ∧
      ∃ values : VarId → ℚ, values ⟨1⟩ = 3 ∧ (∀ cone ∈ result.cones, cone.HoldsAt values) ∧
        result.form.valueAt values = 9 := by
  intro expression
  have single : (LinearForm.ofVariable ⟨2⟩ : LinearForm ℚ).singleVariable? = some ⟨2⟩ := by
    simp [LinearForm.singleVariable?, LinearForm.ofVariable, Coefficients.single]
  have inner : Canonicalizes (K := ℚ) false ⟨2⟩ (.pos (.var ⟨⟨1⟩, none, false⟩)) _ _ :=
    .pos (.var _) rfl
  have returns := returns_of_canonicalizes (Canonicalizes.squareVariable inner rfl single)
  have issued : ∀ id ∈ expression.occurrences, (⟨2⟩ : Supply).Issued id := by
    simp [expression, occurrences, Supply.Issued]
  have agrees : ∀ id ∈ expression.occurrences,
      Assignment.ofPoint (fun _ => (3 : ℚ)) id = some 3 := fun _ _ => rfl
  rcases exists_auxiliary_values issued returns agrees with ⟨values, agree, -, holds, reached⟩
  have atThree : expression.eval (.ofPoint fun _ => 3) = some 9 := by
    rw [eval_ofPoint]
    norm_num [expression, valueAt]
  rw [atThree] at reached
  exact ⟨_, _, returns, values, agree ⟨1⟩ (by simp [expression, occurrences]), holds,
    (Option.some.inj reached).symm⟩

end Expression

end HingeLoss
