import HingeLoss.Proofs.Problem.Program
import HingeLoss.Proofs.Standard.Refusal

/-!
# Acceptance and standard forms

The rules of disciplined convex programming and canonicalization look at products in different ways.
The rules accept a product of constants, and stop looking where a zero factor makes everything
vanish; canonicalization asks every product for a literal factor. A problem that obeys the rules has
a standard form exactly if these two differences do not matter: all of its products of constants
have a literal factor, and so do all products inside a part that vanishes.
-/

namespace HingeLoss

namespace Curvature

def isKnown : Curvature → Bool
  | .unknown => false
  | _ => true

variable {K : Type} [Scalar K] {curvature : Curvature}

theorem isKnown_of_isConvex (convex : curvature.isConvex = true) : curvature.isKnown = true := by
  cases curvature <;> simp_all [isConvex, isKnown]

theorem isKnown_of_isConcave (concave : curvature.isConcave = true) : curvature.isKnown = true := by
  cases curvature <;> simp_all [isConcave, isKnown]

theorem isKnown_of_isConstant (constant : curvature.isConstant = true) :
    curvature.isKnown = true := by
  cases curvature <;> simp_all [isConstant, isKnown]

theorem isKnown_of_add {left right : Curvature} (known : (left.add right).isKnown = true) :
    left.isKnown = true ∧ right.isKnown = true := by
  cases left <;> cases right <;> simp_all [add, isKnown]

@[simp]
theorem isKnown_negate (curvature : Curvature) : curvature.negate.isKnown = curvature.isKnown := by
  cases curvature <;> rfl

theorem isKnown_scale (factor : K) (curvature : Curvature) :
    (curvature.scale factor).isKnown = (factor == 0 || curvature.isKnown) := by
  rw [scale]
  split_ifs with isZero positive
  · rw [isZero]
    rfl
  · simp [isZero]
  · simp [isZero]

section Products

variable {left right : Curvature} {factor : K} {rightValue : Option K}

theorem isKnown_of_product_left
    (known : (product left right (some factor) rightValue).isKnown = true) :
    (factor == 0) = true ∨ right.isKnown = true := by
  simp only [product] at known
  split_ifs at known with constants
  · rw [Bool.and_eq_true] at constants
    exact .inr (isKnown_of_isConstant constants.2)
  · rwa [isKnown_scale, Bool.or_eq_true] at known

theorem isKnown_of_product_right
    (known : (product left right none (some factor)).isKnown = true) :
    (factor == 0) = true ∨ left.isKnown = true := by
  simp only [product] at known
  split_ifs at known with constants
  · rw [Bool.and_eq_true] at constants
    exact .inr (isKnown_of_isConstant constants.1)
  · rwa [isKnown_scale, Bool.or_eq_true] at known

theorem isConstant_of_product
    (known : (product left right (none : Option K) none).isKnown = true) :
    left.isConstant = true ∧ right.isConstant = true := by
  simp only [product] at known
  split_ifs at known with constants
  · rwa [Bool.and_eq_true] at constants
  · simp [isKnown] at known

end Products

theorem isKnown_of_positivePart (known : curvature.positivePart.isKnown = true) :
    curvature.isKnown = true := by
  cases curvature <;> first | rfl | exact known

theorem isKnown_of_square {sign : Sign} (known : (curvature.square sign).isKnown = true) :
    curvature.isKnown = true := by
  cases curvature <;> first | rfl | exact known

end Curvature

namespace Expression

variable {K : Type}

variable [Scalar K]

/-- Whether the expression is a product of two constants neither of which is a literal. -/
def isConstantProduct : Expression K → Bool
  | .mul left right =>
      left.curvature.isConstant && right.curvature.isConstant &&
        left.constant?.isNone && right.constant?.isNone
  | _ => false

/-- What a literal factor of zero makes vanish. -/
def vanishing? : Expression K → Option (Expression K)
  | .mul left right =>
      match left.constant?, right.constant? with
      | some factor, _ => if factor == 0 then some right else none
      | none, some factor => if factor == 0 then some left else none
      | none, none => none
  | _ => none

/-- What the rules leave open about products: products of constants have a literal factor, and so do
the products in what vanishes. -/
def HasLiteralRest (expression : Expression K) : Prop :=
  ∀ node ∈ expression.nodes, node.isConstantProduct = false ∧
    ∀ body, node.vanishing? = some body → body.HasLiteralProducts

variable {expression body left right : Expression K} {terms : List (Expression K)}

theorem mem_nodes_of_vanishing? {node : Expression K} (vanishes : node.vanishing? = some body) :
    body ∈ node.nodes := by
  cases node with
  | mul left right =>
      simp only [vanishing?] at vanishes
      split at vanishes
      · split at vanishes
        · obtain rfl := Option.some.inj vanishes
          simp
        · simp at vanishes
      · split at vanishes
        · obtain rfl := Option.some.inj vanishes
          simp
        · simp at vanishes
      · simp at vanishes
  | _ => simp [vanishing?] at vanishes

theorem HasLiteralProducts.rest (literal : expression.HasLiteralProducts) :
    expression.HasLiteralRest := by
  intro node node_mem
  constructor
  · cases node with
    | mul left right =>
        rcases literal left right node_mem with ⟨factor, rfl⟩ | ⟨factor, rfl⟩
        · simp [isConstantProduct, constant?]
        · simp [isConstantProduct, constant?]
    | _ => rfl
  · intro body vanishes
    exact literal.of_mem_nodes (nodes_trans node_mem (mem_nodes_of_vanishing? vanishes))

theorem isKnown_of_sum (known : (sum terms).curvature.isKnown = true) :
    ∀ term ∈ terms, term.curvature.isKnown = true := by
  induction terms using List.reverseRecOn with
  | nil => simp
  | append_singleton terms term ih =>
      rw [curvature_sum_snoc] at known
      rcases Curvature.isKnown_of_add known with ⟨knownTerms, knownTerm⟩
      rw [List.forall_mem_append, List.forall_mem_singleton]
      exact ⟨ih knownTerms, knownTerm⟩

namespace HasLiteralRest

theorem of_mem_nodes {part : Expression K} (rest : expression.HasLiteralRest)
    (part_mem : part ∈ expression.nodes) : part.HasLiteralRest :=
  fun node node_mem => rest node (nodes_trans part_mem node_mem)

/-- The rules make sure of one factor of a product, and what they leave open concerns the other. -/
theorem hasLiteralProducts_mul (known : (mul left right).curvature.isKnown = true)
    (rest : (mul left right).HasLiteralRest)
    (fromLeft : left.curvature.isKnown = true → left.HasLiteralProducts)
    (fromRight : right.curvature.isKnown = true → right.HasLiteralProducts) :
    (mul left right).HasLiteralProducts := by
  rcases rest _ (self_mem_nodes _) with ⟨notConstants, vanished⟩
  simp only [isConstantProduct, vanishing?] at notConstants vanished
  rw [curvature] at known
  rw [Expression.hasLiteralProducts_mul]
  cases leftLiteral : left.constant? with
  | some factor =>
      rw [leftLiteral] at known
      simp only [leftLiteral, Option.ite_none_right_eq_some, Option.some.injEq,
        and_imp] at vanished
      obtain rfl := constant?_eq_some.1 leftLiteral
      refine ⟨.inl ⟨factor, rfl⟩, hasLiteralProducts_const factor, ?_⟩
      exact (Curvature.isKnown_of_product_left known).elim
        (fun isZero => vanished right isZero rfl) fromRight
  | none =>
      cases rightLiteral : right.constant? with
      | some factor =>
          rw [leftLiteral, rightLiteral] at known
          simp only [leftLiteral, rightLiteral, Option.ite_none_right_eq_some, Option.some.injEq,
            and_imp] at vanished
          obtain rfl := constant?_eq_some.1 rightLiteral
          refine ⟨.inr ⟨factor, rfl⟩, ?_, hasLiteralProducts_const factor⟩
          exact (Curvature.isKnown_of_product_right known).elim
            (fun isZero => vanished left isZero rfl) fromLeft
      | none =>
          rw [leftLiteral, rightLiteral] at known
          rcases Curvature.isConstant_of_product known with ⟨leftConstant, rightConstant⟩
          simp [leftConstant, rightConstant, leftLiteral, rightLiteral] at notConstants

end HasLiteralRest

/-- Where the rules know the curvature, they leave nothing else open. -/
theorem HasLiteralRest.hasLiteralProducts (rest : expression.HasLiteralRest)
    (known : expression.curvature.isKnown = true) : expression.HasLiteralProducts := by
  induction expression with
  | var leaf => exact hasLiteralProducts_var leaf
  | const value => exact hasLiteralProducts_const value
  | add left right ihLeft ihRight =>
      rw [curvature] at known
      rcases Curvature.isKnown_of_add known with ⟨knownLeft, knownRight⟩
      exact hasLiteralProducts_add.2 ⟨ihLeft (rest.of_mem_nodes (by simp)) knownLeft,
        ihRight (rest.of_mem_nodes (by simp)) knownRight⟩
  | neg body ih =>
      rw [curvature, Curvature.isKnown_negate] at known
      exact hasLiteralProducts_neg.2 (ih (rest.of_mem_nodes (by simp)) known)
  | mul left right ihLeft ihRight =>
      exact rest.hasLiteralProducts_mul known (ihLeft (rest.of_mem_nodes (by simp)))
        (ihRight (rest.of_mem_nodes (by simp)))
  | sum terms ih =>
      have knownTerms := isKnown_of_sum known
      refine hasLiteralProducts_sum.2 fun term member => ?_
      refine ih term member (rest.of_mem_nodes ?_) (knownTerms term member)
      exact List.mem_cons_of_mem _ (mem_listNodes.2 ⟨term, member, self_mem_nodes term⟩)
  | pos body ih =>
      rw [curvature] at known
      exact hasLiteralProducts_pos.2
        (ih (rest.of_mem_nodes (by simp)) (Curvature.isKnown_of_positivePart known))
  | square body ih =>
      rw [curvature] at known
      exact hasLiteralProducts_square.2
        (ih (rest.of_mem_nodes (by simp)) (Curvature.isKnown_of_square known))

end Expression

section Constraints

open Canonicalizing

variable {K : Type} [Scalar K] {constraints : List (Constraint K)} {before after : Supply}

theorem CanonicalizesAll.hasLiteralProducts {cones : List (Cone K)} {auxiliaries : List VarId}
    (derivation : CanonicalizesAll before constraints cones auxiliaries after) :
    ∀ constraint ∈ constraints, constraint.expression.HasLiteralProducts := by
  induction derivation with
  | nil => simp
  | cons fromFirst _ _ ih => exact List.forall_mem_cons.2 ⟨fromFirst.hasLiteralProducts, ih⟩

namespace Constraint

theorem isKnown_of_isDcp {constraint : Constraint K} (dcp : constraint.isDcp = true) :
    constraint.expression.curvature.isKnown = true := by
  cases constraint with
  | zero expression =>
      exact Curvature.isKnown_of_isConcave (Curvature.isConcave_of_isAffine dcp)
  | nonneg expression => exact Curvature.isKnown_of_isConcave dcp

theorem reason_of_fails_canonicalizeAll {reason : NotDcp}
    (fails : (canonicalizeAll constraints).Fails before reason after) :
    reason = .productOfNonConstants := by
  induction constraints generalizing before with
  | nil => simp [canonicalizeAll] at fails
  | cons constraint rest ih =>
      simp only [canonicalizeAll, fails_bind, not_fails_pure, and_false, exists_false,
        or_false] at fails
      rcases fails with fromFirst | ⟨first, middle, -, fromRest⟩
      · exact reason_of_fails_canonicalize fromFirst
      · exact ih fromRest

end Constraint

end Constraints

namespace Problem

open Canonicalizing

variable {K : Type}

/-- The nodes of the objective and of all constraints. -/
def nodes (problem : Problem K) : List (Expression K) :=
  problem.objective.nodes ++
    problem.constraints.flatMap fun constraint => constraint.expression.nodes

theorem forall_mem_nodes_iff {problem : Problem K} {Property : Expression K → Prop} :
    (∀ node ∈ problem.nodes, Property node) ↔
      (∀ node ∈ problem.objective.nodes, Property node) ∧
        ∀ constraint ∈ problem.constraints,
          ∀ node ∈ constraint.expression.nodes, Property node := by
  simp only [nodes, List.forall_mem_append, List.mem_flatMap]
  apply and_congr_right
  intro _
  constructor
  · intro each constraint constraint_mem node node_mem
    exact each node ⟨constraint, constraint_mem, node_mem⟩
  · rintro each node ⟨constraint, constraint_mem, node_mem⟩
    exact each constraint constraint_mem node node_mem

variable [Scalar K] {problem : Problem K} {before after : Supply}

theorem exists_returns_canonicalForm_iff :
    (∃ standard after, problem.canonicalForm.Returns before standard after) ↔
      problem.HasLiteralProducts := by
  constructor
  · rintro ⟨standard, after, returns⟩
    rcases returns_canonicalForm_iff.1 returns with
      ⟨objective, cones, auxiliaries, middle, fromObjective, fromConstraints, -⟩
    exact ⟨fromObjective.hasLiteralProducts, fromConstraints.hasLiteralProducts⟩
  · intro literal
    exact literal.exists_returns before

theorem reason_of_fails_canonicalForm {reason : NotDcp}
    (fails : problem.canonicalForm.Fails before reason after) :
    reason = .productOfNonConstants := by
  simp only [canonicalForm, fails_bind, not_fails_pure, and_false, exists_false,
    or_false] at fails
  rcases fails with fromObjective | ⟨objective, middle, -, fromConstraints⟩
  · exact Expression.reason_of_fails fromObjective
  · exact Constraint.reason_of_fails_canonicalizeAll fromConstraints

theorem reason_of_fails (dcp : problem.isDcp = true) {reason : NotDcp}
    (fails : problem.standardize.Fails before reason after) :
    reason = .productOfNonConstants := by
  rw [standardize_eq, if_pos dcp] at fails
  exact reason_of_fails_canonicalForm fails

theorem exists_returns_iff_of_isDcp (dcp : problem.isDcp = true) :
    (∃ standard after, problem.standardize.Returns before standard after) ↔
      ∀ node ∈ problem.nodes, node.isConstantProduct = false ∧
        ∀ body, node.vanishing? = some body → body.HasLiteralProducts := by
  rw [forall_mem_nodes_iff]
  constructor
  · rintro ⟨standard, after, returns⟩
    rcases exists_returns_canonicalForm_iff.1
      ⟨standard, after, (returns_standardize_iff.1 returns).2⟩ with ⟨objective, constraints⟩
    exact ⟨objective.rest, fun constraint member => (constraints constraint member).rest⟩
  · rintro ⟨objectiveRest, constraintsRest⟩
    have rules := dcp
    rw [isDcp, Bool.and_eq_true, List.all_eq_true] at rules
    refine exists_standard dcp ?_ ?_ before
    · exact Expression.HasLiteralRest.hasLiteralProducts objectiveRest
        (Curvature.isKnown_of_isConvex rules.1)
    · intro constraint member
      exact Expression.HasLiteralRest.hasLiteralProducts (constraintsRest constraint member)
        (Constraint.isKnown_of_isDcp (rules.2 constraint member))

/-- A problem that obeys the rules has a standard form exactly if its products of constants have a
literal factor, and so do the products in whatever a zero factor makes vanish. Otherwise it is
refused for a product. -/
theorem standardize_returns_iff_of_isDcp (dcp : problem.isDcp = true) (before : Supply) :
    ((∃ standard after, problem.standardize.Returns before standard after) ↔
        ∀ node ∈ problem.nodes, node.isConstantProduct = false ∧
          ∀ body, node.vanishing? = some body → body.HasLiteralProducts) ∧
      ((¬∃ standard after, problem.standardize.Returns before standard after) →
        ∃ after, problem.standardize.Fails before .productOfNonConstants after) := by
  apply And.intro (exists_returns_iff_of_isDcp dcp)
  intro notReturned
  rcases exists_returns_or_fails problem.standardize before with returned | ⟨reason, after, fails⟩
  · exact absurd returned notReturned
  · exact ⟨after, reason_of_fails dcp fails ▸ fails⟩

theorem standardize_returns_of_literal_factor :
    let leaf : Variable := ⟨⟨1⟩, some "x", false⟩
    let problem : Problem Float :=
      ⟨.mul (.const 2) (.square (.var leaf)), [.atMost (.mul (.var leaf) (.const 0)) (.const 3)]⟩
    ∃ standard after, problem.standardize.Returns ⟨2⟩ standard after := by
  intro leaf problem
  have dcp : problem.isDcp = true := rfl
  refine (standardize_returns_iff_of_isDcp dcp ⟨2⟩).1.2 ?_
  simp [problem, nodes, Constraint.expression, Constraint.atMost, Constraint.difference,
    Expression.sub, Expression.isConstantProduct, Expression.vanishing?, Expression.constant?]

/-- The rules accept `(1 + 2) * (3 + 4)`, and zero times `x * y`; there is no standard form of
either. -/
theorem not_standardize_returns_of_constant_product :
    let leaf (index : Nat) : Expression Float := .var ⟨⟨index⟩, none, false⟩
    let constants : Problem Float :=
      ⟨.mul (.add (.const 1) (.const 2)) (.add (.const 3) (.const 4)), []⟩
    let vanishing : Problem Float := ⟨.mul (.const 0) (.mul (leaf 1) (leaf 2)), []⟩
    ∀ problem ∈ [constants, vanishing], problem.isDcp = true ∧
      problem.standardize.Fails ⟨3⟩ .productOfNonConstants ⟨3⟩ := by
  intro leaf constants vanishing
  refine List.forall_mem_cons.2 ⟨⟨rfl, rfl⟩, List.forall_mem_singleton.2 ⟨rfl, rfl⟩⟩

end Problem

end HingeLoss
