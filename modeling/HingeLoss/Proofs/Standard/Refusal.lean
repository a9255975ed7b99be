import HingeLoss.Problem
import HingeLoss.Proofs.Standard.Success

/-!
# Refused expressions

Canonicalization refuses an expression for one reason only: a product neither factor of which is a
literal. Such a product is found wherever it stands, also below a zero factor that would make it
vanish, and it makes no difference whether squares may stay quadratic. Where they may not, the
canonical form is linear, so that a constraint is refused exactly if its expression is.
-/

namespace HingeLoss

namespace Expression

variable {K : Type}

/-- Whether the expression is a product neither factor of which is a literal. -/
def isNonliteralProduct : Expression K → Bool
  | .mul left right => left.constant?.isNone && right.constant?.isNone
  | _ => false

theorem isNonliteralProduct_mul_eq_false {left right : Expression K} :
    (mul left right).isNonliteralProduct = false ↔
      (∃ factor, left = .const factor) ∨ ∃ factor, right = .const factor := by
  rw [isNonliteralProduct, Bool.and_eq_false_iff, Option.isNone_eq_false_iff,
    Option.isNone_eq_false_iff, Option.isSome_iff_exists, Option.isSome_iff_exists]
  simp only [constant?_eq_some]

theorem hasLiteralProducts_iff {expression : Expression K} :
    expression.HasLiteralProducts ↔
      ∀ node ∈ expression.nodes, node.isNonliteralProduct = false := by
  constructor
  · intro literal node node_mem
    cases node with
    | mul left right => exact isNonliteralProduct_mul_eq_false.2 (literal left right node_mem)
    | _ => rfl
  · intro each left right product_mem
    exact isNonliteralProduct_mul_eq_false.1 (each _ product_mem)

variable [Scalar K]

theorem exists_returns_iff_hasLiteralProducts {expression : Expression K} {allowed : Bool}
    {before : Supply} :
    (∃ result after, (expression.canonicalize allowed).Returns before result after) ↔
      expression.HasLiteralProducts := by
  simp only [returns_canonicalize_iff]
  constructor
  · rintro ⟨result, after, derivation⟩
    exact derivation.hasLiteralProducts
  · intro literal
    exact exists_canonicalizes literal allowed before

end Expression

namespace Constraint

open Canonicalizing

variable {K : Type} [Scalar K] {constraint : Constraint K} {before : Supply}

theorem reason_of_fails_canonicalize {reason : NotDcp} {after : Supply}
    (fails : constraint.canonicalize.Fails before reason after) :
    reason = .productOfNonConstants := by
  simp only [canonicalize, fails_bind, not_fails_pure, and_false, exists_false, or_false] at fails
  rcases fails with fromExpression | ⟨canonical, middle, returns, fromForm⟩
  · exact Expression.reason_of_fails fromExpression
  · exact absurd fromForm (Expression.not_fails_linearForm returns)

/-- Taking the linear form adds no condition to canonicalizing the expression. -/
theorem exists_returns_iff_hasLiteralProducts :
    (∃ result after, constraint.canonicalize.Returns before result after) ↔
      constraint.expression.HasLiteralProducts := by
  have ofExpression : (∃ result after,
      (constraint.expression.canonicalize false).Returns before result after) ↔
        constraint.expression.HasLiteralProducts :=
    Expression.exists_returns_iff_hasLiteralProducts
  rw [← ofExpression]
  simp only [canonicalize, returns_bind, returns_pure, returns_linearForm]
  constructor
  · rintro ⟨_, _, canonical, middle, returns, -⟩
    exact ⟨canonical, middle, returns⟩
  · rintro ⟨canonical, middle, returns⟩
    rcases (Expression.canonicalizes_of_returns returns).exists_linear rfl with ⟨form, linear⟩
    exact ⟨_, _, canonical, middle, returns, form, middle, ⟨linear, rfl⟩, rfl, rfl⟩

end Constraint

namespace Expression

variable {K : Type} [Scalar K]

/-- Canonicalization fails exactly on expressions with a product neither factor of which is a
literal, in both modes and for that reason only. Without squares it returns linear forms, and so
the constraints on an expression fail in the same cases and for the same reason. -/
theorem canonicalize_fails_iff (expression : Expression K) (before : Supply) :
    (∀ allowed reason,
        (∃ after, (expression.canonicalize allowed).Fails before reason after) ↔
          reason = .productOfNonConstants ∧
            ∃ node ∈ expression.nodes, node.isNonliteralProduct = true) ∧
      (∀ result after, (expression.canonicalize false).Returns before result after →
        ∃ form, result.form = .linear form) ∧
        ∀ constraint : Constraint K, constraint.expression = expression → ∀ reason,
          (∃ after, constraint.canonicalize.Fails before reason after) ↔
            reason = .productOfNonConstants ∧
              ∃ node ∈ expression.nodes, node.isNonliteralProduct = true := by
  have notLiteral : ¬expression.HasLiteralProducts ↔
      ∃ node ∈ expression.nodes, node.isNonliteralProduct = true := by
    simp [hasLiteralProducts_iff]
  refine ⟨?_, ?_, ?_⟩
  · intro allowed reason
    rw [Canonicalizing.exists_fails_iff_of_reason reason_of_fails,
      exists_returns_iff_hasLiteralProducts, notLiteral]
  · intro result after returns
    exact (canonicalizes_of_returns returns).exists_linear rfl
  · rintro constraint rfl reason
    rw [Canonicalizing.exists_fails_iff_of_reason Constraint.reason_of_fails_canonicalize,
      Constraint.exists_returns_iff_hasLiteralProducts, notLiteral]

/-- A product below a zero factor is refused in both modes, and a square that is subtracted is
bounded by a cone in both. -/
theorem canonicalize_fails_iff_below_zero :
    let leaf (index : Nat) : Expression Float := .var ⟨⟨index⟩, none, false⟩
    let vanishing : Expression Float := .mul (.const 0) (.mul (leaf 1) (leaf 2))
    let subtracted : Expression Float := .neg (.square (leaf 1))
    (∀ allowed, ∃ after,
        (vanishing.canonicalize allowed).Fails ⟨3⟩ .productOfNonConstants after) ∧
      ∃ result after, (subtracted.canonicalize false).Returns ⟨3⟩ result after ∧
        ∃ form, result.form = .linear form := by
  intro leaf vanishing subtracted
  constructor
  · intro allowed
    refine ((canonicalize_fails_iff vanishing ⟨3⟩).1 allowed _).2 ⟨rfl, ?_⟩
    exact ⟨.mul (leaf 1) (leaf 2), by simp [vanishing], rfl⟩
  · obtain ⟨result, after, returns⟩ : ∃ result after,
        (subtracted.canonicalize false).Returns ⟨3⟩ result after := ⟨_, _, rfl⟩
    exact ⟨result, after, returns, (canonicalize_fails_iff subtracted ⟨3⟩).2.1 result after returns⟩

end Expression

end HingeLoss
