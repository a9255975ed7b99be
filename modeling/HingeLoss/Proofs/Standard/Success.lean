import HingeLoss.Proofs.Expression.Nodes
import HingeLoss.Proofs.Standard.Auxiliaries

/-!
# Success of canonicalization

Only a product can keep an expression from having a canonical form: if every product has a literal
factor, canonicalization succeeds, since whatever has to be linear was made without squares. Whether
it succeeds therefore depends neither on the supply nor on whether squares are allowed.
-/

namespace HingeLoss

namespace Expression

variable {K : Type} [Scalar K]

/-- A sum has a canonical form if each of its terms has one. -/
theorem exists_canonicalizes_sum {allowed : Bool} {before : Supply} {terms : List (Expression K)}
    (each : ∀ term ∈ terms, ∀ before, ∃ result after,
      Canonicalizes allowed before term result after) :
    ∃ result after, Canonicalizes allowed before (.sum terms) result after := by
  induction terms using List.reverseRecOn with
  | nil => exact ⟨_, _, .sumNil⟩
  | append_singleton terms term ih =>
      rcases ih fun other member => each other (List.mem_append_left _ member) with
        ⟨accumulated, middle, fromTerms⟩
      rcases each term (by simp) middle with ⟨result, after, fromTerm⟩
      exact ⟨_, _, .sumSnoc fromTerms fromTerm⟩

/-- An expression whose products have literal factors has a canonical form. -/
theorem exists_canonicalizes {expression : Expression K} (literal : expression.HasLiteralProducts)
    (allowed : Bool) (before : Supply) :
    ∃ result after, Canonicalizes allowed before expression result after := by
  induction expression generalizing allowed before with
  | var leaf => exact ⟨_, _, .var leaf⟩
  | const value => exact ⟨_, _, .const value⟩
  | add left right ihLeft ihRight =>
      rw [hasLiteralProducts_add] at literal
      rcases ihLeft literal.1 allowed before with ⟨leftResult, middle, fromLeft⟩
      rcases ihRight literal.2 allowed middle with ⟨rightResult, after, fromRight⟩
      exact ⟨_, _, .add fromLeft fromRight⟩
  | neg body ih =>
      rw [hasLiteralProducts_neg] at literal
      rcases ih literal false before with ⟨inner, after, fromBody⟩
      rcases fromBody.exists_linear rfl with ⟨form, linear⟩
      exact ⟨_, _, .neg fromBody linear⟩
  | mul left right ihLeft ihRight =>
      rw [hasLiteralProducts_mul] at literal
      rcases literal with ⟨factors, literalLeft, literalRight⟩
      cases found : left.constant? with
      | some factor =>
          rw [constant?_eq_some] at found
          subst found
          rcases ihRight literalRight (allowed && 0 ≤ factor) before with ⟨inner, after, fromRight⟩
          exact ⟨_, _, .mulLeft factor fromRight⟩
      | none =>
          rcases factors with ⟨factor, rfl⟩ | ⟨factor, rfl⟩
          · simp [constant?] at found
          · rcases ihLeft literalLeft (allowed && 0 ≤ factor) before with ⟨inner, after, fromLeft⟩
            exact ⟨_, _, .mulRight factor found fromLeft⟩
  | sum terms ih =>
      rw [hasLiteralProducts_sum] at literal
      apply exists_canonicalizes_sum
      intro term term_mem before
      exact ih term term_mem (literal term term_mem) allowed before
  | pos body ih =>
      rw [hasLiteralProducts_pos] at literal
      rcases ih literal false before with ⟨inner, after, fromBody⟩
      rcases fromBody.exists_linear rfl with ⟨form, linear⟩
      exact ⟨_, _, .pos fromBody linear⟩
  | square body ih =>
      rw [hasLiteralProducts_square] at literal
      rcases ih literal false before with ⟨inner, after, fromBody⟩
      rcases fromBody.exists_linear rfl with ⟨form, linear⟩
      cases allowed with
      | false => exact ⟨_, _, .squareAbove fromBody linear⟩
      | true =>
          cases single : form.singleVariable? with
          | some id => exact ⟨_, _, .squareVariable fromBody linear single⟩
          | none => exact ⟨_, _, .squareEqual fromBody linear single⟩

end Expression

/-- Only expressions whose products have literal factors have a canonical form. -/
theorem Canonicalizes.hasLiteralProducts {K : Type} [Scalar K] {allowed : Bool}
    {before after : Supply} {expression : Expression K} {result : Canonical K}
    (derivation : Canonicalizes allowed before expression result after) :
    expression.HasLiteralProducts := by
  induction derivation with
  | var leaf => exact Expression.hasLiteralProducts_var leaf
  | const value => exact Expression.hasLiteralProducts_const value
  | add _ _ ihLeft ihRight => exact Expression.hasLiteralProducts_add.2 ⟨ihLeft, ihRight⟩
  | neg _ _ ih => exact Expression.hasLiteralProducts_neg.2 ih
  | mulLeft factor _ ih =>
      exact Expression.hasLiteralProducts_mul.2
        ⟨.inl ⟨factor, rfl⟩, Expression.hasLiteralProducts_const factor, ih⟩
  | mulRight factor _ _ ih =>
      exact Expression.hasLiteralProducts_mul.2
        ⟨.inr ⟨factor, rfl⟩, ih, Expression.hasLiteralProducts_const factor⟩
  | sumNil => simp
  | sumSnoc _ _ ihTerms ihTerm =>
      rw [Expression.hasLiteralProducts_sum] at ihTerms ⊢
      rw [List.forall_mem_append, List.forall_mem_singleton]
      exact ⟨ihTerms, ihTerm⟩
  | pos _ _ ih => exact Expression.hasLiteralProducts_pos.2 ih
  | squareVariable _ _ _ ih => exact Expression.hasLiteralProducts_square.2 ih
  | squareEqual _ _ _ ih => exact Expression.hasLiteralProducts_square.2 ih
  | squareAbove _ _ ih => exact Expression.hasLiteralProducts_square.2 ih

namespace Canonical

open Canonicalizing

variable {K : Type} [Scalar K] {inner : Canonical K} {form : LinearForm K} {before after : Supply}
  {reason : NotDcp}

theorem not_fails_positivePart : ¬(inner.positivePart form).Fails before reason after := by
  simp only [positivePart, fails_bind, not_fails_freshId, not_fails_pure, and_false, exists_false,
    or_false, not_false_iff]

theorem not_fails_boundedSquare : ¬(inner.boundedSquare form).Fails before reason after := by
  simp only [boundedSquare, fails_bind, not_fails_freshId, not_fails_pure, and_false, exists_false,
    or_false, not_false_iff]

theorem not_fails_quadraticSquare : ¬(inner.quadraticSquare form).Fails before reason after := by
  simp only [quadraticSquare]
  split
  · exact not_fails_pure
  · simp only [fails_bind, not_fails_freshId, not_fails_pure, and_false, exists_false, or_false,
      not_false_iff]

end Canonical

namespace Expression

open Canonicalizing

variable {K : Type} [Scalar K] {allowed : Bool} {before after : Supply} {reason : NotDcp}

/-- What was made without squares has a linear form. -/
theorem not_fails_linearForm {body : Expression K} {inner : Canonical K} {middle : Supply}
    (returns : (body.canonicalize false).Returns before inner middle) :
    ¬inner.linearForm.Fails middle reason after := by
  intro fails
  rcases (canonicalizes_of_returns returns).exists_linear rfl with ⟨form, linear⟩
  exact fails.not_returns form (returns_linearForm.2 ⟨linear, rfl⟩)

theorem reason_of_fails_canonicalizeSum {terms : List (Expression K)}
    (each : ∀ term ∈ terms, ∀ {before after},
      (term.canonicalize allowed).Fails before reason after → reason = .productOfNonConstants)
    {accumulated : Canonical K}
    (fails : (canonicalizeSum allowed accumulated terms).Fails before reason after) :
    reason = .productOfNonConstants := by
  induction terms generalizing accumulated before with
  | nil => simp [canonicalizeSum] at fails
  | cons term rest ih =>
      simp only [canonicalizeSum, fails_bind] at fails
      rcases fails with fromTerm | ⟨result, middle, -, fromRest⟩
      · exact each term List.mem_cons_self fromTerm
      · exact ih (fun other member => each other (List.mem_cons_of_mem _ member)) fromRest

/-- Canonicalization fails for no other reason than a product without a literal factor. -/
theorem reason_of_fails {expression : Expression K}
    (fails : (expression.canonicalize allowed).Fails before reason after) :
    reason = .productOfNonConstants := by
  induction expression generalizing allowed before after with
  | var leaf => simp [canonicalize] at fails
  | const value => simp [canonicalize] at fails
  | add left right ihLeft ihRight =>
      simp only [canonicalize, fails_bind, not_fails_pure, and_false, exists_false,
        or_false] at fails
      rcases fails with fromLeft | ⟨result, middle, -, fromRight⟩
      · exact ihLeft fromLeft
      · exact ihRight fromRight
  | neg body ih =>
      simp only [canonicalize, fails_bind, not_fails_pure, and_false, exists_false,
        or_false] at fails
      rcases fails with fromBody | ⟨inner, middle, returns, fromForm⟩
      · exact ih fromBody
      · exact absurd fromForm (not_fails_linearForm returns)
  | mul left right ihLeft ihRight =>
      simp only [canonicalize] at fails
      split at fails
      case h_1 =>
        simp only [fails_bind, not_fails_pure, and_false, exists_false, or_false] at fails
        exact ihRight fails
      case h_2 =>
        simp only [fails_bind, not_fails_pure, and_false, exists_false, or_false] at fails
        exact ihLeft fails
      case h_3 => exact (fails_throw.1 fails).1
  | sum terms ih =>
      simp only [canonicalize] at fails
      exact reason_of_fails_canonicalizeSum (fun term member => ih term member) fails
  | pos body ih =>
      simp only [canonicalize, fails_bind, Canonical.not_fails_positivePart, and_false,
        exists_false, or_false] at fails
      rcases fails with fromBody | ⟨inner, middle, returns, fromForm⟩
      · exact ih fromBody
      · exact absurd fromForm (not_fails_linearForm returns)
  | square body ih =>
      simp only [canonicalize, fails_bind] at fails
      rcases fails with fromBody | ⟨inner, middle, returns, fromForm | ⟨form, next, -, squared⟩⟩
      · exact ih fromBody
      · exact absurd fromForm (not_fails_linearForm returns)
      · split at squared
        · exact absurd squared Canonical.not_fails_quadraticSquare
        · exact absurd squared Canonical.not_fails_boundedSquare

end Expression

end HingeLoss
