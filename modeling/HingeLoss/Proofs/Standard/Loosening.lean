import HingeLoss.Proofs.Expression.Nodes
import HingeLoss.Proofs.Expression.Rules
import HingeLoss.Proofs.Standard.Auxiliaries
import HingeLoss.Proofs.Expression.Values

/-!
# Loose values

Canonicalization only bounds an atom from below. What it leaves of an expression is described on the
expression itself: a loose value is computed like the value, except that an atom may come out larger
than it has to. `Loosened` says which values can be reached when some of the atoms are loose. If no
atom is, there is only the value itself; if all of them are, these are the values of the canonical
form.

Squares that stay quadratic are never loose.
-/

namespace HingeLoss

/-- The values that an expression can reach at a point when the atoms that satisfy `loose` may be
larger than they have to, with squares kept quadratic or not. -/
inductive Loosened (loose : Expression ℚ → Bool) (point : VarId → ℚ) :
    Bool → Expression ℚ → ℚ → Prop
  | var {allowed} (leaf : Variable) : Loosened loose point allowed (.var leaf) (point leaf.id)
  | const {allowed} (value : ℚ) : Loosened loose point allowed (.const value) value
  | add {allowed left right leftValue rightValue}
      (fromLeft : Loosened loose point allowed left leftValue)
      (fromRight : Loosened loose point allowed right rightValue) :
      Loosened loose point allowed (.add left right) (leftValue + rightValue)
  | neg {allowed body value} (fromBody : Loosened loose point false body value) :
      Loosened loose point allowed (.neg body) (-value)
  | mulLeft {allowed right value} (factor : ℚ)
      (fromRight : Loosened loose point (allowed && 0 ≤ factor) right value) :
      Loosened loose point allowed (.mul (.const factor) right) (value * factor)
  | mulRight {allowed left value} (factor : ℚ) (notLiteral : left.constant? = none)
      (fromLeft : Loosened loose point (allowed && 0 ≤ factor) left value) :
      Loosened loose point allowed (.mul left (.const factor)) (value * factor)
  | sumNil {allowed} : Loosened loose point allowed (.sum []) 0
  | sumSnoc {allowed terms term accumulated value}
      (fromTerms : Loosened loose point allowed (.sum terms) accumulated)
      (fromTerm : Loosened loose point allowed term value) :
      Loosened loose point allowed (.sum (terms ++ [term])) (accumulated + value)
  | pos {allowed body inner value} (fromBody : Loosened loose point false body inner)
      (above : max inner 0 ≤ value)
      (tight : loose (.pos body) = false → value = max inner 0) :
      Loosened loose point allowed (.pos body) value
  | squareKept {body inner} (fromBody : Loosened loose point false body inner) :
      Loosened loose point true (.square body) (inner * inner)
  | squareAbove {body inner value} (fromBody : Loosened loose point false body inner)
      (above : inner * inner ≤ value)
      (tight : loose (.square body) = false → value = inner * inner) :
      Loosened loose point false (.square body) value

namespace Loosened

variable {loose : Expression ℚ → Bool} {point : VarId → ℚ} {allowed : Bool}
  {expression : Expression ℚ} {value : ℚ}

theorem of_sum_snoc {terms : List (Expression ℚ)} {term : Expression ℚ}
    (loosened : Loosened loose point allowed (.sum (terms ++ [term])) value) :
    ∃ accumulated termValue, Loosened loose point allowed (.sum terms) accumulated ∧
      Loosened loose point allowed term termValue ∧ value = accumulated + termValue := by
  generalize whole : Expression.sum (terms ++ [term]) = sum at loosened
  cases loosened with
  | sumNil => simp at whole
  | sumSnoc fromTerms fromTerm =>
      obtain ⟨rfl, rfl⟩ : terms = _ ∧ term = _ := by simpa using whole
      exact ⟨_, _, fromTerms, fromTerm, rfl⟩
  | var leaf => simp at whole
  | const value => simp at whole
  | add _ _ => simp at whole
  | neg _ => simp at whole
  | mulLeft _ _ => simp at whole
  | mulRight _ _ _ => simp at whole
  | pos _ _ _ => simp at whole
  | squareKept _ => simp at whole
  | squareAbove _ _ _ => simp at whole

/-- Loose values only depend on the variables that occur. -/
theorem congr {other : VarId → ℚ} (loosened : Loosened loose point allowed expression value)
    (agree : ∀ id ∈ expression.occurrences, point id = other id) :
    Loosened loose other allowed expression value := by
  induction loosened with
  | var leaf =>
      rw [agree leaf.id (by simp [Expression.occurrences])]
      exact .var leaf
  | const value => exact .const value
  | add _ _ ihLeft ihRight =>
      simp only [Expression.occurrences, List.mem_append] at agree
      exact .add (ihLeft fun id member => agree id (.inl member))
        (ihRight fun id member => agree id (.inr member))
  | neg _ ih => exact .neg (ih agree)
  | mulLeft factor _ ih =>
      exact .mulLeft factor
        (ih fun id member => agree id (by simp [Expression.occurrences, member]))
  | mulRight factor notLiteral _ ih =>
      exact .mulRight factor notLiteral
        (ih fun id member => agree id (by simp [Expression.occurrences, member]))
  | sumNil => exact .sumNil
  | sumSnoc _ _ ihTerms ihTerm =>
      simp only [Expression.occurrences_sum_snoc, List.mem_append] at agree
      exact .sumSnoc (ihTerms fun id member => agree id (.inl member))
        (ihTerm fun id member => agree id (.inr member))
  | pos _ above tight ih => exact .pos (ih agree) above tight
  | squareKept _ ih => exact .squareKept (ih agree)
  | squareAbove _ above tight ih => exact .squareAbove (ih agree) above tight

/-- With more loose atoms no value is lost. -/
theorem mono {looser : Expression ℚ → Bool}
    (loosened : Loosened loose point allowed expression value)
    (more : ∀ node, loose node = true → looser node = true) :
    Loosened looser point allowed expression value := by
  have tighter : ∀ node, looser node = false → loose node = false := by
    intro node notLooser
    by_contra isLoose
    simp [more node (by simpa using isLoose)] at notLooser
  induction loosened with
  | var leaf => exact .var leaf
  | const value => exact .const value
  | add _ _ ihLeft ihRight => exact .add ihLeft ihRight
  | neg _ ih => exact .neg ih
  | mulLeft factor _ ih => exact .mulLeft factor ih
  | mulRight factor notLiteral _ ih => exact .mulRight factor notLiteral ih
  | sumNil => exact .sumNil
  | sumSnoc _ _ ihTerms ihTerm => exact .sumSnoc ihTerms ihTerm
  | pos _ above tight ih => exact .pos ih above fun notLooser => tight (tighter _ notLooser)
  | squareKept _ ih => exact .squareKept ih
  | squareAbove _ above tight ih =>
      exact .squareAbove ih above fun notLooser => tight (tighter _ notLooser)

/-- Where no atom of the expression is loose, there is nothing but the value. -/
theorem eq_valueAt (loosened : Loosened loose point allowed expression value)
    (tight : ∀ node ∈ expression.nodes, node.isAtom = true → loose node = false) :
    value = expression.valueAt point := by
  induction loosened with
  | var leaf => rfl
  | const value => rfl
  | add _ _ ihLeft ihRight =>
      simp only [Expression.nodes, List.mem_cons, List.mem_append] at tight
      rw [Expression.valueAt, ← ihLeft fun node member => tight node (.inr (.inl member)),
        ← ihRight fun node member => tight node (.inr (.inr member))]
  | neg _ ih =>
      simp only [Expression.nodes, List.mem_cons] at tight
      rw [Expression.valueAt, ← ih fun node member => tight node (.inr member)]
  | mulLeft factor _ ih =>
      simp only [Expression.nodes, List.mem_cons, List.mem_append] at tight
      rw [Expression.valueAt, ← ih fun node member => tight node (.inr (.inr member)),
        Expression.valueAt, mul_comm]
  | mulRight factor _ _ ih =>
      simp only [Expression.nodes, List.mem_cons, List.mem_append] at tight
      rw [Expression.valueAt, ← ih fun node member => tight node (.inr (.inl member)),
        Expression.valueAt]
  | sumNil => rfl
  | @sumSnoc _ terms term _ _ _ _ ihTerms ihTerm =>
      have tightTerms : ∀ node ∈ (Expression.sum terms).nodes,
          node.isAtom = true → loose node = false := by
        intro node member atom
        rcases List.mem_cons.1 member with rfl | inTerms
        · simp [Expression.isAtom] at atom
        · rcases Expression.mem_listNodes.1 inTerms with ⟨other, other_mem, inOther⟩
          refine tight node (List.mem_cons_of_mem _ (Expression.mem_listNodes.2 ?_)) atom
          exact ⟨other, List.mem_append_left _ other_mem, inOther⟩
      have tightTerm : ∀ node ∈ term.nodes, node.isAtom = true → loose node = false := by
        intro node member atom
        refine tight node (List.mem_cons_of_mem _ (Expression.mem_listNodes.2 ?_)) atom
        exact ⟨term, List.mem_append_right _ List.mem_cons_self, member⟩
      rw [Expression.valueAt_sum_snoc, ← ihTerms tightTerms, ← ihTerm tightTerm]
  | pos _ _ equal ih =>
      simp only [Expression.nodes, List.mem_cons] at tight
      rw [Expression.valueAt, ← ih fun node member => tight node (.inr member)]
      exact equal (tight _ (.inl rfl) rfl)
  | squareKept _ ih =>
      simp only [Expression.nodes, List.mem_cons] at tight
      rw [Expression.valueAt, ← ih fun node member => tight node (.inr member)]
  | squareAbove _ _ equal ih =>
      simp only [Expression.nodes, List.mem_cons] at tight
      rw [Expression.valueAt, ← ih fun node member => tight node (.inr member)]
      exact equal (tight _ (.inl rfl) rfl)

theorem eq_valueAt_of_isAtomFree (loosened : Loosened loose point allowed expression value)
    (free : expression.IsAtomFree) : value = expression.valueAt point := by
  apply loosened.eq_valueAt
  intro node member atom
  rw [free node member] at atom
  cases atom

theorem of_scaled {factor : ℚ} {body : Expression ℚ}
    (loosened : Loosened loose point allowed (.scaled factor body) value) :
    ∃ inner, Loosened loose point (allowed && 0 ≤ factor) body inner ∧ value = factor * inner := by
  cases loosened with
  | mulLeft _ fromBody => exact ⟨_, fromBody, mul_comm _ _⟩
  | mulRight _ notLiteral _ => simp [Expression.constant?] at notLiteral

/-- Lower bounds for the loose values of terms add up to one for those of their sum. -/
theorem sum_le {terms : List (Expression ℚ)} {lower : Expression ℚ → ℚ}
    (each : ∀ term ∈ terms, ∀ value, Loosened loose point allowed term value → lower term ≤ value)
    (loosened : Loosened loose point allowed (.sum terms) value) :
    (terms.map lower).sum ≤ value := by
  induction terms using List.reverseRecOn generalizing value with
  | nil =>
      have isZero := loosened.eq_valueAt_of_isAtomFree (by simp)
      exact isZero.ge
  | append_singleton terms term ih =>
      rcases loosened.of_sum_snoc with ⟨accumulated, termValue, fromTerms, fromTerm, rfl⟩
      have termsBelow :=
        ih (fun other member => each other (List.mem_append_left _ member)) fromTerms
      have termBelow := each term (by simp) termValue fromTerm
      rw [List.map_append, List.sum_append, List.map_singleton, List.sum_singleton]
      exact add_le_add termsBelow termBelow

theorem sumOf_le {terms : List (Expression ℚ)} {lower : Expression ℚ → ℚ}
    (each : ∀ term ∈ terms, ∀ value, Loosened loose point allowed term value → lower term ≤ value)
    (loosened : Loosened loose point allowed (.sumOf terms) value) :
    (terms.map lower).sum ≤ value := by
  rcases terms with _ | ⟨term, _ | ⟨other, rest⟩⟩
  · have isZero := loosened.eq_valueAt_of_isAtomFree (by simp [Expression.sumOf, Expression.zero])
    exact isZero.ge
  · simpa using each term (by simp) value loosened
  · exact loosened.sum_le each

/-- A hinge is never below its value, squared or not: the loose positive part is not negative, so
its square grows with it. -/
theorem valueAt_hinge_le {body : Expression ℚ} {squared : Bool} (free : body.IsAtomFree)
    (loosened : Loosened loose point allowed (body.hinge squared) value) :
    (body.hinge squared).valueAt point ≤ value := by
  have part : ∀ {allowed inner}, Loosened loose point allowed (.pos body) inner →
      max (body.valueAt point) 0 ≤ inner := by
    intro allowed inner fromPart
    cases fromPart with
    | pos fromBody above _ =>
        rwa [fromBody.eq_valueAt_of_isAtomFree free] at above
  have grows : ∀ {inner : ℚ}, max (body.valueAt point) 0 ≤ inner →
      max (body.valueAt point) 0 * max (body.valueAt point) 0 ≤ inner * inner :=
    fun above => mul_self_le_mul_self (le_max_right _ _) above
  cases squared with
  | false => exact part loosened
  | true =>
      cases loosened with
      | squareKept fromPart => exact grows (part fromPart)
      | squareAbove fromPart above _ => exact (grows (part fromPart)).trans above

end Loosened

/-- Whatever may be loose, the value of an expression that has a canonical form can be reached. -/
theorem Canonicalizes.loosened_valueAt {allowed : Bool} {before after : Supply}
    {expression : Expression ℚ} {result : Canonical ℚ}
    (derivation : Canonicalizes allowed before expression result after)
    (loose : Expression ℚ → Bool) (point : VarId → ℚ) :
    Loosened loose point allowed expression (expression.valueAt point) := by
  induction derivation with
  | var leaf => exact .var leaf
  | const value => exact .const value
  | add _ _ ihLeft ihRight => exact .add ihLeft ihRight
  | neg _ _ ih => exact .neg ih
  | mulLeft factor _ ih =>
      rw [Expression.valueAt, Expression.valueAt, mul_comm]
      exact .mulLeft factor ih
  | mulRight factor notLiteral _ ih => exact .mulRight factor notLiteral ih
  | sumNil => exact .sumNil
  | sumSnoc _ _ ihTerms ihTerm =>
      rw [Expression.valueAt_sum_snoc]
      exact .sumSnoc ihTerms ihTerm
  | pos _ _ ih => exact .pos ih (le_refl _) fun _ => rfl
  | squareVariable _ _ _ ih => exact .squareKept ih
  | squareEqual _ _ _ ih => exact .squareKept ih
  | squareAbove _ _ ih => exact .squareAbove ih (le_refl _) fun _ => rfl

end HingeLoss
