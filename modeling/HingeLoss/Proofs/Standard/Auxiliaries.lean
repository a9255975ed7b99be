import HingeLoss.Proofs.Expression.Nodes
import HingeLoss.Proofs.Standard.Derivation

/-!
# Auxiliary variables

The auxiliary variables of a canonical form are exactly the numbers that were drawn while it was
made. Apart from them, the form and its constraints only mention variables of the expression. An
expression whose variables were issued before therefore never shares a variable with the
auxiliaries, and what was made earlier is not disturbed by what is drawn later.
-/

namespace HingeLoss

namespace Canonical

variable {K : Type}

def variableIds (canonical : Canonical K) : List VarId :=
  canonical.form.variableIds ++ canonical.cones.flatMap Cone.variableIds

theorem mem_variableIds {canonical : Canonical K} {id : VarId} :
    id ∈ canonical.variableIds ↔
      id ∈ canonical.form.variableIds ∨ ∃ cone ∈ canonical.cones, id ∈ cone.variableIds := by
  simp [variableIds]

theorem mem_variableIds_of_linear {canonical : Canonical K} {form : LinearForm K} {id : VarId}
    (linear : canonical.form = .linear form) (member : id ∈ form.variableIds) :
    id ∈ canonical.variableIds := by
  rw [mem_variableIds, linear]
  exact .inl member

/-- A form over the constraints of another one mentions its own variables, those of the constraints
it keeps, and those of the constraints it adds. -/
theorem mem_variableIds_extend {canonical : Canonical K} {form : StandardForm K}
    {cones : List (Cone K)} {auxiliaries : List VarId} {id : VarId} :
    id ∈ (canonical.extend form cones auxiliaries).variableIds ↔
      (id ∈ form.variableIds ∨ ∃ cone ∈ cones, id ∈ cone.variableIds) ∨
        ∃ cone ∈ canonical.cones, id ∈ cone.variableIds := by
  simp only [mem_variableIds, extend, List.mem_append, or_and_right, exists_or]
  exact (or_congr_right or_comm).trans or_assoc.symm

/-- If what is added mentions nothing but the linear form of `canonical` and new auxiliaries, then
so does the whole. -/
theorem mem_extend_auxiliaries {canonical : Canonical K} {linearForm : LinearForm K}
    {form : StandardForm K} {cones : List (Cone K)} {auxiliaries occurrences : List VarId}
    {id : VarId} (linear : canonical.form = .linear linearForm)
    (closed : id ∈ canonical.variableIds →
      id ∈ occurrences ∨ id ∈ canonical.auxiliaries)
    (added : (id ∈ form.variableIds ∨ ∃ cone ∈ cones, id ∈ cone.variableIds) →
      id ∈ linearForm.variableIds ∨ id ∈ auxiliaries)
    (member : id ∈ (canonical.extend form cones auxiliaries).variableIds) :
    id ∈ occurrences ∨ id ∈ (canonical.extend form cones auxiliaries).auxiliaries := by
  simp only [extend, List.mem_append]
  rcases mem_variableIds_extend.1 member with new | kept
  · rcases added new with inForm | inAuxiliaries
    · exact (closed (mem_variableIds_of_linear linear inForm)).imp_right .inl
    · exact .inr (.inr inAuxiliaries)
  · exact (closed (mem_variableIds.2 (.inr kept))).imp_right .inl

variable [Scalar K]

theorem mem_variableIds_add {left right : Canonical K} {id : VarId} :
    id ∈ (left.add right).variableIds ↔ id ∈ left.variableIds ∨ id ∈ right.variableIds := by
  rw [add, mem_variableIds_extend, StandardForm.mem_variableIds_add, mem_variableIds,
    mem_variableIds]
  exact (or_assoc.trans (or_congr_right or_comm)).trans or_or_or_comm

@[simp]
theorem mem_variableIds_scale {canonical : Canonical K} {factor : K} {id : VarId} :
    id ∈ (canonical.scale factor).variableIds ↔ id ∈ canonical.variableIds := by
  simp [mem_variableIds, scale]

end Canonical

namespace Expression

variable {K : Type}

theorem listOccurrences_append (terms rest : List (Expression K)) :
    listOccurrences (terms ++ rest) = listOccurrences terms ++ listOccurrences rest := by
  induction terms with
  | nil => simp [listOccurrences]
  | cons term terms ih => simp [listOccurrences, ih]

@[simp]
theorem occurrences_sum_snoc (terms : List (Expression K)) (term : Expression K) :
    (Expression.sum (terms ++ [term])).occurrences =
      (Expression.sum terms).occurrences ++ term.occurrences := by
  simp [occurrences, listOccurrences_append, listOccurrences]

end Expression

namespace Canonicalizes

variable {K : Type} [Scalar K] {allowed : Bool} {before after : Supply}
  {expression : Expression K} {result : Canonical K}

theorem next_le (derivation : Canonicalizes allowed before expression result after) :
    before.next ≤ after.next := by
  induction derivation with
  | var leaf => exact Nat.le_refl _
  | const value => exact Nat.le_refl _
  | add _ _ ihLeft ihRight => exact Nat.le_trans ihLeft ihRight
  | neg _ _ ih => exact ih
  | mulLeft _ _ ih => exact ih
  | mulRight _ _ _ ih => exact ih
  | sumNil => exact Nat.le_refl _
  | sumSnoc _ _ ihTerms ihTerm => exact Nat.le_trans ihTerms ihTerm
  | pos _ _ ih => exact Nat.le_succ_of_le ih
  | squareVariable _ _ _ ih => exact ih
  | squareEqual _ _ _ ih => exact Nat.le_succ_of_le ih
  | squareAbove _ _ ih => exact Nat.le_succ_of_le ih

/-- Where squares are not allowed the canonical form is linear. -/
theorem exists_linear (derivation : Canonicalizes allowed before expression result after)
    (notAllowed : allowed = false) : ∃ form, result.form = .linear form := by
  induction derivation with
  | var leaf => exact ⟨_, rfl⟩
  | const value => exact ⟨_, rfl⟩
  | add _ _ ihLeft ihRight =>
      rcases ihLeft notAllowed with ⟨left, leftLinear⟩
      rcases ihRight notAllowed with ⟨right, rightLinear⟩
      exact ⟨left.add right, by simp [Canonical.add, Canonical.extend, leftLinear, rightLinear,
        StandardForm.add]⟩
  | neg _ _ _ => exact ⟨_, rfl⟩
  | mulLeft factor _ ih =>
      rcases ih (by simp [notAllowed]) with ⟨form, linear⟩
      exact ⟨form.scale factor, by simp [Canonical.scale, linear, StandardForm.scale]⟩
  | mulRight factor _ _ ih =>
      rcases ih (by simp [notAllowed]) with ⟨form, linear⟩
      exact ⟨form.scale factor, by simp [Canonical.scale, linear, StandardForm.scale]⟩
  | sumNil => exact ⟨_, rfl⟩
  | sumSnoc _ _ ihTerms ihTerm =>
      rcases ihTerms notAllowed with ⟨left, leftLinear⟩
      rcases ihTerm notAllowed with ⟨right, rightLinear⟩
      exact ⟨left.add right, by simp [Canonical.add, Canonical.extend, leftLinear, rightLinear,
        StandardForm.add]⟩
  | pos _ _ _ => exact ⟨_, rfl⟩
  | squareVariable _ _ _ _ => simp at notAllowed
  | squareEqual _ _ _ _ => simp at notAllowed
  | squareAbove _ _ _ => exact ⟨_, rfl⟩

theorem auxiliaries_eq_drawn (derivation : Canonicalizes allowed before expression result after) :
    result.auxiliaries = Supply.drawn before after := by
  induction derivation with
  | var leaf => simp [Canonical.ofLinear]
  | const value => simp [Canonical.ofLinear]
  | add fromLeft fromRight ihLeft ihRight =>
      rw [← Supply.drawn_append fromLeft.next_le fromRight.next_le, ← ihLeft, ← ihRight]
      rfl
  | neg _ _ ih => simpa [Canonical.extend] using ih
  | mulLeft _ _ ih => exact ih
  | mulRight _ _ _ ih => exact ih
  | sumNil => simp [Canonical.ofLinear]
  | sumSnoc fromTerms fromTerm ihTerms ihTerm =>
      rw [← Supply.drawn_append fromTerms.next_le fromTerm.next_le, ← ihTerms, ← ihTerm]
      rfl
  | pos fromBody _ ih =>
      rw [← Supply.drawn_snoc fromBody.next_le, ← ih]
      rfl
  | squareVariable _ _ _ ih => simpa [Canonical.extend] using ih
  | squareEqual fromBody _ _ ih =>
      rw [← Supply.drawn_snoc fromBody.next_le, ← ih]
      rfl
  | squareAbove fromBody _ ih =>
      rw [← Supply.drawn_snoc fromBody.next_le, ← ih]
      rfl

/-- Every variable of a canonical form is a variable of the expression or an auxiliary one. -/
theorem mem_occurrences_or_auxiliaries
    (derivation : Canonicalizes allowed before expression result after) {id : VarId}
    (member : id ∈ result.variableIds) :
    id ∈ expression.occurrences ∨ id ∈ result.auxiliaries := by
  induction derivation with
  | var leaf =>
      left
      simpa [Canonical.mem_variableIds, Canonical.ofLinear, Expression.occurrences] using member
  | const value => simp [Canonical.mem_variableIds, Canonical.ofLinear] at member
  | add _ _ ihLeft ihRight =>
      simp only [Expression.occurrences, Canonical.add, Canonical.extend, List.mem_append]
      rcases Canonical.mem_variableIds_add.1 member with inLeft | inRight
      · exact (ihLeft inLeft).imp .inl .inl
      · exact (ihRight inRight).imp .inr .inr
  | neg _ linear ih =>
      apply Canonical.mem_extend_auxiliaries linear ih _ member
      intro new
      simpa using new
  | mulLeft _ _ ih =>
      simpa [Expression.occurrences, Canonical.scale] using ih (by simpa using member)
  | mulRight _ _ _ ih =>
      simpa [Expression.occurrences, Canonical.scale] using ih (by simpa using member)
  | sumNil => simp [Canonical.mem_variableIds, Canonical.ofLinear] at member
  | sumSnoc _ _ ihTerms ihTerm =>
      simp only [Expression.occurrences_sum_snoc, Canonical.add, Canonical.extend,
        List.mem_append]
      rcases Canonical.mem_variableIds_add.1 member with inTerms | inTerm
      · exact (ihTerms inTerms).imp .inl .inl
      · exact (ihTerm inTerm).imp .inr .inr
  | pos _ linear ih =>
      apply Canonical.mem_extend_auxiliaries linear ih _ member
      intro new
      simp only [List.mem_singleton]
      simp at new
      grind
  | squareVariable _ linear single ih =>
      apply Canonical.mem_extend_auxiliaries linear ih _ member
      intro new
      left
      obtain rfl : id = _ := by simpa using new
      exact LinearForm.mem_variableIds_of_singleVariable? single
  | squareEqual _ linear _ ih =>
      apply Canonical.mem_extend_auxiliaries linear ih _ member
      intro new
      simp only [List.mem_singleton]
      simp at new
      grind
  | squareAbove _ linear ih =>
      apply Canonical.mem_extend_auxiliaries linear ih _ member
      intro new
      simp only [List.mem_singleton]
      simp at new
      grind

/-- Where an expression without variables comes down to a single variable, that one is an auxiliary
variable of its own. -/
theorem next_lt_of_singleVariable? {form : LinearForm K} {id : VarId}
    (derivation : Canonicalizes allowed before expression result after)
    (noVariable : expression.occurrences = []) (linear : result.form = .linear form)
    (single : form.singleVariable? = some id) : before.next < after.next := by
  have inForm := LinearForm.mem_variableIds_of_singleVariable? single
  have inResult := Canonical.mem_variableIds_of_linear linear inForm
  rcases derivation.mem_occurrences_or_auxiliaries inResult with occurs | auxiliary
  · simp [noVariable] at occurs
  · rw [derivation.auxiliaries_eq_drawn, Supply.mem_drawn] at auxiliary
    exact auxiliary.1.trans_lt auxiliary.2

/-- An atom anywhere in the expression takes an auxiliary variable, unless it is the square of a
variable. -/
theorem next_lt_of_atom_mem_nodes {node : Expression K}
    (derivation : Canonicalizes allowed before expression result after)
    (member : node ∈ expression.nodes) (atom : node.isAtom = true)
    (noVariable : ∀ body, node = .square body → body.occurrences = []) :
    before.next < after.next := by
  induction derivation with
  | var leaf =>
      obtain rfl : node = .var leaf := by simpa using member
      simp [Expression.isAtom] at atom
  | const value =>
      obtain rfl : node = .const value := by simpa using member
      simp [Expression.isAtom] at atom
  | add fromLeft fromRight ihLeft ihRight =>
      rcases List.mem_cons.1 member with rfl | inside
      · simp [Expression.isAtom] at atom
      · rcases List.mem_append.1 inside with inLeft | inRight
        · exact (ihLeft inLeft).trans_le fromRight.next_le
        · exact fromLeft.next_le.trans_lt (ihRight inRight)
  | neg _ _ ih =>
      rcases List.mem_cons.1 member with rfl | inside
      · simp [Expression.isAtom] at atom
      · exact ih inside
  | mulLeft factor _ ih =>
      apply ih
      simp only [Expression.nodes, List.mem_cons, List.singleton_append] at member
      rcases member with rfl | rfl | inside
      · simp [Expression.isAtom] at atom
      · simp [Expression.isAtom] at atom
      · exact inside
  | mulRight factor _ _ ih =>
      apply ih
      simp only [Expression.nodes, List.mem_cons, List.mem_append, List.not_mem_nil,
        or_false] at member
      rcases member with rfl | inside | rfl
      · simp [Expression.isAtom] at atom
      · exact inside
      · simp [Expression.isAtom] at atom
  | sumNil =>
      obtain rfl : node = .sum [] := by simpa using member
      simp [Expression.isAtom] at atom
  | @sumSnoc _ _ _ _ terms _ _ _ fromTerms fromTerm ihTerms ihTerm =>
      rcases List.mem_cons.1 member with rfl | inside
      · simp [Expression.isAtom] at atom
      · rcases Expression.mem_listNodes.1 inside with ⟨term, term_mem, inTerm⟩
        rcases List.mem_append.1 term_mem with inTerms | isLast
        · have inSum : node ∈ (Expression.sum terms).nodes :=
            List.mem_cons_of_mem _ (Expression.mem_listNodes.2 ⟨term, inTerms, inTerm⟩)
          exact (ihTerms inSum).trans_le fromTerm.next_le
        · rw [List.mem_singleton.1 isLast] at inTerm
          exact fromTerms.next_le.trans_lt (ihTerm inTerm)
  | pos fromBody _ _ => exact Nat.lt_succ_of_le fromBody.next_le
  | squareVariable fromBody linear single ih =>
      rcases List.mem_cons.1 member with rfl | inside
      · exact fromBody.next_lt_of_singleVariable? (noVariable _ rfl) linear single
      · exact ih inside
  | squareEqual fromBody _ _ _ => exact Nat.lt_succ_of_le fromBody.next_le
  | squareAbove fromBody _ _ => exact Nat.lt_succ_of_le fromBody.next_le

/-- A positive part anywhere in the expression takes an auxiliary variable. -/
theorem next_lt_of_pos_mem_nodes {part : Expression K}
    (derivation : Canonicalizes allowed before expression result after)
    (member : .pos part ∈ expression.nodes) : before.next < after.next :=
  derivation.next_lt_of_atom_mem_nodes member rfl nofun

end Canonicalizes

end HingeLoss
