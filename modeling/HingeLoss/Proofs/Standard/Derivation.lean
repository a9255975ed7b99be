import HingeLoss.Proofs.Expression.Nodes
import HingeLoss.Proofs.Standard.Scope
import HingeLoss.Proofs.Supply

/-!
# Canonicalization as a derivation

A run of canonicalization that succeeds is the same as a derivation in which every node of the
expression has a rule: `Canonicalizes` says which form, constraints and auxiliary variables a node
gets from those of its parts. Proofs about canonicalization go by induction on the derivation and
never look into the monad.

A sum is derived from its front part and its last term, just as the run accumulates it.
-/

namespace HingeLoss

namespace Canonicalizing

variable {α β : Type}

/-- Started with the supply `before`, the action succeeds with `result` and leaves `after`. -/
def Returns (action : Canonicalizing α) (before : Supply) (result : α) (after : Supply) : Prop :=
  (action.run.run before).run = (.ok result, after)

/-- Started with the supply `before`, the action fails for this reason and leaves `after`. -/
def Fails (action : Canonicalizing α) (before : Supply) (reason : NotDcp) (after : Supply) : Prop :=
  (action.run.run before).run = (.error reason, after)

/-- An action that does not return fails. -/
theorem exists_returns_or_fails (action : Canonicalizing α) (before : Supply) :
    (∃ result after, action.Returns before result after) ∨
      ∃ reason after, action.Fails before reason after := by
  rcases run : (action.run.run before).run with ⟨outcome, after⟩
  cases outcome with
  | ok result => exact .inl ⟨result, after, run⟩
  | error reason => exact .inr ⟨reason, after, run⟩

theorem Fails.not_returns {action : Canonicalizing α} {before after other : Supply}
    {reason : NotDcp} (fails : action.Fails before reason after) (result : α) :
    ¬action.Returns before result other := by
  intro returns
  have same := fails.symm.trans returns
  simp at same

/-- An action that fails for one reason only fails for it exactly where it does not return. -/
theorem exists_fails_iff_of_reason {action : Canonicalizing α} {before : Supply} {known : NotDcp}
    (only : ∀ {reason after}, action.Fails before reason after → reason = known)
    {reason : NotDcp} :
    (∃ after, action.Fails before reason after) ↔
      reason = known ∧ ¬∃ result after, action.Returns before result after := by
  constructor
  · rintro ⟨after, fails⟩
    refine ⟨only fails, ?_⟩
    rintro ⟨result, other, returns⟩
    exact fails.not_returns result returns
  · rintro ⟨rfl, notReturned⟩
    rcases exists_returns_or_fails action before with returned | ⟨reason, after, fails⟩
    · exact absurd returned notReturned
    · exact ⟨after, only fails ▸ fails⟩

theorem Returns.unique {action : Canonicalizing α} {before after otherAfter : Supply}
    {result other : α} (returns : action.Returns before result after)
    (again : action.Returns before other otherAfter) : result = other ∧ after = otherAfter := by
  have same := returns.symm.trans again
  simp only [Prod.mk.injEq, Except.ok.injEq] at same
  exact same

@[simp]
theorem returns_pure {value result : α} {before after : Supply} :
    Returns (pure value) before result after ↔ result = value ∧ after = before := by
  change (Except.ok value, before) = (Except.ok result, after) ↔ _
  simp [eq_comm]

@[simp]
theorem not_returns_throw {reason : NotDcp} {result : α} {before after : Supply} :
    ¬Returns (throw reason) before result after := by
  intro returns
  change (Except.error reason, before) = (Except.ok result, after) at returns
  simp at returns

theorem run_bind (action : Canonicalizing α) (next : α → Canonicalizing β) (before : Supply) :
    ((action >>= next).run.run before).run =
      match (action.run.run before).run with
      | (.ok value, middle) => ((next value).run.run middle).run
      | (.error reason, middle) => (.error reason, middle) := by
  simp only [bind, ExceptT.bind, ExceptT.mk, ExceptT.run, StateT.bind, StateT.run, Id.run]
  cases action before with
  | mk outcome middle => cases outcome <;> rfl

@[simp]
theorem returns_bind {action : Canonicalizing α} {next : α → Canonicalizing β} {result : β}
    {before after : Supply} :
    Returns (action >>= next) before result after ↔
      ∃ value middle, action.Returns before value middle ∧
        (next value).Returns middle result after := by
  simp only [Returns, run_bind]
  rcases (action.run.run before).run with ⟨outcome, middle⟩
  cases outcome with
  | ok value => simp
  | error reason => simp

@[simp]
theorem not_fails_pure {value : α} {reason : NotDcp} {before after : Supply} :
    ¬Fails (pure value) before reason after :=
  fun fails => fails.not_returns value (returns_pure.2 ⟨rfl, rfl⟩)

@[simp]
theorem fails_throw {reason other : NotDcp} {before after : Supply} :
    Fails (throw reason : Canonicalizing α) before other after ↔
      other = reason ∧ after = before := by
  change ((Except.error reason : Except NotDcp α), before) = (Except.error other, after) ↔ _
  simp [eq_comm]

@[simp]
theorem fails_bind {action : Canonicalizing α} {next : α → Canonicalizing β} {reason : NotDcp}
    {before after : Supply} :
    Fails (action >>= next) before reason after ↔
      action.Fails before reason after ∨
        ∃ value middle, action.Returns before value middle ∧
          (next value).Fails middle reason after := by
  simp only [Fails, Returns, run_bind]
  rcases (action.run.run before).run with ⟨outcome, middle⟩
  cases outcome with
  | ok value => simp
  | error reason => simp

@[simp]
theorem returns_freshId {id : VarId} {before after : Supply} :
    Returns freshId before id after ↔ id = before.draw.1 ∧ after = before.draw.2 := by
  change (Except.ok before.draw.1, before.draw.2) = (Except.ok id, after) ↔ _
  simp [eq_comm]

/-- An action that makes its result of one fresh variable. -/
theorem returns_freshId_bind_pure {build : VarId → α} {result : α} {before after : Supply} :
    Returns (freshId >>= fun id => pure (build id)) before result after ↔
      result = build before.draw.1 ∧ after = before.draw.2 := by
  simp only [returns_bind, returns_pure, returns_freshId]
  constructor
  · rintro ⟨id, _, ⟨rfl, rfl⟩, rfl, rfl⟩
    exact ⟨rfl, rfl⟩
  · rintro ⟨rfl, rfl⟩
    exact ⟨_, _, ⟨rfl, rfl⟩, rfl, rfl⟩

@[simp]
theorem not_fails_freshId {reason : NotDcp} {before after : Supply} :
    ¬Fails freshId before reason after :=
  fun fails => fails.not_returns _ (returns_freshId.2 ⟨rfl, rfl⟩)

@[simp]
theorem returns_linearForm {K : Type} {canonical : Canonical K} {form : LinearForm K}
    {before after : Supply} :
    Returns canonical.linearForm before form after ↔
      canonical.form = .linear form ∧ after = before := by
  simp only [Canonical.linearForm]
  cases canonical.form with
  | linear other =>
      change (Except.ok other, before) = (Except.ok form, after) ↔ _
      simp [eq_comm]
  | quadratic other =>
      change ((Except.error _ : Except NotDcp (LinearForm K)), before) = (Except.ok form, after) ↔ _
      simp

end Canonicalizing

namespace Canonical

open Canonicalizing

variable {K : Type} [Scalar K] {inner result : Canonical K} {form : LinearForm K}
  {before after : Supply}

theorem returns_positivePart_iff :
    (inner.positivePart form).Returns before result after ↔
      result = inner.extend (.linear (.ofVariable before.draw.1))
          [.nonneg (.ofVariable before.draw.1),
            .nonneg ((LinearForm.ofVariable before.draw.1).add form.neg)]
          [before.draw.1] ∧
        after = before.draw.2 :=
  returns_freshId_bind_pure

theorem returns_quadraticSquare_iff_of_single {id : VarId}
    (single : form.singleVariable? = some id) :
    (inner.quadraticSquare form).Returns before result after ↔
      result = inner.extend (.quadratic (.square id 1)) [] [] ∧ after = before := by
  simp only [quadraticSquare, single, returns_pure]

theorem returns_quadraticSquare_iff_of_not_single (notSingle : form.singleVariable? = none) :
    (inner.quadraticSquare form).Returns before result after ↔
      result = inner.extend (.quadratic (.square before.draw.1 1))
          [.zero ((LinearForm.ofVariable before.draw.1).add form.neg)] [before.draw.1] ∧
        after = before.draw.2 := by
  simp only [quadraticSquare, notSingle]
  exact returns_freshId_bind_pure

theorem returns_boundedSquare_iff :
    (inner.boundedSquare form).Returns before result after ↔
      result = inner.extend (.linear (.ofVariable before.draw.1))
          [.nonneg (.ofVariable before.draw.1),
            .secondOrder ((LinearForm.ofVariable before.draw.1).add (.ofConstant 1))
              [form.scale Scalar.two,
                (LinearForm.ofVariable before.draw.1).add (.ofConstant (-1))]]
          [before.draw.1] ∧
        after = before.draw.2 :=
  returns_freshId_bind_pure

end Canonical

/-- The rules of canonicalization: with squares allowed or not, and with the supply `before`, the
expression has the canonical form `result` and leaves the supply `after`. -/
inductive Canonicalizes {K : Type} [Scalar K] :
    Bool → Supply → Expression K → Canonical K → Supply → Prop
  | var {allowed supply} (leaf : Variable) :
      Canonicalizes allowed supply (.var leaf) (.ofLinear (.ofVariable leaf.id)) supply
  | const {allowed supply} (value : K) :
      Canonicalizes allowed supply (.const value) (.ofLinear (.ofConstant value)) supply
  | add {allowed before middle after left right leftResult rightResult}
      (fromLeft : Canonicalizes allowed before left leftResult middle)
      (fromRight : Canonicalizes allowed middle right rightResult after) :
      Canonicalizes allowed before (.add left right) (leftResult.add rightResult) after
  | neg {allowed before after body inner form}
      (fromBody : Canonicalizes false before body inner after)
      (linear : inner.form = .linear form) :
      Canonicalizes allowed before (.neg body) (inner.extend (.linear form.neg) [] []) after
  | mulLeft {allowed before after right inner} (factor : K)
      (fromRight : Canonicalizes (allowed && 0 ≤ factor) before right inner after) :
      Canonicalizes allowed before (.mul (.const factor) right) (inner.scale factor) after
  | mulRight {allowed before after left inner} (factor : K) (notLiteral : left.constant? = none)
      (fromLeft : Canonicalizes (allowed && 0 ≤ factor) before left inner after) :
      Canonicalizes allowed before (.mul left (.const factor)) (inner.scale factor) after
  | sumNil {allowed supply} :
      Canonicalizes allowed supply (.sum []) (.ofLinear .zero) supply
  | sumSnoc {allowed before middle after terms term accumulated result}
      (fromTerms : Canonicalizes allowed before (.sum terms) accumulated middle)
      (fromTerm : Canonicalizes allowed middle term result after) :
      Canonicalizes allowed before (.sum (terms ++ [term])) (accumulated.add result) after
  | pos {allowed before after body inner form}
      (fromBody : Canonicalizes false before body inner after)
      (linear : inner.form = .linear form) :
      Canonicalizes allowed before (.pos body)
        (inner.extend (.linear (.ofVariable after.draw.1))
          [.nonneg (.ofVariable after.draw.1),
            .nonneg ((LinearForm.ofVariable after.draw.1).add form.neg)]
          [after.draw.1])
        after.draw.2
  | squareVariable {before after body inner form id}
      (fromBody : Canonicalizes false before body inner after)
      (linear : inner.form = .linear form) (single : form.singleVariable? = some id) :
      Canonicalizes true before (.square body)
        (inner.extend (.quadratic (.square id 1)) [] []) after
  | squareEqual {before after body inner form}
      (fromBody : Canonicalizes false before body inner after)
      (linear : inner.form = .linear form) (notSingle : form.singleVariable? = none) :
      Canonicalizes true before (.square body)
        (inner.extend (.quadratic (.square after.draw.1 1))
          [.zero ((LinearForm.ofVariable after.draw.1).add form.neg)]
          [after.draw.1])
        after.draw.2
  | squareAbove {before after body inner form}
      (fromBody : Canonicalizes false before body inner after)
      (linear : inner.form = .linear form) :
      Canonicalizes false before (.square body)
        (inner.extend (.linear (.ofVariable after.draw.1))
          [.nonneg (.ofVariable after.draw.1),
            .secondOrder ((LinearForm.ofVariable after.draw.1).add (.ofConstant 1))
              [form.scale Scalar.two,
                (LinearForm.ofVariable after.draw.1).add (.ofConstant (-1))]]
          [after.draw.1])
        after.draw.2

namespace Expression

open Canonicalizing

variable {K : Type}

variable [Scalar K]

/-- Terms that are added to the canonical form of a sum give the canonical form of the longer
sum. -/
theorem canonicalizes_of_canonicalizeSum {allowed : Bool} {terms rest : List (Expression K)}
    (fromRun : ∀ term ∈ rest, ∀ {before result after},
      (term.canonicalize allowed).Returns before result after →
        Canonicalizes allowed before term result after)
    {before middle after : Supply} {accumulated result : Canonical K}
    (fromTerms : Canonicalizes allowed before (.sum terms) accumulated middle)
    (returns : (canonicalizeSum allowed accumulated rest).Returns middle result after) :
    Canonicalizes allowed before (.sum (terms ++ rest)) result after := by
  induction rest generalizing terms accumulated middle with
  | nil =>
      simp only [canonicalizeSum, returns_pure] at returns
      rcases returns with ⟨rfl, rfl⟩
      simpa using fromTerms
  | cons term rest ih =>
      simp only [canonicalizeSum, returns_bind] at returns
      rcases returns with ⟨termResult, next, fromTerm, fromRest⟩
      have longer := Canonicalizes.sumSnoc fromTerms (fromRun term (by simp) fromTerm)
      have whole := ih (fun other member => fromRun other (by simp [member])) longer fromRest
      simpa using whole

theorem canonicalizes_of_returns {expression : Expression K} {allowed : Bool}
    {before after : Supply} {result : Canonical K}
    (returns : (expression.canonicalize allowed).Returns before result after) :
    Canonicalizes allowed before expression result after := by
  induction expression generalizing allowed before after result with
  | var leaf =>
      simp only [canonicalize, returns_pure] at returns
      rcases returns with ⟨rfl, rfl⟩
      exact .var leaf
  | const value =>
      simp only [canonicalize, returns_pure] at returns
      rcases returns with ⟨rfl, rfl⟩
      exact .const value
  | add left right ihLeft ihRight =>
      simp only [canonicalize, returns_bind, returns_pure] at returns
      rcases returns with ⟨leftResult, middle, fromLeft, rightResult, _, fromRight, rfl, rfl⟩
      exact .add (ihLeft fromLeft) (ihRight fromRight)
  | neg body ih =>
      simp only [canonicalize, returns_bind, returns_pure, returns_linearForm] at returns
      rcases returns with ⟨inner, _, fromBody, form, _, ⟨linear, rfl⟩, rfl, rfl⟩
      exact .neg (ih fromBody) linear
  | mul left right ihLeft ihRight =>
      simp only [canonicalize] at returns
      split at returns
      case h_1 factor leftLiteral =>
        rcases constant?_eq_some.1 leftLiteral with rfl
        simp only [returns_bind, returns_pure] at returns
        rcases returns with ⟨inner, _, fromRight, rfl, rfl⟩
        exact .mulLeft factor (ihRight fromRight)
      case h_2 factor notLiteral rightLiteral =>
        rcases constant?_eq_some.1 rightLiteral with rfl
        simp only [returns_bind, returns_pure] at returns
        rcases returns with ⟨inner, _, fromLeft, rfl, rfl⟩
        exact .mulRight factor notLiteral (ihLeft fromLeft)
      case h_3 => exact absurd returns not_returns_throw
  | sum terms ih =>
      simp only [canonicalize] at returns
      exact canonicalizes_of_canonicalizeSum (fun term member => ih term member) .sumNil returns
  | pos body ih =>
      simp only [canonicalize, returns_bind, returns_linearForm,
        Canonical.returns_positivePart_iff] at returns
      rcases returns with ⟨inner, _, fromBody, form, _, ⟨linear, rfl⟩, rfl, rfl⟩
      exact .pos (ih fromBody) linear
  | square body ih =>
      simp only [canonicalize, returns_bind, returns_linearForm] at returns
      rcases returns with ⟨inner, _, fromBody, form, _, ⟨linear, rfl⟩, squared⟩
      cases allowed with
      | false =>
          rcases Canonical.returns_boundedSquare_iff.1 squared with ⟨rfl, rfl⟩
          exact .squareAbove (ih fromBody) linear
      | true =>
          cases single : form.singleVariable? with
          | some id =>
              rcases (Canonical.returns_quadraticSquare_iff_of_single single).1 squared with
                ⟨rfl, rfl⟩
              exact .squareVariable (ih fromBody) linear single
          | none =>
              rcases (Canonical.returns_quadraticSquare_iff_of_not_single single).1 squared with
                ⟨rfl, rfl⟩
              exact .squareEqual (ih fromBody) linear single

theorem returns_canonicalizeSum_append {allowed : Bool} {terms : List (Expression K)}
    {term : Expression K} {before middle after : Supply} {start accumulated result : Canonical K}
    (fromTerms : (canonicalizeSum allowed start terms).Returns before accumulated middle)
    (fromTerm : (term.canonicalize allowed).Returns middle result after) :
    (canonicalizeSum allowed start (terms ++ [term])).Returns before
      (accumulated.add result) after := by
  induction terms generalizing start before with
  | nil =>
      simp only [canonicalizeSum, returns_pure] at fromTerms
      rcases fromTerms with ⟨rfl, rfl⟩
      simp only [List.nil_append, canonicalizeSum, returns_bind, returns_pure]
      exact ⟨result, after, fromTerm, rfl, rfl⟩
  | cons head rest ih =>
      simp only [canonicalizeSum, returns_bind] at fromTerms
      rcases fromTerms with ⟨headResult, next, fromHead, fromRest⟩
      simp only [List.cons_append, canonicalizeSum, returns_bind]
      exact ⟨headResult, next, fromHead, ih fromRest⟩

theorem returns_of_canonicalizes {expression : Expression K} {allowed : Bool}
    {before after : Supply} {result : Canonical K}
    (derivation : Canonicalizes allowed before expression result after) :
    (expression.canonicalize allowed).Returns before result after := by
  induction derivation with
  | var leaf => simp [canonicalize]
  | const value => simp [canonicalize]
  | add _ _ ihLeft ihRight =>
      simp only [canonicalize, returns_bind, returns_pure]
      exact ⟨_, _, ihLeft, _, _, ihRight, rfl, rfl⟩
  | neg _ linear ih =>
      simp only [canonicalize, returns_bind, returns_pure, returns_linearForm]
      exact ⟨_, _, ih, _, _, ⟨linear, rfl⟩, rfl, rfl⟩
  | mulLeft factor _ ih =>
      simp only [canonicalize, constant?, returns_bind, returns_pure]
      exact ⟨_, _, ih, rfl, rfl⟩
  | mulRight factor notLiteral _ ih =>
      simp only [canonicalize]
      split
      case h_1 other literal => simp [notLiteral] at literal
      case h_2 other _ literal =>
        obtain rfl : factor = other := by simpa [constant?] using literal
        simp only [returns_bind, returns_pure]
        exact ⟨_, _, ih, rfl, rfl⟩
      case h_3 _ literal => simp [constant?] at literal
  | sumNil => simp [canonicalize, canonicalizeSum]
  | sumSnoc _ _ ihTerms ihTerm =>
      simp only [canonicalize] at ihTerms ⊢
      exact returns_canonicalizeSum_append ihTerms ihTerm
  | pos _ linear ih =>
      simp only [canonicalize, returns_bind, returns_linearForm]
      exact ⟨_, _, ih, _, _, ⟨linear, rfl⟩, Canonical.returns_positivePart_iff.2 ⟨rfl, rfl⟩⟩
  | squareVariable _ linear single ih =>
      simp only [canonicalize, returns_bind, returns_linearForm]
      exact ⟨_, _, ih, _, _, ⟨linear, rfl⟩,
        (Canonical.returns_quadraticSquare_iff_of_single single).2 ⟨rfl, rfl⟩⟩
  | squareEqual _ linear notSingle ih =>
      simp only [canonicalize, returns_bind, returns_linearForm]
      exact ⟨_, _, ih, _, _, ⟨linear, rfl⟩,
        (Canonical.returns_quadraticSquare_iff_of_not_single notSingle).2 ⟨rfl, rfl⟩⟩
  | squareAbove _ linear ih =>
      simp only [canonicalize, returns_bind, returns_linearForm]
      exact ⟨_, _, ih, _, _, ⟨linear, rfl⟩, Canonical.returns_boundedSquare_iff.2 ⟨rfl, rfl⟩⟩

/-- The successful runs of canonicalization are its derivations. -/
theorem returns_canonicalize_iff {expression : Expression K} {allowed : Bool}
    {before after : Supply} {result : Canonical K} :
    (expression.canonicalize allowed).Returns before result after ↔
      Canonicalizes allowed before expression result after :=
  ⟨canonicalizes_of_returns, returns_of_canonicalizes⟩

end Expression

/-- An expression has only one canonical form. -/
theorem Canonicalizes.unique {K : Type} [Scalar K] {expression : Expression K} {allowed : Bool}
    {before after otherAfter : Supply} {result other : Canonical K}
    (derivation : Canonicalizes allowed before expression result after)
    (again : Canonicalizes allowed before expression other otherAfter) :
    result = other ∧ after = otherAfter :=
  (Expression.returns_of_canonicalizes derivation).unique
    (Expression.returns_of_canonicalizes again)

end HingeLoss
