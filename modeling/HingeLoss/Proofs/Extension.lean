import HingeLoss.Proofs.Supply
import Mathlib.Logic.Function.Basic

/-!
# Extending points to drawn variables

A requirement on the values of variables can often be met by choosing values for variables that were
just drawn. Requirements that are met in this way, each on the variables drawn for it, can be met
together: none of them looks at the variables that were drawn for another one.
-/

namespace HingeLoss

variable {K : Type}

/-- The point can be changed on the given variables so that a requirement is met. -/
def ExtendsTo (point : VarId → K) (ids : List VarId) (Met : (VarId → K) → Prop) : Prop :=
  ∃ values, (∀ id ∉ ids, values id = point id) ∧ Met values

/-- A requirement looks at no other variables than those of the scope and those drawn between two
states of the supply. -/
def Confined (scope : List VarId) (before after : Supply) (Met : (VarId → K) → Prop) : Prop :=
  ∀ values other, (∀ id, id ∈ scope ∨ id ∈ Supply.drawn before after → values id = other id) →
    Met values → Met other

variable {before middle after : Supply} {leftScope rightScope : List VarId}
  {Met MetLeft MetRight : (VarId → K) → Prop}

namespace Confined

theorem next (supply : Supply) (bound : K) :
    Confined [] supply supply.draw.2 fun values => values supply.draw.1 = bound := by
  intro values other agree equal
  rw [← agree supply.draw.1 (.inr (by simp)), equal]

theorem and (left : Confined leftScope before middle MetLeft)
    (right : Confined rightScope middle after MetRight)
    (first : before.next ≤ middle.next) (second : middle.next ≤ after.next) :
    Confined (leftScope ++ rightScope) before after fun values =>
      MetLeft values ∧ MetRight values := by
  intro values other agree met
  rw [← Supply.drawn_append first second] at agree
  simp only [List.mem_append] at agree
  refine ⟨left values other (fun id member => agree id ?_) met.1,
    right values other (fun id member => agree id ?_) met.2⟩
  · exact member.imp .inl .inl
  · exact member.imp .inr .inr

end Confined

namespace ExtendsTo

variable {point : VarId → K} {ids : List VarId}

theorem imp {Implied : (VarId → K) → Prop} (extension : ExtendsTo point ids Met)
    (implies : ∀ values, Met values → Implied values) : ExtendsTo point ids Implied := by
  rcases extension with ⟨values, off, met⟩
  exact ⟨values, off, implies values met⟩

theorem refl (met : Met point) : ExtendsTo point ids Met :=
  ⟨point, fun _ _ => rfl, met⟩

/-- The next variable of a supply can be given any value. -/
theorem next (supply : Supply) (bound : K) :
    ExtendsTo point (Supply.drawn supply supply.draw.2) fun values =>
      values supply.draw.1 = bound := by
  refine ⟨Function.update point supply.draw.1 bound, ?_, by simp⟩
  intro id notDrawn
  rw [Supply.drawn_draw, List.mem_singleton] at notDrawn
  exact Function.update_of_ne notDrawn _ _

/-- Two requirements can be met one after the other if neither looks at the variables that are drawn
for the other. -/
theorem join_drawn (left : ExtendsTo point (Supply.drawn before middle) MetLeft)
    (right : ExtendsTo point (Supply.drawn middle after) MetRight)
    (confinedLeft : Confined leftScope before middle MetLeft)
    (confinedRight : Confined rightScope middle after MetRight)
    (issuedLeft : ∀ id ∈ leftScope, before.Issued id)
    (issuedRight : ∀ id ∈ rightScope, before.Issued id)
    (first : before.next ≤ middle.next) (second : middle.next ≤ after.next) :
    ExtendsTo point (Supply.drawn before after) fun values =>
      MetLeft values ∧ MetRight values := by
  rcases left with ⟨leftValues, offLeft, metLeft⟩
  rcases right with ⟨rightValues, offRight, metRight⟩
  have apart : ∀ id ∈ Supply.drawn before middle, id ∉ Supply.drawn middle after := by
    intro id drawn
    exact Supply.Issued.not_mem_drawn (Supply.mem_drawn.1 drawn).2
  let joined : VarId → K := fun id =>
    if id ∈ Supply.drawn middle after then rightValues id else leftValues id
  have asRight : ∀ id ∉ Supply.drawn before middle, rightValues id = joined id := by
    intro id notLeft
    by_cases inRight : id ∈ Supply.drawn middle after
    · simp only [joined, if_pos inRight]
    · simp only [joined, if_neg inRight, offLeft id notLeft, offRight id inRight]
  have asLeft : ∀ id ∉ Supply.drawn middle after, leftValues id = joined id := by
    intro id notRight
    simp only [joined, if_neg notRight]
  refine ⟨joined, ?_, ?_, ?_⟩
  · intro id notDrawn
    rw [← Supply.drawn_append first second, List.mem_append, not_or] at notDrawn
    rw [← asLeft id notDrawn.2, offLeft id notDrawn.1]
  · refine confinedLeft leftValues joined (fun id member => asLeft id ?_) metLeft
    rcases member with inScope | drawn
    · exact ((issuedLeft id inScope).mono first).not_mem_drawn
    · exact apart id drawn
  · refine confinedRight rightValues joined (fun id member => asRight id ?_) metRight
    rcases member with inScope | drawn
    · exact (issuedRight id inScope).not_mem_drawn
    · exact fun inLeft => apart id inLeft drawn

end ExtendsTo

end HingeLoss
