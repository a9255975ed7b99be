import HingeLoss.Proofs.Expression.Chains
import HingeLoss.Proofs.Standard.Derivation
import HingeLoss.Proofs.Standard.Lookup

/-!
# Canonical forms of sums and of chains of additions

Canonicalizing a sum adds the forms of its terms to an empty form, one by one. A chain of additions
adds the same forms in the same order, beginning with the first. Both runs draw the same auxiliary
variables, make the same cones and fail alike; the forms have the same kind, the same keys and the
same coefficients, except that adding to the empty form may have turned `-0` into `0`.
-/

namespace HingeLoss

open Scalar (EqOrZeros)

namespace Coefficients

variable {κ K : Type} [Ord κ] [Scalar K]

def SameEntry (left right : κ × K) : Prop := left.1 = right.1 ∧ EqOrZeros left.2 right.2

/-- The same keys have the same coefficients. -/
def Agrees (left right : Coefficients κ K) : Prop :=
  List.Forall₂ SameEntry left.entries right.entries

theorem Agrees.refl (coefficients : Coefficients κ K) : coefficients.Agrees coefficients :=
  List.forall₂_same.2 fun entry _ => ⟨rfl, .refl entry.2⟩

variable {left right : Coefficients κ K}

theorem agrees_updateEntries [LawfulZero K] {entries others : List (κ × K)}
    (agree : List.Forall₂ SameEntry entries others) (key : κ) (coefficient : K) :
    List.Forall₂ SameEntry
      (updateEntries key (fun old => old.getD 0 + coefficient) entries)
      (updateEntries key (fun old => old.getD 0 + coefficient) others) := by
  have new : SameEntry (key, (none : Option K).getD 0 + coefficient)
      (key, (none : Option K).getD 0 + coefficient) := ⟨rfl, .refl _⟩
  induction agree with
  | nil => exact .cons new .nil
  | @cons head other rest others same agree ih =>
      simp only [updateEntries, ← same.1]
      cases compare key head.1 with
      | lt => exact .cons new (.cons ⟨rfl, same.2⟩ agree)
      | eq => exact .cons ⟨rfl, same.2.add_right coefficient⟩ agree
      | gt => exact .cons ⟨rfl, same.2⟩ ih

variable [Std.TransOrd κ] [Std.LawfulEqOrd κ]

theorem Agrees.add [LawfulZero K] (agrees : left.Agrees right) (added : Coefficients κ K) :
    (left.add added).Agrees (right.add added) := by
  simp only [Coefficients.add]
  induction added.entries generalizing left right with
  | nil => exact agrees
  | cons entry rest ih => exact ih (agrees_updateEntries agrees entry.1 entry.2)

theorem agrees_empty_add [LawfulZero K] (added : Coefficients κ K) :
    (empty.add added).Agrees added := by
  have collected : (empty.add added).entries =
      added.entries.map fun entry => (entry.1, 0 + entry.2) :=
    entries_add_of_lt (by simp [empty])
  rw [Agrees, collected, List.forall₂_map_left_iff, List.forall₂_same]
  exact fun entry _ => ⟨rfl, EqOrZeros.zero_add entry.2⟩

end Coefficients

section Forms

variable {K : Type} [Scalar K]

/-- The forms have the same numbers, up to the signs of zeros. -/
structure LinearForm.Agrees (left right : LinearForm K) : Prop where
  coefficients : left.coefficients.Agrees right.coefficients
  constant : EqOrZeros left.constant right.constant

structure QuadraticForm.Agrees (left right : QuadraticForm K) : Prop where
  products : left.products.Agrees right.products
  linear : left.linear.Agrees right.linear
  constant : EqOrZeros left.constant right.constant

/-- The forms are of the same kind and have the same numbers, up to the signs of zeros. -/
inductive StandardForm.Agrees : StandardForm K → StandardForm K → Prop
  | linear {left right : LinearForm K} (agrees : left.Agrees right) :
      StandardForm.Agrees (.linear left) (.linear right)
  | quadratic {left right : QuadraticForm K} (agrees : left.Agrees right) :
      StandardForm.Agrees (.quadratic left) (.quadratic right)

/-- The forms agree, with the very same cones and auxiliary variables. -/
structure Canonical.Agrees (left right : Canonical K) : Prop where
  form : left.form.Agrees right.form
  cones : left.cones = right.cones
  auxiliaries : left.auxiliaries = right.auxiliaries

theorem LinearForm.Agrees.refl (form : LinearForm K) : form.Agrees form :=
  ⟨.refl form.coefficients, .refl form.constant⟩

theorem Canonical.Agrees.refl (canonical : Canonical K) : canonical.Agrees canonical := by
  refine ⟨?_, rfl, rfl⟩
  cases canonical.form with
  | linear form => exact .linear (.refl form)
  | quadratic form =>
      exact .quadratic ⟨.refl form.products, .refl form.linear, .refl form.constant⟩

variable [LawfulZero K]

theorem LinearForm.Agrees.add {left right : LinearForm K} (agrees : left.Agrees right)
    (added : LinearForm K) : (left.add added).Agrees (right.add added) :=
  ⟨agrees.coefficients.add added.coefficients, agrees.constant.add_right added.constant⟩

theorem LinearForm.agrees_zero_add (added : LinearForm K) : (zero.add added).Agrees added :=
  ⟨Coefficients.agrees_empty_add added.coefficients, EqOrZeros.zero_add added.constant⟩

theorem QuadraticForm.Agrees.add {left right : QuadraticForm K} (agrees : left.Agrees right)
    (added : QuadraticForm K) : (left.add added).Agrees (right.add added) :=
  ⟨agrees.products.add added.products, agrees.linear.add added.linear,
    agrees.constant.add_right added.constant⟩

theorem QuadraticForm.agrees_ofLinear_zero_add (added : QuadraticForm K) :
    ((ofLinear .zero).add added).Agrees added :=
  ⟨Coefficients.agrees_empty_add added.products, LinearForm.agrees_zero_add added.linear,
    EqOrZeros.zero_add added.constant⟩

namespace StandardForm

variable {left right : StandardForm K}

omit [LawfulZero K] in
theorem Agrees.toQuadratic (agrees : left.Agrees right) :
    left.toQuadratic.Agrees right.toQuadratic := by
  cases agrees with
  | linear agrees => exact ⟨.nil, ⟨agrees.coefficients, .refl 0⟩, agrees.constant⟩
  | quadratic agrees => exact agrees

theorem Agrees.add (agrees : left.Agrees right) (added : StandardForm K) :
    (left.add added).Agrees (right.add added) := by
  have sum := agrees.toQuadratic.add added.toQuadratic
  cases agrees with
  | linear agrees =>
      cases added with
      | linear added => exact .linear (agrees.add added)
      | quadratic added => exact .quadratic sum
  | quadratic agrees => exact .quadratic sum

theorem agrees_zero_add (added : StandardForm K) :
    ((StandardForm.linear .zero).add added).Agrees added := by
  cases added with
  | linear added => exact .linear (LinearForm.agrees_zero_add added)
  | quadratic added => exact .quadratic (QuadraticForm.agrees_ofLinear_zero_add added)

end StandardForm

theorem Canonical.Agrees.add {left right : Canonical K} (agrees : left.Agrees right)
    (added : Canonical K) : (left.add added).Agrees (right.add added) where
  form := agrees.form.add added.form
  cones := congrArg (· ++ added.cones) agrees.cones
  auxiliaries := congrArg (· ++ added.auxiliaries) agrees.auxiliaries

theorem Canonical.agrees_zero_add (added : Canonical K) :
    ((ofLinear .zero).add added).Agrees added :=
  ⟨StandardForm.agrees_zero_add added.form, rfl, rfl⟩

end Forms

section Rationals

theorem Coefficients.Agrees.eq {κ : Type} [Ord κ] {left right : Coefficients κ ℚ}
    (agrees : left.Agrees right) : left = right := by
  have entries : left.entries = right.entries := by
    rw [← List.forall₂_eq_eq_eq]
    refine List.Forall₂.imp ?_ agrees
    exact fun entry other same => Prod.ext same.1 (Scalar.eqOrZeros_iff_eq.1 same.2)
  cases left
  cases right
  congr

theorem LinearForm.Agrees.eq {left right : LinearForm ℚ} (agrees : left.Agrees right) :
    left = right := by
  have coefficients := agrees.coefficients.eq
  have constant := Scalar.eqOrZeros_iff_eq.1 agrees.constant
  cases left
  cases right
  congr

theorem QuadraticForm.Agrees.eq {left right : QuadraticForm ℚ} (agrees : left.Agrees right) :
    left = right := by
  have products := agrees.products.eq
  have linear := agrees.linear.eq
  have constant := Scalar.eqOrZeros_iff_eq.1 agrees.constant
  cases left
  cases right
  congr

theorem StandardForm.Agrees.eq {left right : StandardForm ℚ} (agrees : left.Agrees right) :
    left = right := by
  cases agrees with
  | linear agrees => exact congrArg StandardForm.linear agrees.eq
  | quadratic agrees => exact congrArg StandardForm.quadratic agrees.eq

/-- Over rational numbers there are no signs of zeros, so canonical forms that agree are equal. -/
theorem Canonical.Agrees.eq {left right : Canonical ℚ} (agrees : left.Agrees right) :
    left = right := by
  have form := agrees.form.eq
  have cones := agrees.cones
  have auxiliaries := agrees.auxiliaries
  cases left
  cases right
  congr

end Rationals

namespace Canonicalizing

variable {α β : Type}

/-- Started with the same supply, both actions fail for the same reason or return related results,
and both leave the same supply. -/
inductive EndAlike (related : α → α → Prop) (left right : Canonicalizing α) (before : Supply) : Prop
  | failures {reason : NotDcp} {after : Supply} (fails : left.Fails before reason after)
      (alsoFails : right.Fails before reason after)
  | results {result other : α} {after : Supply} (returns : left.Returns before result after)
      (alsoReturns : right.Returns before other after) (same : related result other)

namespace EndAlike

variable {before : Supply}

theorem refl (action : Canonicalizing α) (before : Supply) : EndAlike Eq action action before := by
  rcases action.exists_returns_or_fails before with ⟨result, after, returns⟩ |
    ⟨reason, after, fails⟩
  · exact .results returns returns rfl
  · exact .failures fails fails

theorem bind {related : α → α → Prop} {relatedNext : β → β → Prop} {left right : Canonicalizing α}
    {next otherNext : α → Canonicalizing β} (alike : EndAlike related left right before)
    (nextAlike : ∀ result other middle, related result other →
      EndAlike relatedNext (next result) (otherNext other) middle) :
    EndAlike relatedNext (left >>= next) (right >>= otherNext) before := by
  cases alike with
  | failures fails alsoFails =>
      exact .failures (fails_bind.2 (.inl fails)) (fails_bind.2 (.inl alsoFails))
  | @results result other middle returns alsoReturns same =>
      cases nextAlike result other middle same with
      | failures fails alsoFails =>
          exact .failures (fails_bind.2 (.inr ⟨result, middle, returns, fails⟩))
            (fails_bind.2 (.inr ⟨other, middle, alsoReturns, alsoFails⟩))
      | results nextReturns alsoNextReturns sameNext =>
          exact .results (returns_bind.2 ⟨result, middle, returns, nextReturns⟩)
            (returns_bind.2 ⟨other, middle, alsoReturns, alsoNextReturns⟩) sameNext

/-- Actions that always end with the same result are equal. -/
theorem eq_of_forall {left right : Canonicalizing α} {related : α → α → Prop}
    (alike : ∀ before, EndAlike related left right before)
    (eq_of_related : ∀ {result other}, related result other → result = other) : left = right := by
  funext before
  cases alike before with
  | failures fails alsoFails => exact fails.trans alsoFails.symm
  | results returns alsoReturns same =>
      obtain rfl := eq_of_related same
      exact returns.trans alsoReturns.symm

end EndAlike

end Canonicalizing

namespace Expression

open Canonicalizing

variable {K : Type} [Scalar K]

/-- A chain is canonicalized like a sum of its later terms that starts with its first one. -/
theorem canonicalize_chain (first : Expression K) (rest : List (Expression K)) (allowed : Bool) :
    (chain first rest).canonicalize allowed =
      (first.canonicalize allowed >>= fun result => canonicalizeSum allowed result rest) := by
  rw [chain]
  induction rest generalizing first with
  | nil =>
      simp only [List.foldl_nil, canonicalizeSum]
      exact (bind_pure _).symm
  | cons second rest ih =>
      rw [List.foldl_cons, ih]
      simp only [canonicalize, canonicalizeSum, bind_assoc, pure_bind]

theorem endAlike_canonicalizeSum [LawfulZero K] {accumulated other : Canonical K}
    (agrees : accumulated.Agrees other) (allowed : Bool) (terms : List (Expression K))
    (before : Supply) :
    EndAlike Canonical.Agrees (canonicalizeSum allowed accumulated terms)
      (canonicalizeSum allowed other terms) before := by
  induction terms generalizing accumulated other before with
  | nil =>
      simp only [canonicalizeSum]
      exact .results (returns_pure.2 ⟨rfl, rfl⟩) (returns_pure.2 ⟨rfl, rfl⟩) agrees
  | cons term rest ih =>
      simp only [canonicalizeSum]
      apply EndAlike.bind (.refl _ before)
      rintro result _ middle rfl
      exact ih (agrees.add result) middle

theorem endAlike_canonicalize_sum [LawfulZero K] (first : Expression K) (rest : List (Expression K))
    (allowed : Bool) (before : Supply) :
    EndAlike Canonical.Agrees ((sum (first :: rest)).canonicalize allowed)
      ((chain first rest).canonicalize allowed) before := by
  rw [canonicalize_chain]
  simp only [canonicalize, canonicalizeSum]
  apply EndAlike.bind (.refl _ before)
  rintro result _ middle rfl
  exact endAlike_canonicalizeSum (Canonical.agrees_zero_add result) allowed rest middle

/-- Every analysis says the same of both expressions, they have values at the same assignments, and
canonicalization ends alike on them. Numbers are the same up to the signs of zeros. -/
structure Interchangeable (left right : Expression K) : Prop where
  curvature : left.curvature = right.curvature
  sign : left.sign = right.sign
  variableIds : left.variableIds = right.variableIds
  eval : ∀ assignment, Option.Rel EqOrZeros (left.eval assignment) (right.eval assignment)
  canonicalize : ∀ allowed before,
    EndAlike Canonical.Agrees (left.canonicalize allowed) (right.canonicalize allowed) before

namespace Interchangeable

theorem refl (expression : Expression K) : expression.Interchangeable expression where
  curvature := rfl
  sign := rfl
  variableIds := rfl
  eval assignment := by
    cases expression.eval assignment with
    | none => exact .none
    | some value => exact .some (.refl value)
  canonicalize allowed before := by
    cases EndAlike.refl (expression.canonicalize allowed) before with
    | failures fails alsoFails => exact .failures fails alsoFails
    | results returns alsoReturns same =>
        exact .results returns alsoReturns (same ▸ Canonical.Agrees.refl _)

theorem eval_eq {left right : Expression ℚ} (same : left.Interchangeable right)
    (assignment : Assignment ℚ) : left.eval assignment = right.eval assignment :=
  Scalar.eq_of_rel_eqOrZeros (same.eval assignment)

theorem canonicalize_eq {left right : Expression ℚ} (same : left.Interchangeable right)
    (allowed : Bool) : left.canonicalize allowed = right.canonicalize allowed :=
  EndAlike.eq_of_forall (same.canonicalize allowed) Canonical.Agrees.eq

end Interchangeable

theorem interchangeable_sum [LawfulZero K] (first : Expression K) (rest : List (Expression K)) :
    (sum (first :: rest)).Interchangeable (chain first rest) where
  curvature := (curvature_chain first rest).symm
  sign := (sign_chain first rest).symm
  variableIds := congrArg VarId.sortedDistinct (occurrences_chain first rest).symm
  eval _ := eval_sum_eqOrZeros first rest
  canonicalize := endAlike_canonicalize_sum first rest

theorem interchangeable_sumOf [LawfulZero K] (first : Expression K) (rest : List (Expression K)) :
    (sumOf (first :: rest)).Interchangeable (chain first rest) := by
  cases rest with
  | nil => exact .refl first
  | cons second rest => exact interchangeable_sum first (second :: rest)

/-- A sum of one or more terms, as a node of its own or as it is built from the terms, is
interchangeable with the chain that adds them up: over doubles up to the signs of zeros, and over
rational numbers with equal values and equal runs of canonicalization. The curvature and the sign
of a sum do not depend on the order of its terms. -/
theorem sum_interchangeable_with_chain :
    (∀ (K : Type) [Scalar K] [LawfulZero K] (first : Expression K) (rest : List (Expression K)),
      (sum (first :: rest)).Interchangeable (chain first rest) ∧
        (sumOf (first :: rest)).Interchangeable (chain first rest)) ∧
      (∀ (first : Expression ℚ) (rest : List (Expression ℚ)),
        ∀ whole ∈ [sum (first :: rest), sumOf (first :: rest)],
          (∀ assignment, whole.eval assignment = (chain first rest).eval assignment) ∧
            ∀ allowed, whole.canonicalize allowed = (chain first rest).canonicalize allowed) ∧
        ∀ (K : Type) [Scalar K] (terms others : List (Expression K)), terms.Perm others →
          (sum terms).curvature = (sum others).curvature ∧
            (sum terms).sign = (sum others).sign := by
  refine ⟨?interchangeable, ?exact, ?reordered⟩
  case interchangeable =>
    exact fun K _ _ first rest =>
      ⟨interchangeable_sum first rest, interchangeable_sumOf first rest⟩
  case exact =>
    intro first rest whole member
    have same : whole.Interchangeable (chain first rest) := by
      rcases List.mem_pair.1 member with rfl | rfl
      · exact interchangeable_sum first rest
      · exact interchangeable_sumOf first rest
    exact ⟨same.eval_eq, same.canonicalize_eq⟩
  case reordered =>
    exact fun K _ terms others perm => ⟨curvature_sum_of_perm perm, sign_sum_of_perm perm⟩

/-- The square makes the form quadratic midway, and behind a `-0` the sum starts from another zero
than the chain. -/
theorem sum_interchangeable_with_chain_of_late_square :
    let leaf : Variable := ⟨⟨1⟩, some "x", false⟩
    let square : Expression ℚ := .square (.var leaf)
    (sum [.const (-0.0), .var leaf] : Expression Float).Interchangeable
        (.add (.const (-0.0)) (.var leaf)) ∧
      (sum [.const 1, .pos (.var leaf), square]).canonicalize true =
          (add (.add (.const 1) (.pos (.var leaf))) square).canonicalize true ∧
        (sum [square, .neg (.pos (.var leaf))]).curvature = .unknown ∧
          (sum [.neg (.pos (.var leaf)), square]).curvature = .unknown := by
  intro leaf square
  rcases sum_interchangeable_with_chain with ⟨interchangeable, exact, reordered⟩
  have sameCurvature := (reordered ℚ _ _ (.swap square (.neg (.pos (.var leaf))) [])).1
  have unknown : (sum [square, .neg (.pos (.var leaf))]).curvature = .unknown := rfl
  exact ⟨(interchangeable Float (.const (-0.0)) [.var leaf]).1,
    (exact (.const 1) [.pos (.var leaf), square] _ List.mem_cons_self).2 true,
    unknown, sameCurvature.trans unknown⟩

end Expression

end HingeLoss
