import HingeLoss.Proofs.Standard.WeightedSums
import Mathlib.Data.List.Forall2

/-!
# Charges on numbered variables

An objective that is made of multiples of single variables and of their squares charges each
variable on its own. If every part charges a later variable than the parts before, then the charges
of the sum are those of its parts, one behind the other, and they arrive as they are: the sums and
products that are taken on the way are sums with zeros and products with ones.
-/

namespace HingeLoss

open Scalar (Same)

theorem VarId.compare_squares_eq_lt {left right : VarId} :
    compare (left, left) (right, right) = .lt ↔ left.index < right.index := by
  have less : compare left right = .lt ↔ left.index < right.index := Nat.compare_eq_lt
  change compareLex (compareOn Prod.fst) (compareOn Prod.snd) (left, left) (right, right) = .lt ↔ _
  simp only [compareLex, compareOn, Ordering.then_eq_lt, less]
  tauto

theorem forall₂_exists_of_mem {α β : Type} {R : α → β → Prop} {items : List α} {others : List β}
    (related : List.Forall₂ R items others) {item : α} (member : item ∈ items) :
    ∃ other ∈ others, R item other := by
  induction related with
  | nil => simp at member
  | cons first _ ih =>
      rcases List.mem_cons.1 member with rfl | inRest
      · exact ⟨_, List.mem_cons_self, first⟩
      · rcases ih inRest with ⟨other, other_mem, related⟩
        exact ⟨other, List.mem_cons_of_mem _ other_mem, related⟩

namespace StandardForm

variable {K : Type} [Scalar K]

section Sums

variable (left right : StandardForm K)

theorem products_add : (left.add right).toQuadratic.products =
    left.toQuadratic.products.add right.toQuadratic.products := by
  cases left <;> cases right <;> rfl

theorem coefficientAt_add (id : VarId) : (left.add right).toQuadratic.linear.coefficientAt id =
    (left.toQuadratic.linear.add right.toQuadratic.linear).coefficientAt id := by
  cases left <;> cases right <;> rfl

theorem constant_add : (left.add right).toQuadratic.constant =
    left.toQuadratic.constant + right.toQuadratic.constant := by
  cases left <;> cases right <;> rfl

end Sums

/-- Over variables that are numbered from the supply on, the form consists of linear costs for the
first of them, and of multiples of squares, each given with the place of its variable. -/
structure Charges (before : Supply) (costs : List K) (squares : List (Nat × K))
    (form : StandardForm K) : Prop where
  products : List.Forall₂ (fun product square =>
      product.1 = (⟨before.next + square.1⟩, ⟨before.next + square.1⟩) ∧ Same product.2 square.2)
    form.toQuadratic.products.entries squares
  linear : ∀ place, Same (form.toQuadratic.linear.coefficientAt ⟨before.next + place⟩)
    (costs[place]?.getD 0)
  constant : Same form.toQuadratic.constant 0

namespace Charges

theorem getD_replicate_zero (count place : Nat) :
    (List.replicate count (0 : K))[place]?.getD 0 = 0 := by
  rw [List.getElem?_replicate]
  split
  · rfl
  · rfl

theorem getD_replicate_zero_snoc (count place : Nat) (cost : K) :
    (List.replicate count 0 ++ [cost])[place]?.getD 0 = if place = count then cost else 0 := by
  rw [List.getElem?_append, List.length_replicate]
  split
  case isTrue inside => rw [getD_replicate_zero, if_neg inside.ne]
  case isFalse outside =>
    split
    case isTrue same => simp [same]
    case isFalse different =>
      have beyond : 1 ≤ place - count := by omega
      rw [List.getElem?_eq_none beyond, Option.getD_none]

variable [LawfulArithmetic K]

/-- No costs at all. -/
theorem zero (before : Supply) (count : Nat) :
    Charges before (List.replicate count (0 : K)) [] (.linear (.ofConstant 0)) where
  products := .nil
  linear place := by
    rw [getD_replicate_zero]
    exact LawfulArithmetic.same_zero
  constant := LawfulArithmetic.same_zero

theorem linearCost (before : Supply) (count : Nat) {weight : K}
    (finite : Scalar.isFinite weight = true) :
    Charges before (List.replicate count 0 ++ [weight]) []
      (.linear ((LinearForm.ofVariable ⟨before.next + count⟩).scale weight)) where
  products := .nil
  linear place := by
    rw [getD_replicate_zero_snoc]
    change Same ((((LinearForm.ofVariable _).scale weight).coefficients.get? _).getD 0) _
    rw [LinearForm.get?_scale_ofVariable finite]
    simp only [VarId.mk.injEq, Nat.add_left_cancel_iff]
    split
    · exact LawfulArithmetic.same_of_isFinite finite
    · exact LawfulArithmetic.same_zero
  constant := LawfulArithmetic.zero_mul_same finite

theorem squareCost (before : Supply) (count : Nat) {weight : K}
    (finite : Scalar.isFinite weight = true) :
    Charges before (List.replicate count 0 ++ [0]) [(count, weight)]
      (.quadratic ((QuadraticForm.square ⟨before.next + count⟩ 1).scale weight)) where
  products := by
    apply List.Forall₂.cons _ .nil
    refine ⟨rfl, ?_⟩
    change Same (1 * weight) weight
    rw [LawfulArithmetic.one_mul finite]
    exact LawfulArithmetic.same_of_isFinite finite
  linear place := by
    rw [getD_replicate_zero_snoc, ite_self]
    exact LawfulArithmetic.same_zero
  constant := LawfulArithmetic.zero_mul_same finite

variable {before : Supply} {costs : List K} {squares others : List (Nat × K)} {cost : K}
  {left right : StandardForm K}

/-- The charges of a sum are those of its parts, if they are on different variables. -/
theorem add (fromLeft : Charges before costs squares left)
    (fromRight : Charges before (List.replicate costs.length 0 ++ [cost]) others right)
    (below : ∀ square ∈ squares, square.1 < costs.length)
    (own : ∀ square ∈ others, square.1 = costs.length) :
    Charges before (costs ++ [cost]) (squares ++ others) (left.add right) where
  products := by
    have later : ∀ product ∈ left.toQuadratic.products.entries,
        ∀ added ∈ right.toQuadratic.products.entries, compare product.1 added.1 = .lt := by
      intro product member added added_mem
      rcases forall₂_exists_of_mem fromLeft.products member with ⟨square, square_mem, key, -⟩
      rcases forall₂_exists_of_mem fromRight.products added_mem with ⟨other, other_mem, addedKey, -⟩
      rw [key, addedKey]
      apply VarId.compare_squares_eq_lt.2
      have inside := below square square_mem
      have atEnd := own other other_mem
      change before.next + square.1 < before.next + other.1
      omega
    rw [products_add, Coefficients.entries_add_of_lt later]
    apply List.rel_append fromLeft.products
    rw [List.forall₂_map_left_iff]
    apply fromRight.products.imp
    rintro added square ⟨key, same⟩
    exact ⟨key, (LawfulArithmetic.zero_add_same LawfulArithmetic.same_zero same.left).trans same⟩
  linear place := by
    have atLeft := fromLeft.linear place
    have atRight := fromRight.linear place
    rw [getD_replicate_zero_snoc] at atRight
    rw [coefficientAt_add]
    rcases Nat.lt_trichotomy place costs.length with inside | rfl | beyond
    · rw [if_neg inside.ne] at atRight
      rw [List.getElem?_append_left inside]
      exact (LinearForm.coefficientAt_add_of_right_zero atRight atLeft.left).trans atLeft
    · rw [if_pos rfl] at atRight
      rw [List.getElem?_eq_none le_rfl] at atLeft
      rw [List.getElem?_concat_length, Option.getD_some]
      exact (LinearForm.coefficientAt_add_of_left_zero atLeft atRight.left).trans atRight
    · rw [if_neg beyond.ne'] at atRight
      have nothing : (costs ++ [cost])[place]? = none := by simp; omega
      rw [List.getElem?_eq_none beyond.le] at atLeft
      rw [nothing]
      exact (LinearForm.coefficientAt_add_of_right_zero atRight atLeft.left).trans atLeft
  constant := by
    rw [constant_add]
    exact (LawfulArithmetic.add_zero_same fromLeft.constant.left fromRight.constant).trans
      fromLeft.constant

end Charges

end StandardForm

end HingeLoss
