import HingeLoss.Variable
import Mathlib.Data.List.Range
import Mathlib.Data.List.Sort
import Mathlib.Tactic.Tauto

/-!
# Drawn variables

A supply only ever moves upwards, so the variables drawn between two of its states are a block of
consecutive numbers. Every number that was issued before lies below the block, and what is drawn
later lies above it.
-/

namespace HingeLoss

namespace VarId

@[simp]
theorem mem_insertSorted {id other : VarId} {ids : List VarId} :
    other ∈ insertSorted id ids ↔ other = id ∨ other ∈ ids := by
  induction ids with
  | nil => simp [insertSorted]
  | cons head rest ih =>
      simp only [insertSorted]
      split
      case h_1 => simp
      case h_2 equal =>
        have same : id = head := Std.LawfulEqOrd.eq_of_compare equal
        simp [same]
      case h_3 =>
        simp only [List.mem_cons, ih]
        tauto

@[simp]
theorem mem_sortedDistinct {id : VarId} {ids : List VarId} :
    id ∈ sortedDistinct ids ↔ id ∈ ids := by
  induction ids with
  | nil => simp [sortedDistinct]
  | cons head rest ih =>
      change id ∈ insertSorted head (sortedDistinct rest) ↔ id ∈ head :: rest
      rw [mem_insertSorted, ih, List.mem_cons]

/-- The numbers go up from each place of the list to the next. -/
def Increasing (ids : List VarId) : Prop :=
  ids.Pairwise fun left right => left.index < right.index

theorem increasing_insertSorted (id : VarId) {ids : List VarId} (increasing : Increasing ids) :
    Increasing (insertSorted id ids) := by
  induction ids with
  | nil => exact List.pairwise_singleton _ id
  | cons head rest ih =>
      rcases List.pairwise_cons.1 increasing with ⟨above, increasingRest⟩
      simp only [insertSorted]
      split
      case h_1 less =>
        have below : id.index < head.index := Nat.compare_eq_lt.1 less
        refine List.pairwise_cons.2 ⟨?_, increasing⟩
        intro other member
        rcases List.mem_cons.1 member with rfl | inRest
        · exact below
        · exact below.trans (above other inRest)
      case h_2 => exact increasing
      case h_3 greater =>
        have beyond : head.index < id.index := Nat.compare_eq_gt.1 greater
        refine List.pairwise_cons.2 ⟨?_, ih increasingRest⟩
        intro other member
        rcases mem_insertSorted.1 member with rfl | inRest
        · exact beyond
        · exact above other inRest

theorem increasing_sortedDistinct (ids : List VarId) : Increasing (sortedDistinct ids) := by
  induction ids with
  | nil => exact List.Pairwise.nil
  | cons head rest ih => exact increasing_insertSorted head ih

namespace Increasing

variable {ids others : List VarId}

theorem nodup (increasing : Increasing ids) : ids.Nodup := by
  apply List.Pairwise.imp _ increasing
  rintro left right below rfl
  exact lt_irrefl _ below

theorem eq_of_mem_iff (increasing : Increasing ids) (otherIncreasing : Increasing others)
    (same : ∀ id, id ∈ ids ↔ id ∈ others) : ids = others := by
  have perm := (List.perm_ext_iff_of_nodup increasing.nodup otherIncreasing.nodup).2 same
  refine perm.eq_of_pairwise ?_ increasing otherIncreasing
  intro left right _ _ below above
  exact absurd (below.trans above) (lt_irrefl _)

end Increasing

end VarId

namespace Supply

/-- The supply after so many numbers have been drawn. -/
def skip (supply : Supply) (count : Nat) : Supply := ⟨supply.next + count⟩

@[simp]
theorem next_skip (supply : Supply) (count : Nat) :
    (supply.skip count).next = supply.next + count := rfl

/-- The number was given away before the supply reached its present state. -/
def Issued (supply : Supply) (id : VarId) : Prop := id.index < supply.next

/-- The numbers that are drawn between two states of a supply, in the order of drawing. -/
def drawn (before after : Supply) : List VarId :=
  (List.range' before.next (after.next - before.next)).map VarId.mk

@[simp]
theorem drawn_self (supply : Supply) : drawn supply supply = [] := by
  simp [drawn]

@[simp]
theorem drawn_draw (supply : Supply) : drawn supply supply.draw.2 = [supply.draw.1] := by
  simp [drawn, draw]

theorem drawn_append {before middle after : Supply} (first : before.next ≤ middle.next)
    (second : middle.next ≤ after.next) :
    drawn before middle ++ drawn middle after = drawn before after := by
  simp only [drawn]
  rw [← List.map_append]
  congr 1
  rcases Nat.exists_eq_add_of_le first with ⟨firstCount, firstEq⟩
  rcases Nat.exists_eq_add_of_le second with ⟨secondCount, secondEq⟩
  rw [secondEq, firstEq]
  have total : before.next + firstCount + secondCount - before.next =
      firstCount + secondCount := by omega
  rw [Nat.add_sub_cancel_left, Nat.add_sub_cancel_left, total, List.range'_append_1]

theorem drawn_snoc {before after : Supply} (moves : before.next ≤ after.next) :
    drawn before after ++ [after.draw.1] = drawn before after.draw.2 := by
  rw [← drawn_draw after]
  exact drawn_append moves (Nat.le_succ _)

@[simp]
theorem mem_drawn {before after : Supply} {id : VarId} :
    id ∈ drawn before after ↔ before.next ≤ id.index ∧ id.index < after.next := by
  rcases id with ⟨index⟩
  simp only [drawn, List.mem_map, List.mem_range'_1, VarId.mk.injEq, exists_eq_right]
  omega

theorem getElem?_drawn {before after : Supply} {place : Nat}
    (inside : before.next + place < after.next) :
    (drawn before after)[place]? = some ⟨before.next + place⟩ := by
  have bound : place < after.next - before.next := by omega
  rw [drawn, List.getElem?_map, List.getElem?_range' bound, Option.map_some, Nat.one_mul]

theorem increasing_drawn (before after : Supply) : VarId.Increasing (drawn before after) := by
  rw [VarId.Increasing, drawn, List.pairwise_map]
  exact List.pairwise_lt_range'

theorem Issued.mono {before after : Supply} {id : VarId} (issued : before.Issued id)
    (moves : before.next ≤ after.next) : after.Issued id :=
  Nat.lt_of_lt_of_le issued moves

/-- What was issued before is not drawn again. -/
theorem Issued.not_mem_drawn {before after : Supply} {id : VarId} (issued : before.Issued id) :
    id ∉ drawn before after := by
  intro member
  have notBelow := (mem_drawn.1 member).1
  simp only [Issued] at issued
  omega

@[simp]
theorem index_draw (supply : Supply) : supply.draw.1.index = supply.next := rfl

end Supply

end HingeLoss
