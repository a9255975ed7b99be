import HingeLoss.Program.Conic
import HingeLoss.Proofs.Scalar

/-!
# Rows and cones

The rows of a program are the forms of its cone constraints, sorted by the kind of their cone and
cut into blocks by the layout. A list of numbers lies in the product of the cones if each of its
blocks lies in its own cone.
-/

namespace HingeLoss

namespace ConeKind

/-- The cone of this kind contains the list of numbers. -/
def Contains : ConeKind → List ℚ → Prop
  | .zero, entries => ∀ entry ∈ entries, entry = 0
  | .nonneg, entries => ∀ entry ∈ entries, 0 ≤ entry
  | .secondOrder, [] => True
  | .secondOrder, bound :: entries =>
      0 ≤ bound ∧ (entries.map fun entry => entry * entry).sum ≤ bound * bound

end ConeKind

namespace ConeBlock

/-- Each block begins where the one before it ends, the first at the given row. -/
def Contiguous : Nat → List ConeBlock → Prop
  | _, [] => True
  | start, block :: rest => block.start = start ∧ Contiguous (start + block.size) rest

theorem contiguous_append {start : Nat} {front back : List ConeBlock} :
    Contiguous start (front ++ back) ↔
      Contiguous start front ∧ Contiguous (start + (front.map size).sum) back := by
  induction front generalizing start with
  | nil => simp [Contiguous]
  | cons block rest ih => simp [Contiguous, ih, and_assoc, Nat.add_assoc]

end ConeBlock

namespace ConeLayout

section Blocks

variable {kind : ConeKind} {start size : Nat}

theorem contiguous_optional :
    ConeBlock.Contiguous start (if size = 0 then [] else [⟨kind, start, size⟩]) := by
  split
  · trivial
  · exact ⟨rfl, trivial⟩

theorem sum_optional :
    ((if size = 0 then [] else [(⟨kind, start, size⟩ : ConeBlock)]).map ConeBlock.size).sum =
      size := by
  split
  case isTrue empty => exact empty.symm
  case isFalse => exact Nat.add_zero size

theorem contiguous_secondOrderBlocks (sizes : List Nat) :
    ConeBlock.Contiguous start (secondOrderBlocks start sizes) := by
  induction sizes generalizing start with
  | nil => trivial
  | cons size rest ih => exact ⟨rfl, ih⟩

theorem map_secondOrderBlocks (sizes : List Nat) :
    (secondOrderBlocks start sizes).map (fun block => (block.kind, block.size)) =
      sizes.map fun size => (.secondOrder, size) := by
  induction sizes generalizing start with
  | nil => rfl
  | cons size rest ih => rw [secondOrderBlocks, List.map_cons, ih, List.map_cons]

theorem sum_secondOrderBlocks (sizes : List Nat) :
    ((secondOrderBlocks start sizes).map ConeBlock.size).sum = sizes.sum := by
  induction sizes generalizing start with
  | nil => rfl
  | cons size rest ih => rw [secondOrderBlocks, List.map_cons, List.sum_cons, ih, List.sum_cons]

/-- The cones of the blocks in order, those of the first two kinds only if they have rows. -/
theorem map_blocks (layout : ConeLayout) :
    layout.blocks.map (fun block => (block.kind, block.size)) =
      [(.zero, layout.zero), (.nonneg, layout.nonneg)].filter (fun cone => cone.2 ≠ 0) ++
        layout.secondOrder.map fun size => (.secondOrder, size) := by
  rw [blocks, List.map_append, List.map_append, map_secondOrderBlocks]
  by_cases noZeros : layout.zero = 0 <;> by_cases noNonnegs : layout.nonneg = 0 <;>
    simp [noZeros, noNonnegs]

theorem sum_blocks (layout : ConeLayout) :
    (layout.blocks.map ConeBlock.size).sum = layout.total := by
  rw [blocks, List.map_append, List.map_append, List.sum_append, List.sum_append, sum_optional,
    sum_optional, sum_secondOrderBlocks, total, List.sum_eq_foldr]

/-- The blocks lie one behind the other, also if the first kinds of cones have no block. -/
theorem contiguous_blocks (layout : ConeLayout) : ConeBlock.Contiguous 0 layout.blocks := by
  rw [blocks, ConeBlock.contiguous_append, ConeBlock.contiguous_append, List.map_append,
    List.sum_append, sum_optional, sum_optional, Nat.zero_add, Nat.zero_add]
  exact ⟨⟨contiguous_optional, contiguous_optional⟩, contiguous_secondOrderBlocks _⟩

end Blocks

/-- The product of the cones of the layout contains the slack, which is cut into blocks. -/
def Contains (layout : ConeLayout) (slack : List ℚ) : Prop :=
  ∀ block ∈ layout.blocks, block.kind.Contains ((slack.drop block.start).take block.size)

theorem forall_secondOrderBlocks_iff (front : List ℚ) (parts : List (List ℚ)) :
    (∀ block ∈ secondOrderBlocks front.length (parts.map List.length),
        block.kind.Contains (((front ++ parts.flatten).drop block.start).take block.size)) ↔
      ∀ part ∈ parts, ConeKind.secondOrder.Contains part := by
  induction parts generalizing front with
  | nil => simp [secondOrderBlocks]
  | cons part rest ih =>
      have shifted := ih (front ++ part)
      rw [List.length_append, List.append_assoc] at shifted
      simp only [List.map_cons, secondOrderBlocks, List.flatten_cons, List.forall_mem_cons,
        shifted, List.drop_left, List.take_left]

/-- The product of cones is met block by block. -/
theorem contains_append_iff (zeros nonnegs : List ℚ) (parts : List (List ℚ)) :
    (⟨zeros.length, nonnegs.length, parts.map List.length⟩ : ConeLayout).Contains
        (zeros ++ nonnegs ++ parts.flatten) ↔
      (∀ entry ∈ zeros, entry = 0) ∧ (∀ entry ∈ nonnegs, 0 ≤ entry) ∧
        ∀ part ∈ parts, ConeKind.secondOrder.Contains part := by
  have tail := forall_secondOrderBlocks_iff (zeros ++ nonnegs) parts
  rw [List.length_append] at tail
  simp only [Contains, blocks]
  rw [List.forall_mem_append, List.forall_mem_append, tail, and_assoc]
  refine and_congr ?_ (and_congr ?_ Iff.rfl)
  · split
    case isTrue empty =>
      rw [List.length_eq_zero_iff] at empty
      simp [empty]
    case isFalse =>
      simp [ConeKind.Contains, List.append_assoc]
  · split
    case isTrue empty =>
      rw [List.length_eq_zero_iff] at empty
      simp [empty]
    case isFalse =>
      simp [ConeKind.Contains, List.append_assoc]

end ConeLayout

namespace ConicProgram

section Rows

variable {K : Type}

def zeroForms (cones : List (Cone K)) : List (LinearForm K) :=
  cones.filterMap fun
    | .zero form => some form
    | _ => none

def nonnegForms (cones : List (Cone K)) : List (LinearForm K) :=
  cones.filterMap fun
    | .nonneg form => some form
    | _ => none

def secondOrderForms (cones : List (Cone K)) : List (LinearForm K × List (LinearForm K)) :=
  cones.filterMap fun
    | .secondOrder bound entries => some (bound, entries)
    | _ => none

theorem rowsOf_eq (cones : List (Cone K)) :
    rowsOf cones = (zeroForms cones).map (fun form => ⟨form, false⟩) ++
      (nonnegForms cones).map (fun form => ⟨form, true⟩) ++
        (secondOrderForms cones).flatMap fun part =>
          (part.1 :: part.2).map fun form => ⟨form, true⟩ := by
  have zeros : cones.filterMap (fun
      | .zero form => some (⟨form, false⟩ : Row K)
      | _ => none) = (zeroForms cones).map fun form => ⟨form, false⟩ := by
    rw [zeroForms, List.map_filterMap]
    apply List.filterMap_congr
    intro cone _
    cases cone <;> rfl
  have nonnegs : cones.filterMap (fun
      | .nonneg form => some (⟨form, true⟩ : Row K)
      | _ => none) = (nonnegForms cones).map fun form => ⟨form, true⟩ := by
    rw [nonnegForms, List.map_filterMap]
    apply List.filterMap_congr
    intro cone _
    cases cone <;> rfl
  have secondOrders : cones.flatMap (fun
      | .secondOrder bound entries =>
          (bound :: entries).map fun form => (⟨form, true⟩ : Row K)
      | _ => []) = (secondOrderForms cones).flatMap fun part =>
          (part.1 :: part.2).map fun form => ⟨form, true⟩ := by
    clear zeros nonnegs
    induction cones with
    | nil => rfl
    | cons cone rest ih =>
        rw [List.flatMap_cons, ih]
        cases cone <;> rfl
  exact congrArg₂ (· ++ ·) (congrArg₂ (· ++ ·) zeros nonnegs) secondOrders

theorem layoutOf_eq (cones : List (Cone K)) :
    layoutOf cones = ⟨(zeroForms cones).length, (nonnegForms cones).length,
      (secondOrderForms cones).map fun part => (part.1 :: part.2).length⟩ := by
  induction cones with
  | nil => rfl
  | cons cone rest ih =>
      rw [layoutOf, ConeLayout.mk.injEq] at ih ⊢
      rcases ih with ⟨zeros, nonnegs, secondOrders⟩
      rw [List.countP_cons, List.countP_cons, List.filterMap_cons, zeros, nonnegs, secondOrders]
      cases cone with
      | zero form => exact ⟨rfl, rfl, rfl⟩
      | nonneg form => exact ⟨rfl, rfl, rfl⟩
      | secondOrder bound entries =>
          exact ⟨rfl, rfl, congrArg (List.cons · _) (Nat.add_comm 1 entries.length)⟩

theorem length_rowsOf (cones : List (Cone K)) :
    (rowsOf cones).length = (cones.map Cone.dimension).sum := by
  rw [rowsOf_eq]
  induction cones with
  | nil => rfl
  | cons cone rest ih =>
      rw [List.map_cons, List.sum_cons, ← ih]
      cases cone <;> simp [zeroForms, nonnegForms, secondOrderForms, Cone.dimension] <;> omega

theorem rowsOf_map_nonneg (forms : List (LinearForm K)) :
    rowsOf (forms.map .nonneg) = forms.map fun form => ⟨form, true⟩ := by
  simp [rowsOf_eq, zeroForms, nonnegForms, secondOrderForms, List.filterMap_map]

theorem layoutOf_map_nonneg (forms : List (LinearForm K)) :
    layoutOf (forms.map .nonneg) = ⟨0, forms.length, []⟩ := by
  simp [layoutOf_eq, zeroForms, nonnegForms, secondOrderForms, List.filterMap_map]

/-- A property of all constraints is one of the forms of each kind. -/
theorem forall_mem_cones_iff {Property : Cone K → Prop} (cones : List (Cone K)) :
    (∀ cone ∈ cones, Property cone) ↔
      (∀ form ∈ zeroForms cones, Property (.zero form)) ∧
        (∀ form ∈ nonnegForms cones, Property (.nonneg form)) ∧
          ∀ part ∈ secondOrderForms cones, Property (.secondOrder part.1 part.2) := by
  induction cones with
  | nil => simp [zeroForms, nonnegForms, secondOrderForms]
  | cons cone rest ih =>
      rw [List.forall_mem_cons, ih]
      cases cone with
      | zero form =>
          change _ ↔ (∀ other ∈ form :: zeroForms rest, _) ∧ _
          rw [List.forall_mem_cons, and_assoc]
          rfl
      | nonneg form =>
          change _ ↔ _ ∧ (∀ other ∈ form :: nonnegForms rest, _) ∧ _
          rw [List.forall_mem_cons, and_left_comm, and_assoc]
          rfl
      | secondOrder bound entries =>
          change _ ↔ _ ∧ _ ∧ ∀ part ∈ (bound, entries) :: secondOrderForms rest, _
          rw [List.forall_mem_cons, and_left_comm]
          exact and_congr_right fun _ => and_left_comm

theorem exists_cone_of_mem_rowsOf {cones : List (Cone K)} {row : Row K}
    (member : row ∈ rowsOf cones) : ∃ cone ∈ cones, row.form ∈ cone.forms := by
  have each : ∀ cone ∈ cones, ∀ form ∈ cone.forms, ∃ other ∈ cones, form ∈ other.forms :=
    fun cone cone_mem form form_mem => ⟨cone, cone_mem, form_mem⟩
  rcases (forall_mem_cones_iff cones).1 each with ⟨zeros, nonnegs, secondOrders⟩
  rw [rowsOf_eq] at member
  simp only [List.mem_append, List.mem_map, List.mem_flatMap] at member
  rcases member with (⟨form, form_mem, rfl⟩ | ⟨form, form_mem, rfl⟩) | ⟨part, part_mem, inPart⟩
  · exact zeros form form_mem form (by simp [Cone.forms])
  · exact nonnegs form form_mem form (by simp [Cone.forms])
  · rcases inPart with ⟨form, form_mem, rfl⟩
    exact secondOrders part part_mem form form_mem

theorem exists_mem_rowsOf {cones : List (Cone K)} {cone : Cone K} (cone_mem : cone ∈ cones)
    {form : LinearForm K} (form_mem : form ∈ cone.forms) :
    ∃ row ∈ rowsOf cones, row.form = form := by
  have each : ∀ cone ∈ cones, ∀ form ∈ cone.forms, ∃ row ∈ rowsOf cones, row.form = form := by
    rw [forall_mem_cones_iff, rowsOf_eq]
    refine ⟨?_, ?_, ?_⟩
    · intro form form_mem other other_mem
      rw [List.mem_singleton.1 other_mem]
      exact ⟨⟨form, false⟩, by simp [form_mem], rfl⟩
    · intro form form_mem other other_mem
      rw [List.mem_singleton.1 other_mem]
      exact ⟨⟨form, true⟩, by simp [form_mem], rfl⟩
    · intro part part_mem form form_mem
      refine ⟨⟨form, true⟩, List.mem_append_right _ (List.mem_flatMap.2 ⟨part, part_mem, ?_⟩), rfl⟩
      exact List.mem_map_of_mem form_mem
  exact each cone cone_mem form form_mem

end Rows

end ConicProgram

end HingeLoss
