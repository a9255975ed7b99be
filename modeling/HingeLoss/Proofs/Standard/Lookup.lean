import HingeLoss.Proofs.Scalar.Arithmetic
import HingeLoss.Proofs.Standard.Scope

/-!
# Coefficients by key

What is looked up in a coefficient map after an operation is decided by what was looked up before.
This is the view of a form that does not care for the order of its entries, and it holds for numbers
of any kind: a coefficient is the sum of what was added to it, in the order in which it was added.
-/

namespace HingeLoss

namespace Coefficients

variable {κ K : Type} [Ord κ] [DecidableEq κ]

theorem get?_single (key other : κ) (coefficient : K) :
    (single key coefficient).get? other = if other = key then some coefficient else none := by
  rw [get?, single, List.lookup_cons]
  by_cases same : other = key
  · simp [same]
  · rw [beq_false_of_ne same, if_neg same]
    rfl

theorem get?_scale [Scalar K] (coefficients : Coefficients κ K) (factor : K) (key : κ) :
    (coefficients.scale factor).get? key = (coefficients.get? key).map (· * factor) := by
  simp only [get?, scale, map]
  induction coefficients.entries with
  | nil => rfl
  | cons head rest ih =>
      rw [List.map_cons, List.lookup_cons, List.lookup_cons, ih]
      split
      · rfl
      · rfl

omit [DecidableEq κ] in
theorem ne_of_compare_eq_lt [Std.TransOrd κ] {key other : κ} (less : compare key other = .lt) :
    key ≠ other := by
  rintro rfl
  have equal : compare key key = .eq := Std.ReflCmp.compare_self
  rw [equal] at less
  exact Ordering.noConfusion less

theorem lookup_eq_none_of_lt [Std.TransOrd κ] {key : κ} {entries : List (κ × K)}
    (above : ∀ entry ∈ entries, compare key entry.1 = .lt) : entries.lookup key = none := by
  rw [List.lookup_eq_none_iff]
  intro entry member
  exact bne_iff_ne.2 (ne_of_compare_eq_lt (above entry member))

theorem filter_eq_toList_get? [Std.TransOrd κ] [Std.LawfulEqOrd κ]
    (coefficients : Coefficients κ K) (key : κ) :
    coefficients.entries.filter (fun entry => entry.1 == key) =
      (coefficients.get? key).toList.map fun coefficient => (key, coefficient) := by
  rcases coefficients with ⟨entries, increasing⟩
  simp only [get?]
  unfold KeysIncrease at increasing
  induction entries with
  | nil => rfl
  | cons head rest ih =>
      rcases head with ⟨headKey, coefficient⟩
      rcases List.pairwise_cons.1 increasing with ⟨above, restIncreasing⟩
      rw [List.lookup_cons]
      by_cases same : headKey = key
      · subst same
        have absent : rest.filter (fun entry => entry.1 == headKey) = [] := by
          rw [List.filter_eq_nil_iff]
          intro entry member equal
          exact ne_of_compare_eq_lt (above entry member) (beq_iff_eq.1 equal).symm
        simp [absent]
      · have different : (key == headKey) = false := beq_false_of_ne (Ne.symm same)
        rw [List.filter_cons_of_neg (by simpa using same), different]
        exact ih restIncreasing

omit [DecidableEq κ] in
theorem updateEntries_of_lt [Std.TransOrd κ] {key : κ} (update : Option K → K)
    {entries : List (κ × K)} (below : ∀ entry ∈ entries, compare entry.1 key = .lt) :
    updateEntries key update entries = entries ++ [(key, update none)] := by
  induction entries with
  | nil => rfl
  | cons head rest ih =>
      rw [List.forall_mem_cons] at below
      have after : compare key head.1 = .gt := Std.OrientedCmp.gt_iff_lt.2 below.1
      simp only [updateEntries, after, ih below.2, List.cons_append]

section Adding

variable [Std.TransOrd κ] [Std.LawfulEqOrd κ]

omit [Std.TransOrd κ] in
theorem lookup_updateEntries_of_ne {key other : κ} (different : other ≠ key)
    (update : Option K → K) (entries : List (κ × K)) :
    (updateEntries key update entries).lookup other = entries.lookup other := by
  have notSame : (other == key) = false := beq_false_of_ne different
  induction entries with
  | nil => rw [updateEntries, List.lookup_cons, notSame]
  | cons head rest ih =>
      rcases head with ⟨headKey, coefficient⟩
      simp only [updateEntries]
      split
      case h_1 before => rw [List.lookup_cons, notSame]
      case h_2 equal =>
        rw [← Std.LawfulEqOrd.eq_of_compare equal, List.lookup_cons, List.lookup_cons, notSame]
      case h_3 after => rw [List.lookup_cons, List.lookup_cons, ih]

theorem lookup_updateEntries_self (key : κ) (update : Option K → K) {entries : List (κ × K)}
    (increasing : KeysIncrease entries) :
    (updateEntries key update entries).lookup key = some (update (entries.lookup key)) := by
  unfold KeysIncrease at increasing
  induction entries with
  | nil => simp [updateEntries]
  | cons head rest ih =>
      rcases head with ⟨headKey, coefficient⟩
      rcases List.pairwise_cons.1 increasing with ⟨above, restIncreasing⟩
      simp only [updateEntries]
      split
      case h_1 before =>
        have absent : ((headKey, coefficient) :: rest).lookup key = none := by
          apply lookup_eq_none_of_lt
          rw [List.forall_mem_cons]
          refine ⟨before, ?_⟩
          intro entry member
          exact Std.TransCmp.lt_trans before (above entry member)
        rw [absent, List.lookup_cons_self]
      case h_2 equal =>
        rw [← Std.LawfulEqOrd.eq_of_compare equal, List.lookup_cons_self, List.lookup_cons_self]
      case h_3 after =>
        have below : compare headKey key = .lt := Std.OrientedCmp.gt_iff_lt.1 after
        have different : (key == headKey) = false :=
          beq_false_of_ne (ne_of_compare_eq_lt below).symm
        rw [List.lookup_cons, List.lookup_cons, different]
        exact ih restIncreasing

variable [Scalar K]

theorem get?_addAt (coefficients : Coefficients κ K) (key other : κ) (added : K) :
    (coefficients.addAt key added).get? other =
      if other = key then some ((coefficients.get? key).getD 0 + added)
      else coefficients.get? other := by
  by_cases same : other = key
  · rw [if_pos same, same]
    exact lookup_updateEntries_self key _ coefficients.increasing
  · rw [if_neg same]
    exact lookup_updateEntries_of_ne same _ _

/-- A coefficient that both maps have is added to the one on the left. -/
theorem get?_add (left right : Coefficients κ K) (key : κ) :
    (left.add right).get? key =
      (right.get? key).elim (left.get? key) fun added =>
        some ((left.get? key).getD 0 + added) := by
  have collected : ∀ (entries : List (κ × K)) (sum : Coefficients κ K),
      KeysIncrease entries →
        (entries.foldl (fun sum entry => sum.addAt entry.1 entry.2) sum).get? key =
          (entries.lookup key).elim (sum.get? key) fun added =>
            some ((sum.get? key).getD 0 + added) := by
    intro entries
    unfold KeysIncrease
    induction entries with
    | nil => exact fun sum _ => rfl
    | cons entry rest ih =>
        intro sum increasing
        rcases List.pairwise_cons.1 increasing with ⟨above, restIncreasing⟩
        rw [List.foldl_cons, ih _ restIncreasing, List.lookup_cons, get?_addAt]
        by_cases same : key = entry.1
        · have absent : rest.lookup key = none := lookup_eq_none_of_lt (same ▸ above)
          rw [absent, same]
          simp
        · rw [beq_false_of_ne same, if_neg same]
  exact collected right.entries left right.increasing

omit [DecidableEq κ] in
/-- Coefficients of larger keys are put behind the others, each of them added to zero. -/
theorem entries_add_of_lt {left right : Coefficients κ K}
    (below : ∀ entry ∈ left.entries, ∀ added ∈ right.entries, compare entry.1 added.1 = .lt) :
    (left.add right).entries =
      left.entries ++ right.entries.map fun added => (added.1, 0 + added.2) := by
  have collected : ∀ (rest : List (κ × K)) (sum : Coefficients κ K), KeysIncrease rest →
      (∀ entry ∈ sum.entries, ∀ added ∈ rest, compare entry.1 added.1 = .lt) →
        (rest.foldl (fun sum added => sum.addAt added.1 added.2) sum).entries =
          sum.entries ++ rest.map fun added => (added.1, 0 + added.2) := by
    intro rest
    unfold KeysIncrease
    induction rest with
    | nil => simp
    | cons head rest ih =>
        intro sum increasing below
        rcases List.pairwise_cons.1 increasing with ⟨above, restIncreasing⟩
        have appended : (sum.addAt head.1 head.2).entries =
            sum.entries ++ [(head.1, 0 + head.2)] :=
          updateEntries_of_lt _ fun entry member => below entry member head List.mem_cons_self
        rw [List.foldl_cons, ih _ restIncreasing, appended, List.append_assoc,
          List.singleton_append, List.map_cons]
        rw [appended, List.forall_mem_append, List.forall_mem_singleton]
        refine ⟨?_, above⟩
        intro entry member added inRest
        exact below entry member added (List.mem_cons_of_mem _ inRest)
  exact collected right.entries left right.increasing below

end Adding

end Coefficients

end HingeLoss
