import HingeLoss.Failure
import Mathlib.Data.List.Forall2

/-!
# Steps that may fail

A sequence of steps succeeds if all of its steps do, and a list of steps then succeeds with the list
of their results.
-/

namespace HingeLoss

variable {ε α β : Type}

@[simp]
theorem ok_bind (value : α) (next : α → Except ε β) : (Except.ok value >>= next) = next value := rfl

@[simp]
theorem throw_ne_ok {reason : ε} {result : α} : (throw reason : Except ε α) ≠ .ok result := by
  simp [throw, throwThe, MonadExceptOf.throw]

@[simp]
theorem pure_eq_ok_iff {value result : α} :
    (pure value : Except ε α) = .ok result ↔ value = result := by
  simp [pure, Except.pure]

theorem mapError_eq_ok_iff {φ : Type} {step : Except ε α} {wording : ε → φ} {result : α} :
    step.mapError wording = .ok result ↔ step = .ok result := by
  cases step with
  | ok value =>
      change Except.ok value = .ok result ↔ _
      simp
  | error cause => exact ⟨nofun, nofun⟩

theorem mapError_eq_error_iff {φ : Type} {step : Except ε α} {wording : ε → φ} {reason : φ} :
    step.mapError wording = .error reason ↔
      ∃ cause, step = .error cause ∧ wording cause = reason := by
  cases step with
  | ok value => exact ⟨nofun, fun ⟨_, failed, _⟩ => nomatch failed⟩
  | error cause =>
      change Except.error (wording cause) = .error reason ↔ _
      simp

theorem toOption_eq_some_iff {step : Except ε α} {result : α} :
    step.toOption = some result ↔ step = .ok result := by
  cases step <;> simp [Except.toOption]

theorem bind_eq_ok_iff {step : Except ε α} {next : α → Except ε β} {result : β} :
    step >>= next = .ok result ↔ ∃ value, step = .ok value ∧ next value = .ok result := by
  cases step with
  | ok value => simp [bind, Except.bind]
  | error reason => simp [bind, Except.bind]

/-- A last step that only puts the result together does not decide about success. -/
theorem exists_bind_pure_eq_ok_iff {step : Except ε α} {finish : α → β} :
    (∃ result, (do let value ← step; return finish value) = .ok result) ↔
      ∃ value, step = .ok value := by
  cases step with
  | ok value => simp [bind, Except.bind, pure, Except.pure]
  | error reason => simp [bind, Except.bind]

theorem check_bind_eq_ok_iff {check : Except ε Unit} {next : Unit → Except ε α} {result : α} :
    check >>= next = .ok result ↔ check = .ok () ∧ next () = .ok result := by
  rw [bind_eq_ok_iff]
  exact ⟨fun ⟨(), checked, rest⟩ => ⟨checked, rest⟩, fun ⟨checked, rest⟩ => ⟨(), checked, rest⟩⟩

/-- A step that comes first fails first. -/
theorem bind_eq_error_iff {step : Except ε α} {next : α → Except ε β} {reason : ε} :
    step >>= next = .error reason ↔
      step = .error reason ∨ ∃ value, step = .ok value ∧ next value = .error reason := by
  cases step with
  | ok value => simp [bind, Except.bind]
  | error cause => simp [bind, Except.bind]

theorem check_bind_eq_error_iff {check : Except ε Unit} {next : Unit → Except ε α} {reason : ε} :
    check >>= next = .error reason ↔
      check = .error reason ∨ check = .ok () ∧ next () = .error reason := by
  rw [bind_eq_error_iff]
  exact or_congr_right ⟨fun ⟨(), checked⟩ => checked, fun checked => ⟨(), checked⟩⟩

/-- An item of a list, with what stands before it, is the head or such an item of the rest. -/
theorem exists_split_cons_iff {head : α} {rest : List α} {Property : List α → α → Prop} :
    (∃ before item after, head :: rest = before ++ item :: after ∧ Property before item) ↔
      Property [] head ∨
        ∃ before item after, rest = before ++ item :: after ∧ Property (head :: before) item := by
  constructor
  · rintro ⟨before, item, after, split, holds⟩
    cases before with
    | nil =>
        obtain ⟨rfl, rfl⟩ : head = item ∧ rest = after := by simpa using split
        exact .inl holds
    | cons first before =>
        obtain ⟨rfl, rfl⟩ : head = first ∧ rest = before ++ item :: after := by simpa using split
        exact .inr ⟨before, item, after, rfl, holds⟩
  · rintro (holds | ⟨before, item, after, rfl, holds⟩)
    · exact ⟨[], head, rest, rfl, holds⟩
    · exact ⟨head :: before, item, after, rfl, holds⟩

theorem mapM_eq_ok {action : α → Except ε β} {result : α → β} {items : List α}
    (each : ∀ item ∈ items, action item = .ok (result item)) :
    items.mapM action = .ok (items.map result) := by
  induction items with
  | nil => rfl
  | cons item rest ih =>
      rw [List.forall_mem_cons] at each
      rw [List.mapM_cons, each.1, ih each.2]
      rfl

theorem exists_eq_ok_of_mapM_eq_ok {action : α → Except ε β} {items : List α} {results : List β}
    (all : items.mapM action = .ok results) :
    ∀ item ∈ items, ∃ result, action item = .ok result := by
  induction items generalizing results with
  | nil => simp
  | cons item rest ih =>
      rw [List.mapM_cons, bind_eq_ok_iff] at all
      rcases all with ⟨result, fromItem, fromRest⟩
      rw [bind_eq_ok_iff] at fromRest
      rcases fromRest with ⟨others, fromRest, -⟩
      exact List.forall_mem_cons.2 ⟨⟨result, fromItem⟩, ih fromRest⟩

/-- A list of steps succeeds exactly if each of them does. -/
theorem exists_mapM_eq_ok_iff {action : α → Except ε β} {items : List α} :
    (∃ results, items.mapM action = .ok results) ↔
      ∀ item ∈ items, ∃ result, action item = .ok result := by
  constructor
  · rintro ⟨results, all⟩
    exact exists_eq_ok_of_mapM_eq_ok all
  · intro each
    induction items with
    | nil => exact ⟨[], rfl⟩
    | cons item rest ih =>
        rw [List.forall_mem_cons] at each
        rcases each with ⟨⟨result, fromItem⟩, fromRest⟩
        rcases ih fromRest with ⟨results, all⟩
        refine ⟨result :: results, ?_⟩
        rw [List.mapM_cons, fromItem, ok_bind, all]
        rfl

theorem mapM_eq_ok_iff {action : α → Except ε β} {items : List α} {results : List β} :
    items.mapM action = .ok results ↔
      List.Forall₂ (fun item result => action item = .ok result) items results := by
  induction items generalizing results with
  | nil => rw [List.mapM_nil, pure_eq_ok_iff, List.forall₂_nil_left_iff, eq_comm]
  | cons item rest ih =>
      simp only [List.mapM_cons, bind_eq_ok_iff, pure_eq_ok_iff, ih,
        List.forall₂_cons_left_iff]
      constructor
      · rintro ⟨result, fromItem, others, fromRest, rfl⟩
        exact ⟨result, others, fromItem, fromRest, rfl⟩
      · rintro ⟨result, others, fromItem, fromRest, rfl⟩
        exact ⟨result, fromItem, others, fromRest, rfl⟩

/-- A list of steps fails as the first of them that fails. -/
theorem mapM_eq_error_iff {action : α → Except ε β} {items : List α} {reason : ε} :
    items.mapM action = .error reason ↔
      ∃ before item after, items = before ++ item :: after ∧
        (∀ earlier ∈ before, ∃ result, action earlier = .ok result) ∧
          action item = .error reason := by
  induction items with
  | nil => simp [pure, Except.pure]
  | cons item rest ih =>
      rw [exists_split_cons_iff, List.mapM_cons]
      cases fromItem : action item with
      | error cause => simp [bind, Except.bind, fromItem]
      | ok result =>
          simp only [ok_bind, List.forall_mem_cons, fromItem, Except.ok.injEq, exists_eq',
            true_and, reduceCtorEq, and_false, false_or, ← ih]
          cases rest.mapM action <;> simp [bind, Except.bind, pure, Except.pure]

end HingeLoss
