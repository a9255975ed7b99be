import HingeLoss.Problem
import HingeLoss.Proofs.Failure
import HingeLoss.Proofs.Standard.Derivation
import HingeLoss.Surroundings
import Mathlib.Tactic.Choose

/-!
# Outcomes of modelling

Modelling reports events to surroundings about which nothing is known but the laws of sequencing. An
action yields an outcome if that outcome, and the supply it leaves, do not depend on what the
surroundings do. Such outcomes are put together step by step.
-/

namespace HingeLoss

namespace Modelling

variable {m : Type → Type} [Monad m] {α β : Type} {before middle after supply : Supply}

/-- Started with the supply `before`, the action has this outcome and leaves the supply `after`,
whatever the surroundings do meanwhile. -/
def Yields (action : Modelling m α) (before : Supply) (outcome : Except Failure α)
    (after : Supply) : Prop :=
  ∃ effects : m PUnit, action.run.run before = (fun _ => (outcome, after)) <$> effects

theorem run_bind (action : Modelling m α) (next : α → Modelling m β) (before : Supply) :
    (action >>= next).run.run before = action.run.run before >>= fun (outcome, middle) =>
      match outcome with
      | .ok value => (next value).run.run middle
      | .error failure => pure (.error failure, middle) := by
  rw [ExceptT.run_bind, StateT.run_bind]
  congr 1
  funext result
  rcases result with ⟨outcome, middle⟩
  cases outcome with
  | ok value => rfl
  | error failure => rfl

variable [LawfulMonad m]

theorem yields_of_run {action : Modelling m α} {outcome : Except Failure α}
    (run : action.run.run before = pure (outcome, after)) : action.Yields before outcome after :=
  ⟨pure ⟨⟩, by rw [run, map_pure]⟩

theorem yields_pure (value : α) (supply : Supply) :
    Yields (pure value : Modelling m α) supply (.ok value) supply :=
  yields_of_run rfl

theorem yields_throw (failure : Failure) (supply : Supply) :
    Yields (throw failure : Modelling m α) supply (.error failure) supply :=
  yields_of_run rfl

theorem yields_ofExcept {step outcome : Except Failure α} (equal : step = outcome)
    (supply : Supply) : Yields (liftM step : Modelling m α) supply outcome supply := by
  subst equal
  cases step with
  | ok value => exact yields_of_run rfl
  | error failure => exact yields_of_run rfl

theorem yields_ofCanonicalizing {action : Canonicalizing α} {outcome : Except NotDcp α}
    (run : (action.run.run before).run = (outcome, after)) :
    Yields (ofCanonicalizing action : Modelling m α) before (outcome.mapError Failure.notDcp)
      after := by
  apply yields_of_run
  change (let (outcome, rest) := (action.run.run before).run
    (pure (outcome.mapError Failure.notDcp, rest) : m _)) = _
  rw [run]

theorem run_liftM (effect : m α) (supply : Supply) :
    (liftM effect : Modelling m α).run.run supply =
      (fun value => (.ok value, supply)) <$> effect := by
  change (effect >>= fun value => pure (value, supply)) >>=
    (fun result => pure (Except.ok result.1, result.2)) = _
  simp only [bind_assoc, pure_bind, map_eq_pure_bind]

theorem yields_emit [Logger m] (event : LogEvent) (supply : Supply) :
    Yields (emit event : Modelling m PUnit) supply (.ok ⟨⟩) supply :=
  ⟨emit event, run_liftM (emit event) supply⟩

namespace Yields

theorem bind {action : Modelling m α} {next : α → Modelling m β} {value : α}
    {outcome : Except Failure β} (first : action.Yields before (.ok value) middle)
    (second : (next value).Yields middle outcome after) :
    (action >>= next).Yields before outcome after := by
  rcases first with ⟨firstEffects, fromFirst⟩
  rcases second with ⟨secondEffects, fromSecond⟩
  refine ⟨firstEffects >>= fun _ => secondEffects, ?_⟩
  rw [run_bind, fromFirst, bind_map_left, map_bind]
  simp only [fromSecond]

theorem bind_error {action : Modelling m α} {next : α → Modelling m β} {failure : Failure}
    (first : action.Yields before (.error failure) after) :
    (action >>= next).Yields before (.error failure) after := by
  rcases first with ⟨effects, fromFirst⟩
  refine ⟨effects, ?_⟩
  rw [run_bind, fromFirst, bind_map_left, map_eq_pure_bind]

/-- A failure ends the action, and each value decides how it goes on. -/
theorem bind_outcome {action : Modelling m α} {next : α → Modelling m β}
    {first : Except Failure α} {second : α → Except Failure β}
    (fromAction : action.Yields before first after)
    (fromNext : ∀ value, first = .ok value → (next value).Yields after (second value) after) :
    (action >>= next).Yields before (first >>= second) after := by
  cases first with
  | ok value => exact fromAction.bind (fromNext value rfl)
  | error failure => exact fromAction.bind_error

/-- The time does not matter if every continuation has the same outcome. -/
theorem milliseconds_bind [Clock m] {next : Nat → Modelling m β} {outcome : Except Failure β}
    (each : ∀ time, (next time).Yields before outcome after) :
    ((Clock.milliseconds : Modelling m Nat) >>= next).Yields before outcome after := by
  choose effects fromNext using each
  refine ⟨(Clock.milliseconds : m Nat) >>= effects, ?_⟩
  rw [run_bind, map_bind]
  change (liftM (Clock.milliseconds : m Nat) : Modelling m Nat).run.run before >>= _ = _
  rw [run_liftM, bind_map_left]
  simp only [fromNext]

/-- Steps that leave the supply alone can be taken for each item of a list, up to the first that
fails. -/
theorem mapM_outcome {items : List α} {step : α → Modelling m β} {outcome : α → Except Failure β}
    (each : ∀ item ∈ items, (step item).Yields supply (outcome item) supply) :
    (items.mapM step).Yields supply (items.mapM outcome) supply := by
  induction items with
  | nil => exact yields_pure [] supply
  | cons item rest ih =>
      rw [List.forall_mem_cons] at each
      rw [List.mapM_cons, List.mapM_cons]
      apply each.1.bind_outcome
      intro result _
      apply (ih each.2).bind_outcome
      intro results _
      exact yields_pure (result :: results) supply

theorem mapM {items : List α} {step : α → Modelling m β} {result : α → β}
    (each : ∀ item ∈ items, (step item).Yields supply (.ok (result item)) supply) :
    (items.mapM step).Yields supply (.ok (items.map result)) supply := by
  have all : items.mapM (fun item => (.ok (result item) : Except Failure β)) =
      .ok (items.map result) := mapM_eq_ok fun _ _ => rfl
  rw [← all]
  exact mapM_outcome each

/-- Surroundings that only pass values on leave nothing of a run but its outcome. -/
theorem unique {action : Modelling Id α} {outcome other : Except Failure α}
    {otherAfter : Supply} (yields : action.Yields before outcome after)
    (again : action.Yields before other otherAfter) : outcome = other ∧ after = otherAfter := by
  rcases yields with ⟨_, run⟩
  rcases again with ⟨_, runAgain⟩
  have sameRun := run.symm.trans runAgain
  change (outcome, after) = (other, otherAfter) at sameRun
  exact Prod.mk.inj sameRun

end Yields

section Events

variable [Logger m]

/-- Started with the supply `before`, the action reports exactly these events, in this order, and
has this outcome. -/
def Emits (action : Modelling m α) (before : Supply) (events : List LogEvent)
    (outcome : Except Failure α) (after : Supply) : Prop :=
  action.run.run before = (fun _ => (outcome, after)) <$> (forM events emit : m PUnit)

omit [LawfulMonad m] in
theorem Emits.yields {action : Modelling m α} {events : List LogEvent}
    {outcome : Except Failure α} (emits : action.Emits before events outcome after) :
    action.Yields before outcome after :=
  ⟨_, emits⟩

theorem emits_of_run {action : Modelling m α} {outcome : Except Failure α}
    (run : action.run.run before = pure (outcome, after)) :
    action.Emits before [] outcome after := by
  rw [Emits, run, List.forM_nil, map_pure]

theorem emits_pure (value : α) (supply : Supply) :
    Emits (pure value : Modelling m α) supply [] (.ok value) supply :=
  emits_of_run rfl

theorem emits_freshId (supply : Supply) :
    Emits (freshId : Modelling m VarId) supply [] (.ok supply.draw.1) supply.draw.2 := by
  apply emits_of_run
  change (pure (supply.draw.1, supply.draw.2) : m _) >>=
    (fun result => pure (Except.ok result.1, result.2)) = _
  rw [pure_bind]

theorem emits_emit (event : LogEvent) (supply : Supply) :
    Emits (emit event : Modelling m PUnit) supply [event] (.ok ⟨⟩) supply := by
  rw [Emits, List.forM_cons, List.forM_nil, map_bind]
  simp only [map_pure]
  rw [← map_eq_pure_bind]
  exact run_liftM (emit event) supply

theorem Emits.bind {action : Modelling m α} {next : α → Modelling m β} {value : α}
    {outcome : Except Failure β} {first second : List LogEvent}
    (fromAction : action.Emits before first (.ok value) middle)
    (fromNext : (next value).Emits middle second outcome after) :
    (action >>= next).Emits before (first ++ second) outcome after := by
  rw [Emits, run_bind, fromAction, bind_map_left, List.forM_append, map_bind]
  exact congrArg _ (funext fun _ => fromNext)

end Events

section Everywhere

/-- The action yields the outcome in all surroundings that follow the laws of sequencing. -/
def YieldsEverywhere
    (action : ∀ (m : Type → Type) [Monad m] [Logger m] [Clock m], Modelling m α)
    (before : Supply) (outcome : Except Failure α) (after : Supply) : Prop :=
  ∀ (m : Type → Type) [Monad m] [LawfulMonad m] [Logger m] [Clock m],
    (action m).Yields before outcome after

@[reducible]
def silentLogger : Logger Id := ⟨fun _ => ⟨⟩⟩

@[reducible]
def stoppedClock : Clock Id := ⟨(0 : Nat)⟩

/-- The action reports the events and has the outcome in all surroundings that follow the laws of
sequencing. -/
def EmitsEverywhere (action : ∀ (m : Type → Type) [Monad m] [Logger m], Modelling m α)
    (before : Supply) (events : List LogEvent) (outcome : Except Failure α) (after : Supply) :
    Prop :=
  ∀ (m : Type → Type) [Monad m] [LawfulMonad m] [Logger m],
    (action m).Emits before events outcome after

theorem YieldsEverywhere.unique
    {action : ∀ (m : Type → Type) [Monad m] [Logger m] [Clock m], Modelling m α}
    {outcome other : Except Failure α} {otherAfter : Supply}
    (yields : YieldsEverywhere action before outcome after)
    (again : YieldsEverywhere action before other otherAfter) :
    outcome = other ∧ after = otherAfter := by
  let _ := silentLogger
  let _ := stoppedClock
  exact (yields Id).unique (again Id)

end Everywhere

end Modelling

end HingeLoss
