import HingeLoss.Proofs.Machine.Modelling

/-!
# Stages of a run

A run on a machine goes through its stages one after the other, and each may end it. What is known
of the outcome and of the machine that is left is put together stage by stage.
-/

namespace HingeLoss

section Stages

variable {ε α β : Type} {before : Machine} {condition : Except ε α → Machine → Prop}

/-- Started on the machine, the steps end with an outcome, and leave a machine, that meet the
condition. -/
def Ends (steps : ExceptT ε OnMachine α) (before : Machine)
    (condition : Except ε α → Machine → Prop) : Prop :=
  condition (steps.run.run before).1 (steps.run.run before).2

/-- Steps that log, with a filter for the log. -/
def behind (filter : LogFilter) (steps : ExceptT ε (Filtered OnMachine) α) :
    ExceptT ε OnMachine α :=
  ExceptT.mk (steps.run.run filter)

theorem behind_bind (filter : LogFilter) (steps : ExceptT ε (Filtered OnMachine) β)
    (next : β → ExceptT ε (Filtered OnMachine) α) :
    behind filter (steps >>= next) =
      behind filter steps >>= fun value => behind filter (next value) := by
  apply ExceptT.ext
  rw [behind, ExceptT.run_mk, ExceptT.run_bind, ExceptT.run_bind, ReaderT.run_bind]
  refine bind_congr fun outcome => ?_
  cases outcome <;> rfl

theorem behind_ofExcept (filter : LogFilter) (step : Except ε α) :
    behind filter (liftM step : ExceptT ε (Filtered OnMachine) α) = liftM step := by
  cases step <;> rfl

theorem run_ofExcept (step : Except ε α) (machine : Machine) :
    (liftM step : ExceptT ε OnMachine α).run.run machine = (step, machine) := by
  cases step <;> rfl

namespace Ends

theorem bind {steps : ExceptT ε OnMachine β} {next : β → ExceptT ε OnMachine α}
    (first : Ends steps before fun outcome middle =>
      match outcome with
      | .ok value => Ends (next value) middle condition
      | .error failure => condition (.error failure) middle) :
    Ends (steps >>= next) before condition := by
  rw [Ends] at first
  rw [Ends, ExceptT.run_bind, StateT.run_bind]
  generalize steps.run.run before = ended at first
  rcases ended with ⟨outcome, middle⟩
  cases outcome with
  | ok value => exact first
  | error failure => exact first

theorem mono {steps : ExceptT ε OnMachine α} {stronger : Except ε α → Machine → Prop}
    (ends : Ends steps before stronger)
    (implies : ∀ outcome after, stronger outcome after → condition outcome after) :
    Ends steps before condition :=
  implies _ _ ends

theorem of_run {steps : ExceptT ε OnMachine α} {outcome : Except ε α} {after : Machine}
    (run : steps.run.run before = (outcome, after)) (meets : condition outcome after) :
    Ends steps before condition := by
  rw [Ends, run]
  exact meets

theorem ofExcept {step : Except ε α} (meets : condition step before) :
    Ends (liftM step : ExceptT ε OnMachine α) before condition :=
  of_run (run_ofExcept step before) meets

theorem ofExcept_bind {step : Except ε β} {next : β → ExceptT ε OnMachine α}
    (failed : ∀ failure, step = .error failure → condition (.error failure) before)
    (rest : ∀ value, step = .ok value → Ends (next value) before condition) :
    Ends ((liftM step : ExceptT ε OnMachine β) >>= next) before condition := by
  apply bind
  cases step with
  | ok value => exact rest value rfl
  | error failure => exact failed failure rfl

theorem action_bind {action : OnMachine β} {next : β → ExceptT ε OnMachine α}
    (rest : Ends (next (action.run before).1) (action.run before).2 condition) :
    Ends ((liftM action : ExceptT ε OnMachine β) >>= next) before condition :=
  bind rest

theorem filtered_bind {filter : LogFilter} {action : Filtered OnMachine β}
    {next : β → ExceptT ε (Filtered OnMachine) α}
    (rest : Ends (behind filter (next ((action.run filter).run before).1))
      ((action.run filter).run before).2 condition) :
    Ends (behind filter ((liftM action : ExceptT ε (Filtered OnMachine) β) >>= next)) before
      condition := by
  rw [behind_bind]
  exact action_bind rest

/-- What an action returns does not matter if it leaves the files as they are. -/
theorem quiet_bind {action : OnMachine β} {next : β → ExceptT ε OnMachine α}
    (leaves : ∀ machine : Machine, machine.SameFiles (action.run machine).2)
    (rest : ∀ value middle, before.SameFiles middle → Ends (next value) middle condition) :
    Ends ((liftM action : ExceptT ε OnMachine β) >>= next) before condition :=
  action_bind (rest _ _ (leaves before))

theorem log_bind {filter : LogFilter} {action : Filtered OnMachine β}
    {next : β → ExceptT ε (Filtered OnMachine) α} (leaves : Filtered.LeavesFiles action)
    (rest : ∀ value middle, before.SameFiles middle →
      Ends (behind filter (next value)) middle condition) :
    Ends (behind filter ((liftM action : ExceptT ε (Filtered OnMachine) β) >>= next)) before
      condition := by
  rw [behind_bind]
  exact quiet_bind (leaves filter) rest

/-- How logged steps end can decide how it goes on. -/
theorem attempt_bind {φ : Type} {filter : LogFilter} {steps : ExceptT φ (Filtered OnMachine) β}
    {next : Except φ β → ExceptT ε OnMachine α}
    (first : Ends (behind filter steps) before fun outcome middle =>
      Ends (next outcome) middle condition) :
    Ends ((liftM (steps.run.run filter : OnMachine (Except φ β)) :
      ExceptT ε OnMachine (Except φ β)) >>= next) before condition :=
  action_bind first

theorem adapt {φ : Type} {steps : ExceptT φ OnMachine α} {wording : φ → ε}
    (ends : Ends steps before fun outcome after => condition (outcome.mapError wording) after) :
    Ends (ExceptT.adapt wording steps) before condition :=
  ends

end Ends

end Stages

end HingeLoss
