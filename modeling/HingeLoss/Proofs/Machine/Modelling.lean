import HingeLoss.Document.Solving
import HingeLoss.Machine
import HingeLoss.Proofs.Problem.Outcomes

/-!
# Modelling on a machine

While a document is modelled and solved, the machine's clock is read and lines are printed, and its
files stay as they are. This is so for each step on its own, and for steps one after the other.
-/

namespace HingeLoss

/-- Nothing but the console has changed. -/
structure Machine.SameFiles (before after : Machine) : Prop where
  files : after.files = before.files
  workingDirectory : after.workingDirectory = before.workingDirectory

namespace Machine.SameFiles

variable {before middle after : Machine}

theorem refl (machine : Machine) : machine.SameFiles machine := ⟨rfl, rfl⟩

theorem trans (first : before.SameFiles middle) (second : middle.SameFiles after) :
    before.SameFiles after :=
  ⟨second.files.trans first.files, second.workingDirectory.trans first.workingDirectory⟩

end Machine.SameFiles

namespace Filtered

variable {α β : Type}

/-- Whatever the filter, the action leaves the files of a machine as they are. -/
def LeavesFiles (action : Filtered OnMachine α) : Prop :=
  ∀ filter (machine : Machine), machine.SameFiles ((action.run filter).run machine).2

theorem leavesFiles_pure (value : α) : LeavesFiles (pure value) :=
  fun _ => Machine.SameFiles.refl

theorem LeavesFiles.bind {action : Filtered OnMachine α} {next : α → Filtered OnMachine β}
    (first : LeavesFiles action) (rest : ∀ value, LeavesFiles (next value)) :
    LeavesFiles (action >>= next) :=
  fun filter machine => (first filter machine).trans (rest _ filter _)

theorem leavesFiles_print (text : String) :
    LeavesFiles (Console.print text : Filtered OnMachine PUnit) := fun _ _ => ⟨rfl, rfl⟩

theorem leavesFiles_emit (event : LogEvent) :
    LeavesFiles (emit event : Filtered OnMachine PUnit) := by
  change LeavesFiles ((read : Filtered OnMachine LogFilter) >>= fun filter =>
    if filter.admits event then Console.print (event.line ++ "\n") else pure ⟨⟩)
  refine LeavesFiles.bind (fun _ => Machine.SameFiles.refl) fun filter => ?_
  split
  · exact leavesFiles_print _
  · exact leavesFiles_pure _

theorem leavesFiles_milliseconds :
    LeavesFiles (Clock.milliseconds : Filtered OnMachine Nat) :=
  fun _ => Machine.SameFiles.refl

end Filtered

namespace Modelling

variable {α β : Type}

/-- Whatever the supply, the action leaves the files of a machine as they are. -/
def LeavesFiles (action : Modelling (Filtered OnMachine) α) : Prop :=
  ∀ supply, Filtered.LeavesFiles (action.run.run supply)

theorem leavesFiles_of_run {action : Modelling (Filtered OnMachine) α}
    (run : ∀ supply, ∃ result, action.run.run supply = pure result) : LeavesFiles action := by
  intro supply
  rcases run supply with ⟨result, same⟩
  rw [same]
  exact Filtered.leavesFiles_pure result

theorem leavesFiles_pure (value : α) : LeavesFiles (pure value) :=
  leavesFiles_of_run fun _ => ⟨_, rfl⟩

theorem leavesFiles_throw (failure : Failure) :
    LeavesFiles (throw failure : Modelling (Filtered OnMachine) α) :=
  leavesFiles_of_run fun _ => ⟨_, rfl⟩

theorem leavesFiles_ofExcept (step : Except Failure α) :
    LeavesFiles (liftM step : Modelling (Filtered OnMachine) α) := by
  cases step with
  | ok value => exact leavesFiles_pure value
  | error failure => exact leavesFiles_throw failure

theorem leavesFiles_freshId : LeavesFiles (freshId : Modelling (Filtered OnMachine) VarId) :=
  leavesFiles_of_run fun _ => ⟨_, rfl⟩

theorem leavesFiles_ofCanonicalizing (action : Canonicalizing α) :
    LeavesFiles (ofCanonicalizing action : Modelling (Filtered OnMachine) α) :=
  leavesFiles_of_run fun _ => ⟨_, rfl⟩

theorem leavesFiles_liftM {effect : Filtered OnMachine α} (leaves : Filtered.LeavesFiles effect) :
    LeavesFiles (liftM effect : Modelling (Filtered OnMachine) α) := by
  intro supply
  rw [run_liftM, map_eq_pure_bind]
  exact leaves.bind fun _ => Filtered.leavesFiles_pure _

theorem leavesFiles_emit (event : LogEvent) :
    LeavesFiles (emit event : Modelling (Filtered OnMachine) PUnit) :=
  leavesFiles_liftM (Filtered.leavesFiles_emit event)

theorem leavesFiles_milliseconds :
    LeavesFiles (Clock.milliseconds : Modelling (Filtered OnMachine) Nat) :=
  leavesFiles_liftM Filtered.leavesFiles_milliseconds

theorem LeavesFiles.bind {action : Modelling (Filtered OnMachine) α}
    {next : α → Modelling (Filtered OnMachine) β} (first : LeavesFiles action)
    (rest : ∀ value, LeavesFiles (next value)) : LeavesFiles (action >>= next) := by
  intro supply
  rw [run_bind]
  apply (first supply).bind
  rintro ⟨outcome, middle⟩
  cases outcome with
  | ok value => exact rest value middle
  | error failure => exact Filtered.leavesFiles_pure _

theorem LeavesFiles.mapM {items : List α} {step : α → Modelling (Filtered OnMachine) β}
    (each : ∀ item, LeavesFiles (step item)) : LeavesFiles (items.mapM step) := by
  induction items with
  | nil =>
      rw [List.mapM_nil]
      exact leavesFiles_pure []
  | cons item rest ih =>
      rw [List.mapM_cons]
      exact (each item).bind fun _ => ih.bind fun _ => leavesFiles_pure _

end Modelling

open Modelling

section Building

variable {K : Type}

theorem DecisionVariables.leavesFiles_declare (decisions : DecisionVariables K)
    (names : List String) :
    LeavesFiles (decisions.declare names : Modelling (Filtered OnMachine) _) := by
  induction names generalizing decisions with
  | nil => exact leavesFiles_pure decisions
  | cons name rest ih =>
      rw [declare]
      split
      · exact (leavesFiles_emit _).bind fun _ => ih decisions
      · exact leavesFiles_freshId.bind fun _ => ih _

variable [Scalar K]

theorem Term.leavesFiles_buildConstraint (term : Term K) (decisions : DecisionVariables K) :
    LeavesFiles (term.buildConstraint decisions : Modelling (Filtered OnMachine) _) :=
  (leavesFiles_emit _).bind fun _ => (leavesFiles_ofExcept _).bind fun _ => leavesFiles_pure _

theorem Term.leavesFiles_buildSummand (term : Term K) (index : Nat)
    (decisions : DecisionVariables K) :
    LeavesFiles (term.buildSummand index decisions : Modelling (Filtered OnMachine) _) := by
  rw [buildSummand]
  split
  · exact leavesFiles_throw _
  · exact (leavesFiles_emit _).bind fun _ =>
      (leavesFiles_ofExcept _).bind fun _ => leavesFiles_pure _

theorem Problem.leavesFiles_solve (problem : Problem K) (solver : ConicSolver K)
    (settings : Settings) :
    LeavesFiles (problem.solve solver settings : Modelling (Filtered OnMachine) _) := by
  refine (leavesFiles_ofCanonicalizing _).bind fun standard => ?_
  refine (leavesFiles_emit _).bind fun _ => ?_
  split
  · exact leavesFiles_ofExcept _
  · refine (leavesFiles_ofExcept _).bind fun program => ?_
    refine (leavesFiles_ofExcept _).bind fun solution => ?_
    refine (leavesFiles_emit _).bind fun _ => ?_
    split
    · exact leavesFiles_throw _
    · split
      · exact (leavesFiles_emit _).bind fun _ => leavesFiles_pure _
      · exact leavesFiles_pure _

namespace HingeProblem

theorem leavesFiles_reportComplete (step : String) (start : Nat) :
    LeavesFiles (reportComplete step start : Modelling (Filtered OnMachine) _) :=
  leavesFiles_milliseconds.bind fun _ => leavesFiles_emit _

theorem leavesFiles_model (problem : HingeProblem K) :
    LeavesFiles (problem.model : Modelling (Filtered OnMachine) _) := by
  refine (leavesFiles_emit _).bind fun _ => leavesFiles_milliseconds.bind fun start => ?_
  refine (DecisionVariables.leavesFiles_declare _ _).bind fun decisions => ?_
  refine LeavesFiles.bind ?_ fun constraints => ?_
  · exact (LeavesFiles.mapM fun term => term.leavesFiles_buildConstraint decisions).bind fun _ =>
      leavesFiles_pure _
  refine LeavesFiles.bind ?_ fun objective => ?_
  · exact (LeavesFiles.mapM fun entry => entry.1.leavesFiles_buildSummand entry.2 decisions).bind
      fun _ => leavesFiles_pure _
  exact (leavesFiles_emit _).bind fun _ =>
    (leavesFiles_reportComplete _ start).bind fun _ => leavesFiles_pure _

/-- Solving a document leaves all files as they are, however it ends. -/
theorem leavesFiles_solve (problem : HingeProblem K) (solver : ConicSolver K)
    (settings : Settings) :
    LeavesFiles (problem.solve solver settings : Modelling (Filtered OnMachine) _) := by
  refine problem.leavesFiles_model.bind fun built => (leavesFiles_emit _).bind fun _ => ?_
  refine leavesFiles_milliseconds.bind fun start => ?_
  refine (built.2.leavesFiles_solve solver settings).bind fun solution => ?_
  refine (leavesFiles_reportComplete _ start).bind fun _ => ?_
  exact (leavesFiles_ofExcept _).bind fun _ => leavesFiles_pure _

end HingeProblem

end Building

end HingeLoss
