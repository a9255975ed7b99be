import HingeLoss.Document.Storage
import HingeLoss.Proofs.Document.Shape
import HingeLoss.Proofs.Files.Writing
import HingeLoss.Proofs.Machine.Stages

/-!
# Documents in the files of a machine

Loading a problem looks at one file and changes nothing. Writing a solution changes the file to
which its path leads, and adds directories above it.
-/

namespace HingeLoss

open Files Text

/-- What a problem's file holds, or why it cannot be loaded. -/
def FileTree.problemAt (tree : FileTree) (workingDirectory : Place) (path : RawText) :
    Except Failure (HingeProblem Float) := do
  let bytes ← (tree.read workingDirectory path).mapError (ReadFault.failure path)
  HingeProblem.fromSource (decodeUtf8 bytes)

theorem HingeProblem.buildable_of_fromSource {source : Json.Source} {problem : HingeProblem Float}
    (parsed : fromSource source = .ok problem) : problem.Buildable := by
  rw [fromSource, bind_eq_ok_iff] at parsed
  rcases parsed with ⟨read, -, checked⟩
  rw [check_bind_eq_ok_iff] at checked
  obtain rfl := pure_eq_ok_iff.1 checked.2
  exact buildable_of_validate checked.1

theorem FileTree.buildable_of_problemAt {tree : FileTree} {workingDirectory : Place}
    {path : RawText} {problem : HingeProblem Float}
    (loaded : tree.problemAt workingDirectory path = .ok problem) : problem.Buildable := by
  rcases bind_eq_ok_iff.1 loaded with ⟨bytes, -, parsed⟩
  exact HingeProblem.buildable_of_fromSource parsed

theorem FileTree.exists_read_of_problemAt {tree : FileTree} {workingDirectory : Place}
    {path : RawText} {problem : HingeProblem Float}
    (loaded : tree.problemAt workingDirectory path = .ok problem) :
    ∃ bytes, tree.read workingDirectory path = .ok bytes := by
  rcases bind_eq_ok_iff.1 loaded with ⟨bytes, read, -⟩
  exact ⟨bytes, mapError_eq_ok_iff.1 read⟩

theorem HingeProblem.run_load (path : RawText) (filter : LogFilter) (machine : Machine) :
    (behind filter (load path)).run.run machine =
      (machine.files.problemAt machine.workingDirectory path, machine) := by
  rw [load, FileTree.problemAt]
  simp only [behind_bind, behind_ofExcept]
  change ((liftM ((machine.files.read machine.workingDirectory path).mapError
    (ReadFault.failure path)) >>= fun bytes => liftM (fromSource (decodeUtf8 bytes))) :
      ExceptT Failure OnMachine _).run.run machine = _
  generalize (machine.files.read machine.workingDirectory path).mapError
    (ReadFault.failure path) = read
  cases read with
  | error failure => rfl
  | ok bytes => exact run_ofExcept _ _

/-- Whatever becomes of them, directories are created only above the path. -/
theorem ends_createParent {path : RawText} (absolute : isAbsolute path = true)
    (filter : LogFilter) (before : Machine) :
    Ends (behind filter (createParent path)) before fun _ middle =>
      before.files.AddsDirectories (FileTree.IsOuterPlace path) middle.files ∧
        middle.workingDirectory = before.workingDirectory := by
  rw [createParent]
  split
  case h_1 => exact ⟨.refl _, rfl⟩
  case h_2 parent above =>
    split
    case isTrue => exact ⟨.refl _, rfl⟩
    case isFalse =>
      apply Ends.filtered_bind
      rw [behind_ofExcept]
      exact Ends.ofExcept ⟨FileTree.addsDirectories_createDirectories absolute above, rfl⟩

theorem Machine.run_writeFile (machine : Machine) (path : RawText) (contents : List UInt8) :
    (FileAccess.writeFile path contents : OnMachine _).run machine =
      match machine.files.write machine.workingDirectory path contents with
      | .ok files => (.ok ⟨⟩, { machine with files })
      | .error fault => (.error fault, machine) := by
  simp only [FileAccess.writeFile, StateT.run_bind, StateT.run_get, pure_bind]
  cases machine.files.write machine.workingDirectory path contents <;> rfl

/-- The file is written after directories were created for it, on whatever machine that left. -/
theorem SolvedValues.ends_write_prepared (values : SolvedValues Float) {path : RawText}
    {filter : LogFilter} {before : Machine} {prepared : Machine → Prop}
    (creates : Ends (behind filter (createParent path)) before fun _ middle => prepared middle) :
    Ends (behind filter (values.write path)) before fun outcome after =>
      outcome = .ok ⟨⟩ → ∃ middle : Machine, prepared middle ∧
        middle.files.write middle.workingDirectory path (RawText.ofString values.toText).bytes =
            .ok after.files ∧
          after.workingDirectory = middle.workingDirectory := by
  rw [write, behind_bind]
  apply Ends.bind
  apply Ends.mono creates
  intro outcome middle isPrepared
  cases outcome with
  | error failure => simp
  | ok value =>
      apply Ends.filtered_bind
      rw [behind_ofExcept]
      apply Ends.ofExcept
      change Except.mapError (Failure.file path)
        ((FileAccess.writeFile path _ : OnMachine _).run middle).1 = _ → _
      intro wrote
      refine ⟨middle, isPrepared, ?_⟩
      change middle.files.write middle.workingDirectory path _ =
          .ok ((FileAccess.writeFile path _ : OnMachine _).run middle).2.files ∧
        ((FileAccess.writeFile path _ : OnMachine _).run middle).2.workingDirectory = _
      rw [Machine.run_writeFile] at wrote ⊢
      cases written : middle.files.write middle.workingDirectory path
        (RawText.ofString values.toText).bytes with
      | error fault =>
          rw [mapError_eq_ok_iff, written] at wrote
          simp at wrote
      | ok files => exact ⟨rfl, rfl⟩

theorem SolvedValues.ends_write (values : SolvedValues Float) {path : RawText}
    (absolute : isAbsolute path = true) (filter : LogFilter) (before : Machine) :
    Ends (behind filter (values.write path)) before fun outcome after =>
      outcome = .ok ⟨⟩ →
        before.files.WritesOnly after.files path (RawText.ofString values.toText).bytes ∧
          after.workingDirectory = before.workingDirectory := by
  apply Ends.mono (values.ends_write_prepared (ends_createParent absolute filter before))
  intro outcome after ends wrote
  rcases ends wrote with ⟨middle, ⟨prepared, sameDirectory⟩, written, kept⟩
  exact ⟨.of_createDirectories_write absolute prepared written, kept.trans sameDirectory⟩

/-- The path to which a solution was written leads to its text. -/
theorem SolvedValues.ends_write_readable (values : SolvedValues Float) (path : RawText)
    (filter : LogFilter) (before : Machine) :
    Ends (behind filter (values.write path)) before fun outcome after =>
      outcome = .ok ⟨⟩ → after.files.read after.workingDirectory path =
        .ok (RawText.ofString values.toText).bytes := by
  have creates : Ends (behind filter (createParent path)) before fun _ _ => True := trivial
  apply Ends.mono (values.ends_write_prepared creates)
  intro outcome after ends wrote
  rcases ends wrote with ⟨middle, -, written, kept⟩
  rw [kept]
  exact FileTree.read_of_write written

end HingeLoss
