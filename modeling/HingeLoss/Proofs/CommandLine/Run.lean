import HingeLoss.CommandLine.Run
import HingeLoss.Proofs.Document.Outcome
import HingeLoss.Proofs.Document.Storage

/-!
# What a run changes

A run looks at its arguments, its configuration, its paths, its problem and the solver's answer, one
after the other, and each of these may end it. By then nothing but the console has changed. What is
left is to write the solution: a run that ends well has written it and has changed nothing else.
-/

namespace HingeLoss

open Files Text

open Ends

theorem HingeProblem.exists_run_solve {problem : HingeProblem Float} {solver : ConicSolver Float}
    {settings : Settings} {outcome : Except Failure (SolvedValues Float × Summary Float)}
    {supply : Supply} (solved : problem.SolvesTo solver settings .full outcome supply)
    (filter : LogFilter) (before : Machine) :
    ∃ after, (behind filter
        (problem.solve solver settings : Modelling (Filtered OnMachine) _).start).run.run before =
          (outcome, after) ∧ before.SameFiles after := by
  have leaves := problem.leavesFiles_solve solver settings .full filter before
  rcases solved (Filtered OnMachine) with ⟨effects, run⟩
  rw [run] at leaves
  refine ⟨((effects.run filter).run before).2, ?_, leaves⟩
  change StateT.run (ReaderT.run (Prod.fst <$>
    (problem.solve solver settings : Modelling (Filtered OnMachine) _).run.run .full)
      filter) before = _
  rw [run]
  rfl

/-- How loading, solving and writing can end. -/
inductive FilesRun (solver : ConicSolver Float) (settings : Settings) (input output : RawText)
    (before : Machine) : Except Failure (Summary Float) → Machine → Prop
  | unloaded {failure after}
      (loaded : before.files.problemAt before.workingDirectory input = .error failure)
      (same : before.SameFiles after) :
      FilesRun solver settings input output before (.error failure) after
  | unsolved {problem failure supply after}
      (loaded : before.files.problemAt before.workingDirectory input = .ok problem)
      (solved : problem.SolvesTo solver settings .full (.error failure) supply)
      (same : before.SameFiles after) :
      FilesRun solver settings input output before (.error failure) after
  | unwritten {problem values summary supply failure after}
      (loaded : before.files.problemAt before.workingDirectory input = .ok problem)
      (solved : problem.SolvesTo solver settings .full (.ok (values, summary)) supply) :
      FilesRun solver settings input output before (.error failure) after
  | written {problem values summary supply after}
      (loaded : before.files.problemAt before.workingDirectory input = .ok problem)
      (solved : problem.SolvesTo solver settings .full (.ok (values, summary)) supply)
      (writes : before.files.WritesOnly after.files output (RawText.ofString values.toText).bytes)
      (sameDirectory : after.workingDirectory = before.workingDirectory) :
      FilesRun solver settings input output before (.ok summary) after

open Filtered (leavesFiles_emit leavesFiles_milliseconds)

theorem Ends.reportComplete_bind {ε α : Type} {before : Machine}
    {condition : Except ε α → Machine → Prop} {filter : LogFilter} {step : String} {start : Nat}
    {next : PUnit → ExceptT ε (Filtered OnMachine) α}
    (rest : ∀ value middle, before.SameFiles middle →
      Ends (behind filter (next value)) middle condition) :
    Ends (behind filter ((HingeProblem.reportComplete step start :
      ExceptT ε (Filtered OnMachine) PUnit) >>= next)) before condition := by
  rw [HingeProblem.reportComplete, bind_assoc]
  apply log_bind leavesFiles_milliseconds
  intro now middle timed
  apply log_bind (leavesFiles_emit _)
  intro value after reported
  exact rest value after (timed.trans reported)

theorem ends_runFiles (solver : ConicSolver Float) (settings : Settings) (input : RawText)
    {output : RawText} (absolute : isAbsolute output = true) (filter : LogFilter)
    {machine before : Machine} (same : machine.SameFiles before) :
    Ends (behind filter (runFiles solver settings input output)) before
      (FilesRun solver settings input output machine) := by
  apply log_bind (leavesFiles_emit _)
  intro _ first reported
  apply log_bind leavesFiles_milliseconds
  intro start second timed
  replace same := (same.trans reported).trans timed
  rw [behind_bind]
  apply Ends.bind
  apply Ends.of_run (HingeProblem.run_load input filter second)
  rw [same.files, same.workingDirectory]
  cases loaded : machine.files.problemAt machine.workingDirectory input with
  | error failure => exact .unloaded loaded same
  | ok problem =>
      apply reportComplete_bind
      intro _ third reportedLoading
      replace same := same.trans reportedLoading
      rw [behind_bind]
      apply Ends.bind
      rcases HingeProblem.exists_solvesTo (FileTree.buildable_of_problemAt loaded) solver settings
        .full with ⟨outcome, supply, solved⟩
      rcases HingeProblem.exists_run_solve solved filter third with ⟨fourth, run, sameAgain⟩
      apply Ends.of_run run
      replace same := same.trans sameAgain
      cases outcome with
      | error failure => exact .unsolved loaded solved same
      | ok answer =>
          rcases answer with ⟨values, summary⟩
          apply log_bind (leavesFiles_emit _)
          intro _ fifth reportedSolving
          apply log_bind leavesFiles_milliseconds
          intro start sixth timedAgain
          replace same := (same.trans reportedSolving).trans timedAgain
          rw [behind_bind]
          apply Ends.bind
          apply Ends.mono (values.ends_write absolute filter sixth)
          intro outcome seventh writes
          cases outcome with
          | error failure => exact .unwritten loaded solved
          | ok value =>
              rcases writes rfl with ⟨writes, sameDirectory⟩
              rw [same.files] at writes
              rw [same.workingDirectory] at sameDirectory
              apply reportComplete_bind
              intro _ last reportedWriting
              rw [← reportedWriting.files] at writes
              rw [← reportedWriting.workingDirectory] at sameDirectory
              exact .written loaded solved writes sameDirectory

/-- The paths that a run works with, or why there are none. -/
def FileTree.pathsAt (tree : FileTree) (workingDirectory : Place) (input output : RawText) :
    Except Failure ResolvedPaths := do
  let base := Machine.pathOf workingDirectory
  let input ← (Files.absolute base input).mapError (Failure.file input)
  let output ← (Files.absolute base output).mapError (Failure.file output)
  if tree.isFile workingDirectory input then return ⟨input, output⟩ else throw (.fileNotFound input)

theorem run_absolutePath (path : RawText) (machine : Machine) :
    (absolutePath path : ExceptT Failure OnMachine _).run.run machine =
      ((Files.absolute (Machine.pathOf machine.workingDirectory) path).mapError
        (Failure.file path), machine) :=
  run_ofExcept _ machine

theorem ends_resolvePaths (input output : RawText) (machine : Machine) :
    Ends (resolvePaths input output : ExceptT Failure OnMachine _) machine fun outcome after =>
      outcome = machine.files.pathsAt machine.workingDirectory input output ∧ after = machine := by
  rw [resolvePaths, FileTree.pathsAt]
  apply Ends.bind
  apply Ends.of_run (run_absolutePath input machine)
  cases (Files.absolute (Machine.pathOf machine.workingDirectory) input).mapError
      (Failure.file input) with
  | error failure => exact ⟨rfl, rfl⟩
  | ok absoluteInput =>
      apply Ends.bind
      apply Ends.of_run (run_absolutePath output machine)
      cases (Files.absolute (Machine.pathOf machine.workingDirectory) output).mapError
          (Failure.file output) with
      | error failure => exact ⟨rfl, rfl⟩
      | ok absoluteOutput =>
          apply Ends.action_bind
          change Ends (if machine.files.isFile machine.workingDirectory absoluteInput then _ else _)
            machine fun outcome after =>
              outcome = (if machine.files.isFile machine.workingDirectory absoluteInput then _
                else _) ∧ after = machine
          split
          · exact ⟨rfl, rfl⟩
          · exact ⟨rfl, rfl⟩

theorem sameFiles_chooseFilter (environment : Environment) (configured : String)
    (machine : Machine) :
    machine.SameFiles ((chooseFilter environment configured : OnMachine _).run machine).2 := by
  rw [chooseFilter]
  split
  case h_1 => exact .refl machine
  case h_2 =>
    simp only [bind_pure_comp]
    generalize LogFilter.unreadable configured = directives
    induction directives generalizing machine with
    | nil => exact .refl machine
    | cons directive rest ih =>
        rw [List.forIn_cons]
        have reported : machine.SameFiles
            { machine with errors := machine.errors ++
                ("ignoring `" ++ directive ++ "`: invalid filter directive\n") } := ⟨rfl, rfl⟩
        exact reported.trans (ih _)

theorem FileTree.isAbsolute_of_pathsAt {tree : FileTree} {workingDirectory : Place}
    {input output : RawText} {paths : ResolvedPaths}
    (resolved : tree.pathsAt workingDirectory input output = .ok paths) :
    isAbsolute paths.output = true := by
  rcases bind_eq_ok_iff.1 resolved with ⟨absoluteInput, -, resolved⟩
  rcases bind_eq_ok_iff.1 resolved with ⟨absoluteOutput, made, resolved⟩
  have base : isAbsolute (Machine.pathOf workingDirectory) = true :=
    isAbsolute_foldl_join rfl workingDirectory
  split at resolved
  case isFalse => exact absurd resolved throw_ne_ok
  case isTrue =>
    obtain rfl := pure_eq_ok_iff.1 resolved
    exact isAbsolute_absolute base (mapError_eq_ok_iff.1 made)

section Runs

variable (solver : ConicSolver Float) (environment : Environment) (arguments : List RawText)
  (machine : Machine)

/-- What a run is asked for: two paths, of which the first leads to a file, and a configuration. -/
structure Request where
  input : RawText
  output : RawText
  configuration : Configuration
  paths : ResolvedPaths
  asked : Invocation.ofArguments arguments = .run input output
  configured : Configuration.ofEnvironment environment = .ok configuration
  resolved : machine.files.pathsAt machine.workingDirectory input output = .ok paths

/-- A run that gets as far as writing. -/
structure Delivery extends Request environment arguments machine where
  problem : HingeProblem Float
  values : SolvedValues Float
  summary : Summary Float
  supply : Supply
  loaded : machine.files.problemAt machine.workingDirectory paths.input = .ok problem
  solved : problem.SolvesTo solver configuration.settings .full (.ok (values, summary)) supply

/-- What ends a run before anything is written. -/
inductive EndsEarly : Prop
  | usage {program} (asked : Invocation.ofArguments arguments = .usage program)
  | misconfigured {input output fault}
      (asked : Invocation.ofArguments arguments = .run input output)
      (refused : Configuration.ofEnvironment environment = .error fault)
  | unresolved {input output configuration failure}
      (asked : Invocation.ofArguments arguments = .run input output)
      (configured : Configuration.ofEnvironment environment = .ok configuration)
      (refused : machine.files.pathsAt machine.workingDirectory input output = .error failure)
  | unloaded {failure} (request : Request environment arguments machine)
      (refused :
        machine.files.problemAt machine.workingDirectory request.paths.input = .error failure)
  | unsolved {problem failure supply} (request : Request environment arguments machine)
      (loaded : machine.files.problemAt machine.workingDirectory request.paths.input = .ok problem)
      (failed : problem.SolvesTo solver request.configuration.settings .full (.error failure)
        supply)

variable {solver environment arguments machine}

theorem Request.eq (request other : Request environment arguments machine) : request = other := by
  rcases request with ⟨input, output, configuration, paths, asked, configured, resolved⟩
  rcases other with ⟨_, _, _, _, askedAgain, configuredAgain, resolvedAgain⟩
  rw [asked, Invocation.run.injEq] at askedAgain
  rcases askedAgain with ⟨rfl, rfl⟩
  rw [configured, Except.ok.injEq] at configuredAgain
  rw [resolved, Except.ok.injEq] at resolvedAgain
  subst configuredAgain resolvedAgain
  rfl

theorem Delivery.not_endsEarly (delivery : Delivery solver environment arguments machine) :
    ¬EndsEarly solver environment arguments machine := by
  rcases delivery with ⟨request, problem, values, summary, supply, loaded, solved⟩
  intro early
  cases early with
  | usage asked => simp [request.asked] at asked
  | misconfigured asked refused => simp [request.configured] at refused
  | unresolved asked configured refused =>
      rw [request.asked, Invocation.run.injEq] at asked
      rcases asked with ⟨rfl, rfl⟩
      simp [request.resolved] at refused
  | unloaded other refused =>
      obtain rfl := request.eq other
      simp [loaded] at refused
  | unsolved other loadedAgain failed =>
      obtain rfl := request.eq other
      rw [loaded, Except.ok.injEq] at loadedAgain
      subst loadedAgain
      have same := (Modelling.YieldsEverywhere.unique solved failed).1
      simp at same

variable (solver environment arguments machine)

/-- How a run can end, with success or without. -/
inductive RunEnds : Bool → Machine → Prop
  | early {after} (early : EndsEarly solver environment arguments machine)
      (same : machine.SameFiles after) : RunEnds false after
  | unwritten {after} (delivery : Delivery solver environment arguments machine) :
      RunEnds false after
  | written {after} (delivery : Delivery solver environment arguments machine)
      (writes : machine.files.WritesOnly after.files delivery.paths.output
        (RawText.ofString delivery.values.toText).bytes)
      (sameDirectory : after.workingDirectory = machine.workingDirectory) :
      RunEnds true after

variable {solver environment arguments machine}

theorem ends_runPaths {input output : RawText}
    (asked : Invocation.ofArguments arguments = .run input output) :
    Ends (runPaths solver environment input output) machine fun outcome after =>
      RunEnds solver environment arguments machine outcome.isOk after := by
  rw [runPaths]
  apply Ends.ofExcept_bind
  case failed =>
    intro fault refused
    rcases mapError_eq_error_iff.1 refused with ⟨reason, refused, -⟩
    exact .early (.misconfigured asked refused) (.refl machine)
  case rest =>
    intro configuration configured
    rw [mapError_eq_ok_iff] at configured
    apply Ends.quiet_bind (sameFiles_chooseFilter environment configuration.logFilter)
    intro filter first same
    apply Ends.bind
    apply Ends.adapt
    apply Ends.mono (ends_resolvePaths input output first)
    rintro _ second ⟨rfl, rfl⟩
    rw [same.files, same.workingDirectory]
    cases resolved : machine.files.pathsAt machine.workingDirectory input output with
    | error failure => exact .early (.unresolved asked configured resolved) same
    | ok paths =>
        let request : Request environment arguments machine :=
          ⟨input, output, configuration, paths, asked, configured, resolved⟩
        apply Ends.attempt_bind
        apply Ends.mono (ends_runFiles solver configuration.settings paths.input
          (FileTree.isAbsolute_of_pathsAt resolved) filter same)
        intro outcome third run
        cases run with
        | unloaded refused sameToo => exact .early (.unloaded request refused) sameToo
        | unsolved loaded failed sameToo => exact .early (.unsolved request loaded failed) sameToo
        | unwritten loaded solved => exact .unwritten ⟨request, _, _, _, _, loaded, solved⟩
        | written loaded solved writes sameDirectory =>
            let delivery : Delivery solver environment arguments machine :=
              ⟨request, _, _, _, _, loaded, solved⟩
            apply Ends.ofExcept_bind
            case failed => simp [mapError_eq_error_iff]
            case rest =>
              intro summary _
              have reported : third.SameFiles
                  (((reportWritten summary paths.output : Filtered OnMachine _).run filter).run
                    third).2 := leavesFiles_emit _ filter third
              rw [← reported.files] at writes
              rw [← reported.workingDirectory] at sameDirectory
              exact .written delivery writes sameDirectory

variable (solver environment arguments machine)

theorem exists_runEnds :
    ∃ succeeded, RunEnds solver environment arguments machine succeeded
        ((runProgram solver environment arguments : OnMachine UInt32).run machine).2 ∧
      ((runProgram solver environment arguments : OnMachine UInt32).run machine).1 =
        if succeeded then 0 else 1 := by
  rw [runProgram]
  split
  case h_1 program asked => exact ⟨false, .early (.usage asked) ⟨rfl, rfl⟩, rfl⟩
  case h_2 input output asked =>
    have run : Ends (runPaths solver environment input output) machine fun outcome after =>
        RunEnds solver environment arguments machine outcome.isOk after := ends_runPaths asked
    rw [Ends] at run
    rw [StateT.run_bind]
    generalize (runPaths solver environment input output :
      ExceptT RunFault OnMachine PUnit).run.run machine = ended at run ⊢
    rcases ended with ⟨outcome, after⟩
    cases outcome with
    | ok _ => exact ⟨true, run, rfl⟩
    | error fault =>
        refine ⟨false, ?_, rfl⟩
        cases run with
        | early early same => exact .early early ⟨same.files, same.workingDirectory⟩
        | unwritten delivery => exact .unwritten delivery

/-- A run that ends before it writes changes no file. A run that succeeds has written the solution
and has created the directories above it that were missing. Nothing else has changed, and the input
reads as before unless the solution has taken its place. -/
theorem run_changes_only_output (solver : ConicSolver Float) (environment : Environment)
    (arguments : List RawText) (machine : Machine) :
    let ended := (runProgram solver environment arguments : OnMachine UInt32).run machine
    (EndsEarly solver environment arguments machine →
        ended.1 = 1 ∧ machine.SameFiles ended.2) ∧
      (¬EndsEarly solver environment arguments machine →
        Nonempty (Delivery solver environment arguments machine)) ∧
      (ended.1 = 0 → ∃ delivery : Delivery solver environment arguments machine,
        machine.files.WritesOnly ended.2.files delivery.paths.output
            (RawText.ofString delivery.values.toText).bytes ∧
          ended.2.workingDirectory = machine.workingDirectory ∧
            (FileTree.placeOf machine.workingDirectory delivery.paths.input ≠
                Place.along [] (names delivery.paths.output) →
              ended.2.files.read machine.workingDirectory delivery.paths.input =
                machine.files.read machine.workingDirectory delivery.paths.input)) := by
  intro ended
  rcases exists_runEnds solver environment arguments machine with ⟨succeeded, run, code⟩
  change RunEnds solver environment arguments machine succeeded ended.2 at run
  change ended.1 = _ at code
  rcases ended with ⟨_, after⟩
  subst code
  have failed : (1 : UInt32) ≠ 0 := by decide
  cases run with
  | early early same =>
      exact ⟨fun _ => ⟨rfl, same⟩, fun late => absurd early late,
        fun code => absurd code failed⟩
  | unwritten delivery =>
      exact ⟨fun early => absurd early delivery.not_endsEarly, fun _ => ⟨delivery⟩,
        fun code => absurd code failed⟩
  | written delivery writes sameDirectory =>
      refine ⟨fun early => absurd early delivery.not_endsEarly, fun _ => ⟨delivery⟩, ?_⟩
      refine fun _ => ⟨delivery, writes, sameDirectory, ?_⟩
      intro elsewhere
      rcases FileTree.exists_read_of_problemAt delivery.loaded with ⟨bytes, read⟩
      rw [read]
      exact writes.read_eq elsewhere read

theorem run_changes_only_output_new_directory :
    let text := "\x7b\"variables\":[\"a\"],\"objectiveSummands\":[\x7b\"constant\":1," ++
      "\"variables\":[\"a\"],\"coefficients\":[-1],\"weight\":2,\"squared\":true\x7d]\x7d"
    let machine := Machine.start
      ⟨[([(RawText.ofString "in").bytes], .file (RawText.ofString text).bytes)]⟩ []
    let arguments := [.ofString "program", .ofString "in", .ofString "out/solution"]
    let solver : ConicSolver Float := fun _ _ => .ok ⟨.solved, [1, 0], 0, 0⟩
    let contents := (RawText.ofString "\x7b\"solution\":\x7b\"a\":1.0\x7d\x7d").bytes
    let run (arguments : List RawText) :=
      (runProgram solver (fun _ => none) arguments : OnMachine UInt32).run machine
    ((run arguments).1 = 0 ∧
        ∃ delivery : Delivery solver (fun _ => none) arguments machine,
          delivery.paths.output = .ofString "/out/solution" ∧
            machine.files.WritesOnly (run arguments).2.files delivery.paths.output contents) ∧
      ((run []).1 = 1 ∧ machine.SameFiles (run []).2) := by
  intro text machine arguments solver contents run
  have succeeds : (run arguments).1 = 0 := by decide +kernel
  have asked : Invocation.ofArguments arguments =
      .run (.ofString "in") (.ofString "out/solution") := by decide +kernel
  have resolved : (machine.files.pathsAt machine.workingDirectory (.ofString "in")
      (.ofString "out/solution")).toOption.map ResolvedPaths.output =
        some (.ofString "/out/solution") := by decide +kernel
  have found : (run arguments).2.files.find?
      (Place.along [] (names (.ofString "/out/solution"))) = some (.file contents) := by
    decide +kernel
  have usage : EndsEarly solver (fun _ => none) [] machine := .usage rfl
  rcases run_changes_only_output solver (fun _ => none) arguments machine with ⟨-, -, written⟩
  rcases written succeeds with ⟨delivery, writes, -⟩
  rcases run_changes_only_output solver (fun _ => none) [] machine with ⟨early, -⟩
  have output : delivery.paths.output = .ofString "/out/solution" := by
    have askedAgain := delivery.asked
    rw [asked, Invocation.run.injEq] at askedAgain
    rw [askedAgain.1, askedAgain.2, delivery.resolved] at resolved
    exact Option.some.inj resolved
  have same := writes.written
  rw [output, found, Option.some.injEq, FileNode.file.injEq] at same
  rw [← same] at writes
  exact ⟨⟨succeeds, delivery, output, writes⟩, early usage⟩

end Runs

end HingeLoss
