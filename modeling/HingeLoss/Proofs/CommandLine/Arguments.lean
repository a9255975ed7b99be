import HingeLoss.CommandLine.Arguments
import HingeLoss.Proofs.Text.Words

/-!
# What arguments ask for

A run is asked for by exactly two arguments that are no options, not counting the first `--`, and by
none that reads as `help`. Whatever else the arguments are, they ask for the usage text.
-/

namespace HingeLoss

open Text

section Help

/-- Between white space, the letters of `help` in this order, each small or a capital, with dashes
anywhere. -/
def ReadsAsHelp (argument : List Char) : Prop :=
  ∃ core, Trims argument core ∧ InAnyCase (core.filter (· ≠ '-')) ['h', 'e', 'l', 'p']

/-- Small letters are dashes exactly where the letters were. -/
theorem filter_map_toLower (text : List Char) :
    (text.map Char.toLower).filter (· ≠ '-') = (text.filter (· ≠ '-')).map Char.toLower := by
  have isDash (character : Char) : character.toLower = '-' ↔ character = '-' := by
    simpa using @toLower_eq_iff character '-' rfl
  rw [List.filter_map]
  congr 2
  funext character
  simp [isDash]

theorem isHelp_iff {argument : List Char} : isHelp argument = true ↔ ReadsAsHelp argument := by
  rw [isHelp, beq_iff_eq, filter_map_toLower]
  change List.map Char.toLower _ = ['h', 'e', 'l', 'p'] ↔ _
  rw [map_toLower_eq_iff (by decide)]
  constructor
  · exact fun inAnyCase => ⟨trimmed argument, trims_trimmed argument, inAnyCase⟩
  · rintro ⟨core, trims, inAnyCase⟩
    rwa [trims.trimmed_eq]

end Help

section Paths

variable {arguments found : List RawText} {input output : RawText}

/-- What ends the options. -/
def separator : RawText := ⟨[dash, dash]⟩

/-- An argument that stands for a value also where there may be options. -/
def IsPlain (argument : RawText) : Prop :=
  argument.bytes = [dash] ∨ argument.bytes.head? ≠ some dash

theorem isOption_eq_false_iff {argument : RawText} :
    isOption argument = false ↔ IsPlain argument := by
  rcases argument with ⟨_ | ⟨first, _ | ⟨second, others⟩⟩⟩
  · simp [isOption, IsPlain]
  · simp [isOption, IsPlain, em]
  · simp [isOption, IsPlain]

theorem positionals?_eq_some_iff :
    positionals? arguments = some found ↔
      arguments.erase separator = found ∧
        ∀ argument ∈ arguments.takeWhile (· ≠ separator), IsPlain argument := by
  induction arguments generalizing found with
  | nil => simp [positionals?]
  | cons argument rest ih =>
      rw [positionals?]
      by_cases isSeparator : argument = separator
      · have bytes : argument.bytes = [dash, dash] := congrArg RawText.bytes isSeparator
        rw [if_pos bytes, isSeparator, List.erase_cons_head, Option.some.injEq]
        simp
      · have bytes : argument.bytes ≠ [dash, dash] :=
          fun same => isSeparator (congrArg RawText.mk same)
        rw [if_neg bytes, List.erase_cons_tail (by simpa using isSeparator),
          List.takeWhile_cons_of_pos (by simpa using isSeparator), List.forall_mem_cons,
          ← isOption_eq_false_iff]
        cases isOption argument with
        | true => simp
        | false =>
            simp only [Bool.false_eq_true, if_false, Option.map_eq_some_iff, ih, true_and]
            constructor
            · rintro ⟨rest, ⟨rfl, plain⟩, rfl⟩
              exact ⟨rfl, plain⟩
            · rintro ⟨rfl, plain⟩
              exact ⟨_, ⟨rfl, plain⟩, rfl⟩

/-- Two paths that arguments name. -/
structure NamesPaths (arguments : List RawText) (input output : RawText) : Prop where
  exactly : arguments.erase separator = [input, output]
  input_nonempty : input.bytes ≠ []
  output_nonempty : output.bytes ≠ []
  plain : ∀ argument ∈ arguments.takeWhile (· ≠ separator), IsPlain argument

theorem pathsOf?_eq_some_iff :
    pathsOf? arguments = some (input, output) ↔ NamesPaths arguments input output := by
  have nonempty (path : RawText) : path.bytes.isEmpty = false ↔ path.bytes ≠ [] := by simp
  constructor
  · intro named
    rw [pathsOf?] at named
    split at named
    case h_1 first second two =>
      rw [positionals?_eq_some_iff] at two
      split at named
      case isTrue => simp at named
      case isFalse complete =>
        rw [Option.some.injEq, Prod.mk.injEq] at named
        rcases named with ⟨rfl, rfl⟩
        rw [Bool.not_eq_true, Bool.or_eq_false_iff, nonempty, nonempty] at complete
        exact ⟨two.1, complete.1, complete.2, two.2⟩
    case h_2 => simp at named
  · rintro ⟨exactly, input_nonempty, output_nonempty, plain⟩
    rw [pathsOf?, positionals?_eq_some_iff.2 ⟨exactly, plain⟩]
    simp [input_nonempty, output_nonempty]

end Paths

/-- What arguments ask for when they ask for a run. -/
structure AsksForRun (arguments : List RawText) (input output : RawText) : Prop where
  noHelp : ∀ argument ∈ arguments, ¬ReadsAsHelp argument.characters
  paths : NamesPaths arguments input output

theorem asksForRun_iff {arguments : List RawText} {input output : RawText} :
    AsksForRun arguments input output ↔
      (arguments.any fun argument => isHelp argument.characters) = false ∧
        pathsOf? arguments = some (input, output) := by
  have noHelp : (arguments.any fun argument => isHelp argument.characters) = false ↔
      ∀ argument ∈ arguments, ¬ReadsAsHelp argument.characters := by
    simp only [List.any_eq_false, isHelp_iff]
  rw [noHelp, pathsOf?_eq_some_iff]
  exact ⟨fun asks => ⟨asks.noHelp, asks.paths⟩, fun ⟨noHelp, paths⟩ => ⟨noHelp, paths⟩⟩

/-- Arguments ask for a run with two paths, or else for the usage text under the name by which the
program was called. -/
theorem Invocation.ofArguments_eq_iff (arguments : List RawText) :
    (∀ input output, ofArguments arguments = .run input output ↔
        AsksForRun arguments.tail input output) ∧
      ∀ program, ofArguments arguments = .usage program ↔
        (¬∃ input output, AsksForRun arguments.tail input output) ∧
          program = match arguments with
            | [] => defaultProgram
            | name :: _ => name.display := by
  have program_eq : (arguments.head?.map RawText.display).getD defaultProgram =
      match arguments with
        | [] => defaultProgram
        | name :: _ => name.display := by
    cases arguments <;> rfl
  simp only [asksForRun_iff]
  rw [ofArguments, program_eq]
  split
  case isTrue help => simp [help, eq_comm]
  case isFalse noHelp =>
    rw [Bool.not_eq_true] at noHelp
    simp only [noHelp, true_and]
    split
    case h_1 input output named => simp [named]
    case h_2 unnamed => simp [unnamed, eq_comm]

end HingeLoss
