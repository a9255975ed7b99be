import HingeLoss.Text.Blank
import HingeLoss.Text.RawText

/-!
# Command-line arguments

The program takes two paths. Anything else, and any argument that reads as `help`, asks for the
usage text. There are no options: an argument that begins with a dash is refused, unless it is a
dash alone or stands after the first `--`.
-/

namespace HingeLoss

open Text

/-- What a call of the program asks for. -/
inductive Invocation where
  | usage (program : String)
  | run (input output : RawText)
deriving DecidableEq

/-- The name of the program where the arguments do not tell it. -/
def defaultProgram : String := "cvx_reasoner"

def usageText (program : String) : String :=
  "USAGE: " ++ program ++ " <input path> <output path>\n" ++
    "   input path  - the path to a JSON file describing the optimization problem.\n" ++
    "   output path - the path where the solution will be written.\n"

/-- Whether an argument reads as `help` when dashes, outer white space and case are left aside. -/
def isHelp (argument : List Char) : Bool :=
  ((trimmed argument).map Char.toLower).filter (· ≠ '-') == "help".toList

def dash : UInt8 := 0x2D

/-- An argument that begins with a dash and does not end there. -/
def isOption (argument : RawText) : Bool :=
  match argument.bytes with
  | first :: _ :: _ => first == dash
  | _ => false

/-- The arguments that stand for values: all of them, apart from the first `--`. Options before it
are refused. -/
def positionals? : List RawText → Option (List RawText)
  | [] => some []
  | argument :: rest =>
      if argument.bytes = [dash, dash] then some rest
      else if isOption argument then none
      else (positionals? rest).map (argument :: ·)

/-- The two paths, if the arguments are exactly two that stand for values and neither is empty. -/
def pathsOf? (arguments : List RawText) : Option (RawText × RawText) :=
  match positionals? arguments with
  | some [input, output] =>
      if input.bytes.isEmpty || output.bytes.isEmpty then none else some (input, output)
  | _ => none

/-- What a list of arguments asks for, the name of the program being the first. -/
def Invocation.ofArguments (arguments : List RawText) : Invocation :=
  let program := (arguments.head?.map RawText.display).getD defaultProgram
  let rest := arguments.tail
  if rest.any fun argument => isHelp argument.characters then .usage program
  else
    match pathsOf? rest with
    | some (input, output) => .run input output
    | none => .usage program

end HingeLoss
