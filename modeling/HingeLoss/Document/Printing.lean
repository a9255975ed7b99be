import HingeLoss.Document.SolvedValues
import HingeLoss.Json.Quoted

/-!
# Writing documents

Documents are written as compact JSON, with the fields in their order. A weight that is absent is
left out. Numbers are written in the JSON style, so that reading them gives back the same doubles.
-/

namespace HingeLoss

open Decimal Json

/-- Texts of values as a JSON list. -/
def writtenList (elements : List String) : String :=
  "[" ++ ",".intercalate elements ++ "]"

/-- Texts of values as a JSON object, under their keys. -/
def writtenRecord (members : List (String × String)) : String :=
  "\x7b" ++ ",".intercalate (members.map fun (key, value) => quoted key ++ ":" ++ value) ++ "\x7d"

def writtenBool (value : Bool) : String := if value then "true" else "false"

def writtenFloat (value : Float) : String := NumeralStyle.json.render value

/-- A term as JSON, with all fields apart from a weight that is absent. -/
def Term.toText (term : Term Float) : String :=
  let weight :=
    match term.weight with
    | some weight => [("weight", writtenFloat weight)]
    | none => []
  writtenRecord
    ([("constant", writtenFloat term.constant),
      ("variables", writtenList (term.names.map quoted)),
      ("coefficients", writtenList (term.coefficients.map writtenFloat))] ++
      weight ++ [("squared", writtenBool term.squared)])

/-- A problem as JSON, with all fields, also those that are empty. -/
def HingeProblem.toText (problem : HingeProblem Float) : String :=
  writtenRecord
    [("variables", writtenList (problem.names.map quoted)),
      ("constraints", writtenList (problem.constraints.map Term.toText)),
      ("objectiveSummands", writtenList (problem.summands.map Term.toText))]

/-- A solution as JSON: the values under their names, in order, below one key. -/
def SolvedValues.toText (values : SolvedValues Float) : String :=
  writtenRecord
    [("solution", writtenRecord
      (values.entries.map fun (name, value) => (name, writtenFloat value)))]

end HingeLoss
