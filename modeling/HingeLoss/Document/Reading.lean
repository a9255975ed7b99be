import HingeLoss.Document.SolvedValues
import HingeLoss.Document.Validation
import HingeLoss.Json.Value

/-!
# Reading documents

A problem is a JSON record of its variables, constraints and summands, of which the last two may be
left out; a term is a record of its numbers and names. Either may also be written as the list of its
fields in order. A variable is named by a string or by a whole number, and the number is the same
name as its digits. Values of keys that are not known are passed over.
-/

namespace HingeLoss

open Json Json.Reader

/-- Reads a name: a string, or a whole number of 64 bits. All other values are refused alike. -/
def readName (depth : Nat) : Reader String := do
  match ← untyped depth with
  | .text name => return name
  | .natural number => return nameOfInt number
  | .negative magnitude => return nameOfInt (-magnitude)
  | .other => throw (.noVariant "Raw")

/-- A field that may not be left out. -/
def requiredField {α : Type} (name : String) : Option α → Reader α
  | some value => return value
  | none => throw (.missingField name)

/-- An element that may not be left out of a listed record. -/
def requiredElement {α : Type} (index : Nat) (wanted : String) : Option α → Reader α
  | some value => return value
  | none => throw (.invalidLength index wanted)

/-- The fields of a term that have been read so far. -/
structure TermFields where
  constant : Option Float
  names : Option (List String)
  coefficients : Option (List Float)
  weight : Option (Option Float)
  squared : Option Bool

namespace TermFields

def empty : TermFields := ⟨none, none, none, none, none⟩

/-- Reads the value of a key of a term into its field. -/
def read (depth : Nat) (key : String) (fields : TermFields) : Reader TermFields :=
  match key with
  | "constant" =>
      field "constant" fields.constant float fun found => { fields with constant := some found }
  | "variables" =>
      field "variables" fields.names (list depth (readName (depth - 1)))
        fun found => { fields with names := some found }
  | "coefficients" =>
      field "coefficients" fields.coefficients (list depth float)
        fun found => { fields with coefficients := some found }
  | "weight" =>
      field "weight" fields.weight optionalFloat fun found => { fields with weight := some found }
  | "squared" =>
      field "squared" fields.squared boolean fun found => { fields with squared := some found }
  | _ => unknownField fields

/-- The term, once all keys have been read. Only weight and squaring have defaults, and missing
fields are reported in order. -/
def toTerm (fields : TermFields) : Reader (Term Float) := do
  let constant ← requiredField "constant" fields.constant
  let names ← requiredField "variables" fields.names
  let coefficients ← requiredField "coefficients" fields.coefficients
  return ⟨constant, names, coefficients, fields.weight.getD none, fields.squared.getD false⟩

end TermFields

namespace Term

/-- Reads a term from its keys, up to the closing brace. -/
def readKeyed (depth : Nat) : Reader (Term Float) := do
  let fields ← recordBody (TermFields.read depth) .empty
  fields.toTerm

/-- Reads a term from its fields in order; the last two may be left out. -/
def readListed (depth : Nat) : Reader (Term Float) := do
  let wanted := "struct Term with 5 elements"
  let constant ← requiredElement 0 wanted (← nextElement float true)
  let names ← requiredElement 1 wanted
    (← nextElement (list depth (readName (depth - 1))) false)
  let coefficients ← requiredElement 2 wanted (← nextElement (list depth float) false)
  let weight ← nextElement optionalFloat false
  let squared ← nextElement boolean false
  return ⟨constant, names, coefficients, weight.getD none, squared.getD false⟩

/-- Reads a term in either form. -/
def read (depth : Nat) : Reader (Term Float) :=
  record depth "struct Term" (readKeyed (depth - 1)) (readListed (depth - 1))

/-- The term that a text consists of. -/
def fromText (text : String) : Except Fault (Term Float) :=
  runWhole (read depthLimit) (sourceOf text)

end Term

/-- The name that a text consists of. -/
def nameFromText (text : String) : Except Fault String :=
  runWhole (readName depthLimit) (sourceOf text)

/-- The fields of a problem that have been read so far. -/
structure ProblemFields where
  names : Option (List String)
  constraints : Option (List (Term Float))
  summands : Option (List (Term Float))

namespace ProblemFields

def empty : ProblemFields := ⟨none, none, none⟩

/-- Reads the value of a key of a problem into its field. -/
def read (depth : Nat) (key : String) (fields : ProblemFields) : Reader ProblemFields :=
  match key with
  | "variables" =>
      field "variables" fields.names (list depth (readName (depth - 1)))
        fun found => { fields with names := some found }
  | "constraints" =>
      field "constraints" fields.constraints (list depth (Term.read (depth - 1)))
        fun found => { fields with constraints := some found }
  | "objectiveSummands" =>
      field "objectiveSummands" fields.summands (list depth (Term.read (depth - 1)))
        fun found => { fields with summands := some found }
  | _ => unknownField fields

end ProblemFields

namespace HingeProblem

/-- Reads a problem from its keys; only the variables are required. -/
def readKeyed (depth : Nat) : Reader (HingeProblem Float) := do
  let fields ← recordBody (ProblemFields.read depth) .empty
  let names ← requiredField "variables" fields.names
  return ⟨names, fields.constraints.getD [], fields.summands.getD []⟩

/-- Reads a problem from its fields in order; only the first one is required. -/
def readListed (depth : Nat) : Reader (HingeProblem Float) := do
  let names ← requiredElement 0 "struct HingeProblem with 3 elements"
    (← nextElement (list depth (readName (depth - 1))) true)
  let constraints ← nextElement (list depth (Term.read (depth - 1))) false
  let summands ← nextElement (list depth (Term.read (depth - 1))) false
  return ⟨names, constraints.getD [], summands.getD []⟩

/-- Reads a problem in either form, without checking it. -/
def read (depth : Nat) : Reader (HingeProblem Float) :=
  record depth "struct HingeProblem" (readKeyed (depth - 1)) (readListed (depth - 1))

/-- The valid problem that a source describes. -/
def fromSource (source : Source) : Except Failure (HingeProblem Float) := do
  let problem ← (runWhole (read depthLimit) source).mapError Failure.json
  problem.validate
  return problem

/-- The valid problem that a text describes. -/
def fromText (text : String) : Except Failure (HingeProblem Float) :=
  fromSource (sourceOf text)

end HingeProblem

namespace SolvedValues

/-- Puts a value behind all others, or in the place of the value that its name has already. -/
def put (values : SolvedValues Float) (name : String) (value : Float) : SolvedValues Float :=
  if values.entries.any fun entry => entry.1 == name then
    ⟨values.entries.map fun entry => if entry.1 == name then (name, value) else entry⟩
  else ⟨values.entries ++ [(name, value)]⟩

/-- Reads the value of a name into a solution. -/
def readEntry (name : String) (values : SolvedValues Float) : Reader (SolvedValues Float) := do
  colon
  let value ← float
  return values.put name value

/-- Reads the values of a solution, which are an object from names to numbers. -/
def readEntries (depth : Nat) : Reader (SolvedValues Float) := do
  match ← peekToken with
  | none => throw .eofInValue
  | some (some '\x7b') =>
      enter depth
      let values ← recordBody readEntry ⟨[]⟩
      eat
      return values
  | some _ => refuse "a map"

/-- Reads the value of a key of a solution; only one key is known. -/
def readField (depth : Nat) (key : String) (found : Option (SolvedValues Float)) :
    Reader (Option (SolvedValues Float)) :=
  match key with
  | "solution" => field "solution" found (readEntries depth) some
  | _ => unknownField found

/-- Reads a solution from its keys. -/
def readKeyed (depth : Nat) : Reader (SolvedValues Float) := do
  let values ← recordBody (readField depth) none
  requiredField "solution" values

/-- Reads a solution that is a list of just the values. -/
def readListed (depth : Nat) : Reader (SolvedValues Float) := do
  let values ← nextElement (readEntries depth) true
  requiredElement 0 "struct SolvedValues with 1 element" values

/-- Reads a solution: a record with the values under the key `solution`, or a list of just the
values. -/
def read (depth : Nat) : Reader (SolvedValues Float) :=
  record depth "struct SolvedValues" (readKeyed (depth - 1)) (readListed (depth - 1))

/-- The solution that a text consists of. -/
def fromText (text : String) : Except Fault (SolvedValues Float) :=
  runWhole (read depthLimit) (sourceOf text)

end SolvedValues

end HingeLoss
