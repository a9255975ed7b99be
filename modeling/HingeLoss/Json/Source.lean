import HingeLoss.Json.Fault
import HingeLoss.Text.Utf8

/-!
# Reading JSON

A reader consumes a text from its beginning and returns a value with the rest, or the first fault it
meets. Readers look one character ahead and never go back, so the fault is the one at the earliest
place.
-/

namespace HingeLoss.Json

/-- The characters that are still to be read; a gap stands for bytes that are not UTF-8. -/
abbrev Source := List (Option Char)

/-- A text as a source, which has no gaps. -/
def sourceOf (text : String) : Source := text.toList.map some

/-- Steps that consume a source from its beginning and may fail. -/
abbrev Reader := StateT Source (Except Fault)

/-- White space between the parts of a text, of which there are four characters. -/
def isSpace (character : Option Char) : Bool :=
  character = some ' ' || character = some '\n' || character = some '\t' || character = some '\r'

def isDigit : Option Char → Bool
  | some character => character.isDigit
  | none => false

namespace Reader

/-- Consumes the next character, whatever it is. -/
def eat : Reader Unit := modify List.tail

/-- The next character after white space, which is consumed; absent at the end. -/
def peekToken : Reader (Option (Option Char)) :=
  modifyGet fun source =>
    let rest := source.dropWhile isSpace
    (rest.head?, rest)

/-- Reads given letters. Other letters and the end of the text are told apart. -/
def word : List Char → Reader Unit
  | [] => pure ()
  | letter :: letters => do
      match ← get with
      | [] => throw .eofInValue
      | character :: rest =>
          if character = some letter then
            set rest
            word letters
          else throw .expectedIdent

/-- Reads `null`, `true` or `false` after its first letter has been seen. -/
def restOfWord (letters : String) : Reader Unit := do
  eat
  word letters.toList

/-- Reads the colon between a key and its value. -/
def colon : Reader Unit := do
  match ← peekToken with
  | some (some ':') => eat
  | some _ => throw .expectedColon
  | none => throw .eofInObject

/-- Runs a reader on a source that has to end behind what is read, apart from white space. -/
def runWhole {α : Type} (reader : Reader α) (source : Source) : Except Fault α := do
  let (value, rest) ← reader.run source
  if (rest.dropWhile isSpace).isEmpty then .ok value else .error .trailingCharacters

end Reader

end HingeLoss.Json
