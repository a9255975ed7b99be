import HingeLoss.Json.Skip
import HingeLoss.Text.Shown

/-!
# Reading values of known shape

Readers for numbers, truth values, lists and records. A reader that meets a value of another kind
says what it met and what it wanted. Lists and records may be nested to a limited depth; `depth` is
the number of further levels.
-/

namespace HingeLoss.Json

/-- The levels of nesting that a text may have, plus one. -/
def depthLimit : Nat := 128

namespace Reader

/-- Refuses a level of nesting below the last one. -/
def enter (depth : Nat) : Reader Unit := do
  eat
  if depth ≤ 1 then throw .recursionLimit

/-- Refuses the value that comes next. To say what was met, a scalar value is read first, and a
fault inside of it is reported instead. -/
def refuse {α : Type} (wanted : String) : Reader α := do
  match ← peekToken with
  | some (some character) =>
      if character = 'n' then
        restOfWord "ull"
        throw (.invalidType .null wanted)
      else if character = 't' then
        restOfWord "rue"
        throw (.invalidType (.boolean true) wanted)
      else if character = 'f' then
        restOfWord "alse"
        throw (.invalidType (.boolean false) wanted)
      else if character = '-' ∨ character.isDigit then
        let met ← number
        throw (.invalidType met.unexpected wanted)
      else if character = '"' then
        let met ← string
        throw (.invalidType (.string (Text.shownQuoted met)) wanted)
      else if character = '[' then throw (.invalidType .sequence wanted)
      else if character = '\x7b' then throw (.invalidType .object wanted)
      else throw .expectedValue
  | _ => throw .expectedValue

/-- Reads a number as a double. -/
def float : Reader Float := do
  match ← peekToken with
  | none => throw .eofInValue
  | some character =>
      if character = some '-' || isDigit character then
        let found ← number
        return found.toFloat
      else refuse "f64"

/-- Reads a number, or `null` for none. -/
def optionalFloat : Reader (Option Float) := do
  match ← peekToken with
  | some (some 'n') =>
      restOfWord "ull"
      return none
  | _ =>
      let found ← float
      return some found

def boolean : Reader Bool := do
  match ← peekToken with
  | none => throw .eofInValue
  | some (some 't') =>
      restOfWord "rue"
      return true
  | some (some 'f') =>
      restOfWord "alse"
      return false
  | some _ => refuse "a boolean"

/-- Reads the next element of a list with the comma in front of it; absent before the closing
bracket. -/
def nextElement {α : Type} (element : Reader α) (first : Bool) : Reader (Option α) := do
  match ← peekToken with
  | none => throw .eofInList
  | some (some ']') => return none
  | some character =>
      if first then
        let found ← element
        return some found
      else if character = some ',' then
        eat
        match ← peekToken with
        | none => throw .eofInValue
        | some (some ']') => throw .trailingComma
        | some _ =>
            let found ← element
            return some found
      else throw .expectedListCommaOrEnd

/-- Reads elements up to the closing bracket, which is left. -/
def elements {α : Type} (element : Reader α) : Nat → Bool → Reader (List α)
  | 0, _ => throw .eofInList
  | fuel + 1, first => do
      match ← nextElement element first with
      | none => return []
      | some head =>
          let tail ← elements element fuel false
          return head :: tail

/-- Reads the closing bracket of a list that has to be at its end. -/
def closeList : Reader Unit := do
  match ← peekToken with
  | none => throw .eofInList
  | some (some ']') => eat
  | some (some ',') =>
      eat
      match ← peekToken with
      | some (some ']') => throw .trailingComma
      | _ => throw .trailingCharacters
  | some _ => throw .trailingCharacters

/-- Reads a list behind its opening bracket. Each element takes a character at least, so the length
of the text is enough fuel. -/
def listBody {α : Type} (element : Reader α) : Reader (List α) := do
  let found ← elements element ((← get).length + 1) true
  closeList
  return found

def list {α : Type} (depth : Nat) (element : Reader α) : Reader (List α) := do
  match ← peekToken with
  | none => throw .eofInValue
  | some (some '[') =>
      enter depth
      listBody element
  | some _ => refuse "a sequence"

/-- Reads the next key of an object with the comma in front of it; absent before the closing brace.
-/
def nextKey (first : Bool) : Reader (Option String) := do
  match ← peekToken with
  | none => throw .eofInObject
  | some (some '\x7d') => return none
  | some character =>
      if first then
        if character = some '"' then
          let key ← string
          return some key
        else throw .keyMustBeString
      else if character = some ',' then
        eat
        match ← peekToken with
        | none => throw .eofInValue
        | some (some '"') =>
            let key ← string
            return some key
        | some (some '\x7d') => throw .trailingComma
        | some _ => throw .keyMustBeString
      else throw .expectedObjectCommaOrEnd

/-- Reads members up to the closing brace, which is left. `member` reads the colon and the value
of a key and adds them to what was collected. -/
def members {σ : Type} (member : String → σ → Reader σ) : Nat → Bool → σ → Reader σ
  | 0, _, _ => throw .eofInObject
  | fuel + 1, first, collected => do
      match ← nextKey first with
      | none => return collected
      | some key =>
          let collected ← member key collected
          members member fuel false collected

/-- Reads all members of an object behind its opening brace; the closing one is left. -/
def recordBody {σ : Type} (member : String → σ → Reader σ) (start : σ) : Reader σ := do
  let collected ← members member ((← get).length + 1) true start
  return collected

/-- Reads the value of a key that may be given once. -/
def field {α σ : Type} (name : String) (already : Option α) (value : Reader α)
    (store : α → σ) : Reader σ := do
  if already.isSome then throw (.duplicateField name)
  colon
  let found ← value
  return store found

/-- Passes over the value of a key that is not known. -/
def unknownField {σ : Type} (collected : σ) : Reader σ := do
  colon
  skipValue
  return collected

/-- Reads a record, which may be written with keys or as a list of its fields in order. -/
def record {α : Type} (depth : Nat) (wanted : String) (keyed listed : Reader α) : Reader α := do
  match ← peekToken with
  | none => throw .eofInValue
  | some (some '[') =>
      enter depth
      let found ← listed
      closeList
      return found
  | some (some '\x7b') =>
      enter depth
      let found ← keyed
      eat
      return found
  | some _ => refuse wanted

/-- Any value, of which only strings and whole numbers are kept. -/
inductive Untyped where
  | text (value : String)
  | natural (value : Nat)
  | negative (magnitude : Nat)
  | other

/-- Reads any value within a limited depth, and keeps what it was if it can be a name. -/
def untyped : Nat → Reader Untyped
  | 0 => throw .recursionLimit
  | depth + 1 => do
      match ← peekToken with
      | none => throw .eofInValue
      | some none => throw .expectedValue
      | some (some character) =>
          if character = 'n' then
            restOfWord "ull"
            return .other
          else if character = 't' then
            restOfWord "rue"
            return .other
          else if character = 'f' then
            restOfWord "alse"
            return .other
          else if character = '-' ∨ character.isDigit then
            match ← number with
            | .natural value => return .natural value
            | .negative magnitude => return .negative magnitude
            | .float _ => return .other
          else if character = '"' then
            let text ← string
            return .text text
          else if character = '[' then
            enter (depth + 1)
            let _ ← listBody (untyped depth)
            return .other
          else if character = '\x7b' then
            enter (depth + 1)
            let member : String → Unit → Reader Unit := fun _ _ => do
              colon
              let _ ← untyped depth
              return ()
            recordBody member ()
            eat
            return .other
          else throw .expectedValue

end Reader

end HingeLoss.Json
