import HingeLoss.Json.Number
import HingeLoss.Json.Quoted

/-!
# Values that are not read

The value of an unknown key only has to be well formed. It is passed over without recursion, so it
may be nested to any depth: the open brackets are kept in a list, the innermost first.
-/

namespace HingeLoss.Json

/-- The kinds of values that contain others. -/
inductive Bracket where
  | list
  | object
deriving DecidableEq, Repr

namespace Bracket

/-- The fault of a text that ends inside of the bracket. -/
def eof : Bracket → Fault
  | .list => .eofInList
  | .object => .eofInObject

/-- The fault of a value that is followed by neither a comma nor the closing bracket. -/
def unfinished : Bracket → Fault
  | .list => .expectedListCommaOrEnd
  | .object => .expectedObjectCommaOrEnd

def closing : Bracket → Char
  | .list => ']'
  | .object => '\x7d'

end Bracket

namespace Reader

/-- Passes over digits, of which there is at least one. -/
def skipDigits : Reader Unit := do
  if (← digits).isEmpty then throw .invalidNumber

/-- Passes over a number behind its sign. It may be out of range, since it is not read. -/
def skipUnsigned : Reader Unit := do
  match ← get with
  | some '0' :: rest =>
      if rest.head?.any isDigit then throw .invalidNumber
      set rest
  | _ => skipDigits
  match ← get with
  | some '.' :: rest =>
      set rest
      skipDigits
  | _ => pure ()
  match ← get with
  | some mark :: rest =>
      if mark = 'e' ∨ mark = 'E' then
        set rest
        let _ ← exponentSign
        skipDigits
  | _ => pure ()

/-- Passes over a value without brackets, or the opening bracket of one with. -/
def skipScalar : Reader (Option Bracket) := do
  match ← peekToken with
  | none => throw .eofInValue
  | some none => throw .expectedValue
  | some (some character) =>
      if character = 'n' then
        restOfWord "ull"
        return none
      else if character = 't' then
        restOfWord "rue"
        return none
      else if character = 'f' then
        restOfWord "alse"
        return none
      else if character = '-' then
        eat
        skipUnsigned
        return none
      else if character.isDigit then
        skipUnsigned
        return none
      else if character = '"' then
        skipString
        return none
      else if character = '[' then
        eat
        return some .list
      else if character = '\x7b' then
        eat
        return some .object
      else throw .expectedValue

/-- Passes over the key of a member, and the colon behind it. -/
def skipKey : Reader Unit := do
  match ← peekToken with
  | some (some '"') => skipString
  | some _ => throw .keyMustBeString
  | none => throw .eofInObject
  colon

/-- Passes over closing brackets up to the next value inside of the open ones, and returns the
brackets that stay open. After a value a comma has to come before the next one. -/
def skipToNext : Nat → List Bracket → Bool → Reader (List Bracket)
  | 0, _, _ => throw .eofInValue
  | _, [], _ => return []
  | fuel + 1, bracket :: outer, afterValue => do
      match ← peekToken with
      | none => throw bracket.eof
      | some character =>
          if afterValue && character = some ',' then
            eat
            if bracket = .object then skipKey
            return bracket :: outer
          else if character = some bracket.closing then
            eat
            skipToNext fuel outer true
          else if afterValue then throw bracket.unfinished
          else
            if bracket = .object then skipKey
            return bracket :: outer

/-- Passes over values until no bracket is open. -/
def skipNested : Nat → List Bracket → Reader Unit
  | 0, _ => throw .eofInValue
  | fuel + 1, open_ => do
      let opened ← skipScalar
      let remaining ← skipToNext (fuel + 1) (opened.toList ++ open_) opened.isNone
      unless remaining.isEmpty do
        skipNested fuel remaining

/-- Passes over one value. Each round consumes a character, so the length of the text is enough
fuel. -/
def skipValue : Reader Unit := do
  skipNested ((← get).length + 1) []

end Reader

end HingeLoss.Json
