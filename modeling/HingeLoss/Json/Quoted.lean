import HingeLoss.Json.Source

/-!
# JSON strings

In a quoted string, quotes, backslashes and control characters are escaped. Any character may be
written by its code; one beyond the first 65536 is then written as a pair of surrogates.
-/

namespace HingeLoss.Json

/-- The value of a hexadecimal digit, in upper or lower case. -/
def hexDigit? (character : Char) : Option Nat :=
  let code := character.toNat
  if '0'.toNat ≤ code ∧ code ≤ '9'.toNat then some (code - '0'.toNat)
  else if 'a'.toNat ≤ code ∧ code ≤ 'f'.toNat then some (code - 'a'.toNat + 10)
  else if 'A'.toNat ≤ code ∧ code ≤ 'F'.toNat then some (code - 'A'.toNat + 10)
  else none

/-- The code that four hexadecimal digits spell. -/
def hexCode? (first second third fourth : Option Char) : Option Nat := do
  let a ← hexDigit? (← first)
  let b ← hexDigit? (← second)
  let c ← hexDigit? (← third)
  let d ← hexDigit? (← fourth)
  return ((a * 16 + b) * 16 + c) * 16 + d

/-- The first half of a surrogate pair. -/
def isLeading (code : Nat) : Bool := 0xD800 ≤ code && code ≤ 0xDBFF

/-- The second half of a surrogate pair. -/
def isTrailing (code : Nat) : Bool := 0xDC00 ≤ code && code ≤ 0xDFFF

/-- The character that is written as a pair of surrogates. -/
def pairCharacter (leading trailing : Nat) : Char :=
  Char.ofNat (0x10000 + (leading - 0xD800) * 0x400 + (trailing - 0xDC00))

/-- The character that a letter stands for after a backslash. -/
def simpleEscape? : Char → Option Char
  | '"' => some '"'
  | '\\' => some '\\'
  | '/' => some '/'
  | 'b' => some '\x08'
  | 'f' => some '\x0c'
  | 'n' => some '\n'
  | 'r' => some '\r'
  | 't' => some '\t'
  | _ => none

/-- The fault of an escape by code that does not spell four digits. A code takes four bytes, and the
text may end before them. -/
def codeFault (rest : Source) : Fault :=
  let width (character : Option Char) : Nat := (character.map Char.utf8Size).getD 1
  if (rest.map width).foldl (· + ·) 0 < 4 then .eofInString else .invalidEscape

/-- Puts a character in front of what is read after it. -/
def before (character : Option Char) (read : Except Fault (Source × Source)) :
    Except Fault (Source × Source) :=
  read.map fun (characters, rest) => (character :: characters, rest)

/-- The characters of a string up to its closing quote, and what follows the quote. -/
def stringBody : Source → Except Fault (Source × Source)
  | [] => .error .eofInString
  | some '"' :: rest => .ok ([], rest)
  | some '\\' :: some 'u' :: first :: second :: third :: fourth :: rest =>
      match hexCode? first second third fourth with
      | none => .error .invalidEscape
      | some code =>
          if isTrailing code then .error .loneSurrogate
          else if isLeading code then
            match rest with
            | some '\\' :: some 'u' :: first :: second :: third :: fourth :: rest =>
                match hexCode? first second third fourth with
                | none => .error .invalidEscape
                | some trailing =>
                    if isTrailing trailing then
                      before (some (pairCharacter code trailing)) (stringBody rest)
                    else .error .loneSurrogate
            | [] | [some '\\'] => .error .eofInString
            | some '\\' :: some 'u' :: rest => .error (codeFault rest)
            | _ => .error .unfinishedSurrogate
          else before (some (Char.ofNat code)) (stringBody rest)
  | some '\\' :: some 'u' :: rest => .error (codeFault rest)
  | some '\\' :: some letter :: rest =>
      match simpleEscape? letter with
      | some character => before (some character) (stringBody rest)
      | none => .error .invalidEscape
  | [some '\\'] => .error .eofInString
  | some '\\' :: none :: _ => .error .invalidEscape
  | none :: rest => before none (stringBody rest)
  | some character :: rest =>
      if character.toNat < 0x20 then .error .controlCharacter
      else before (some character) (stringBody rest)

/-- Passes over a string up to its closing quote. What is not read as text may contain lone
surrogates and gaps. -/
def skipStringBody : Source → Except Fault Source
  | [] => .error .eofInString
  | some '"' :: rest => .ok rest
  | some '\\' :: some 'u' :: first :: second :: third :: fourth :: rest =>
      match hexCode? first second third fourth with
      | none => .error .invalidEscape
      | some _ => skipStringBody rest
  | some '\\' :: some 'u' :: rest => .error (codeFault rest)
  | some '\\' :: some letter :: rest =>
      match simpleEscape? letter with
      | some _ => skipStringBody rest
      | none => .error .invalidEscape
  | [some '\\'] => .error .eofInString
  | some '\\' :: none :: _ => .error .invalidEscape
  | none :: rest => skipStringBody rest
  | some character :: rest =>
      if character.toNat < 0x20 then .error .controlCharacter else skipStringBody rest

namespace Reader

/-- Reads a string, the opening quote of which has been seen. -/
def string : Reader String := do
  eat
  let (characters, rest) ← liftM (stringBody (← get))
  set rest
  match characters.mapM id with
  | some text => return String.ofList text
  | none => throw .invalidCodePoint

/-- Passes over a string, the opening quote of which has been seen. -/
def skipString : Reader Unit := do
  eat
  let rest ← liftM (skipStringBody (← get))
  set rest

end Reader

def hexDigit (value : Nat) : Char :=
  if value < 10 then Char.ofNat ('0'.toNat + value) else Char.ofNat ('a'.toNat + value - 10)

/-- The way in which a character is written in a quoted string. Only quotes, backslashes and control
characters are escaped. -/
def escaped (character : Char) : List Char :=
  match character with
  | '"' => ['\\', '"']
  | '\\' => ['\\', '\\']
  | '\x08' => ['\\', 'b']
  | '\x0c' => ['\\', 'f']
  | '\n' => ['\\', 'n']
  | '\r' => ['\\', 'r']
  | '\t' => ['\\', 't']
  | other =>
      if other.toNat < 0x20 then
        ['\\', 'u', '0', '0', hexDigit (other.toNat / 16), hexDigit (other.toNat % 16)]
      else [other]

/-- A text as a JSON string. -/
def quoted (text : String) : String :=
  String.ofList ('"' :: (text.toList.flatMap escaped ++ ['"']))

end HingeLoss.Json
