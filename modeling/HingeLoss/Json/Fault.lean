import HingeLoss.Files.Fault

/-!
# JSON faults

Why a JSON text could not be read as the value that was wanted. The texts say what was met, not
where.
-/

namespace HingeLoss.Json

/-- What was met in the place of a wanted value. -/
inductive Unexpected where
  | null
  | boolean (value : Bool)
  | integer (text : String)
  | float (text : String)
  | string (quoted : String)
  | sequence
  | object
deriving DecidableEq, Repr

def Unexpected.text : Unexpected → String
  | .null => "null"
  | .boolean value => "boolean `" ++ (if value then "true" else "false") ++ "`"
  | .integer text => "integer `" ++ text ++ "`"
  | .float text => "floating point `" ++ text ++ "`"
  | .string quoted => "string " ++ quoted
  | .sequence => "sequence"
  | .object => "map"

/-- Why a text was not read as the value that was wanted. -/
inductive Fault where
  | eofInList
  | eofInObject
  | eofInString
  | eofInValue
  | expectedColon
  | expectedListCommaOrEnd
  | expectedObjectCommaOrEnd
  | expectedIdent
  | expectedValue
  | invalidEscape
  | invalidNumber
  | numberOutOfRange
  | invalidCodePoint
  | controlCharacter
  | keyMustBeString
  | loneSurrogate
  | unfinishedSurrogate
  | trailingComma
  | trailingCharacters
  | recursionLimit
  | invalidType (met : Unexpected) (wanted : String)
  | invalidLength (length : Nat) (wanted : String)
  | missingField (name : String)
  | duplicateField (name : String)
  | noVariant (typeName : String)
  | unreadable (fault : FileFault)
  | described (text : String)
deriving DecidableEq, Repr

def Fault.message : Fault → String
  | .eofInList => "EOF while parsing a list"
  | .eofInObject => "EOF while parsing an object"
  | .eofInString => "EOF while parsing a string"
  | .eofInValue => "EOF while parsing a value"
  | .expectedColon => "expected `:`"
  | .expectedListCommaOrEnd => "expected `,` or `]`"
  | .expectedObjectCommaOrEnd => "expected `,` or `\x7d`"
  | .expectedIdent => "expected ident"
  | .expectedValue => "expected value"
  | .invalidEscape => "invalid escape"
  | .invalidNumber => "invalid number"
  | .numberOutOfRange => "number out of range"
  | .invalidCodePoint => "invalid unicode code point"
  | .controlCharacter => "control character (\\u0000-\\u001F) found while parsing a string"
  | .keyMustBeString => "key must be a string"
  | .loneSurrogate => "lone leading surrogate in hex escape"
  | .unfinishedSurrogate => "unexpected end of hex escape"
  | .trailingComma => "trailing comma"
  | .trailingCharacters => "trailing characters"
  | .recursionLimit => "recursion limit exceeded"
  | .invalidType met wanted => "invalid type: " ++ met.text ++ ", expected " ++ wanted
  | .invalidLength length wanted =>
      "invalid length " ++ toString length ++ ", expected " ++ wanted
  | .missingField name => "missing field `" ++ name ++ "`"
  | .duplicateField name => "duplicate field `" ++ name ++ "`"
  | .noVariant typeName => "data did not match any variant of untagged enum " ++ typeName
  | .unreadable fault => fault.message
  | .described text => text

end HingeLoss.Json
