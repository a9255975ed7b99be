/-!
# Decoding UTF-8

Bytes are decoded one at a time. A character that is under way knows how many bytes it still needs
and between which bounds the next one must lie; these bounds rule out overlong forms, surrogates
and numbers beyond the last code point as early as possible. Bytes that begin no character, and a
character that breaks off, leave one gap each in the decoded text.
-/

namespace HingeLoss.Text

/-- A character of which some bytes have been read. -/
structure PartialCharacter where
  code : Nat
  missing : Nat
  /-- The bounds of the next byte. -/
  low : Nat
  high : Nat

namespace PartialCharacter

/-- The character that a first byte begins, if it begins one of several bytes. -/
def begin? (byte : Nat) : Option PartialCharacter :=
  if 0xC2 ≤ byte ∧ byte ≤ 0xDF then some ⟨byte - 0xC0, 1, 0x80, 0xBF⟩
  else if byte = 0xE0 then some ⟨0, 2, 0xA0, 0xBF⟩
  else if byte = 0xED then some ⟨0xD, 2, 0x80, 0x9F⟩
  else if 0xE1 ≤ byte ∧ byte ≤ 0xEF then some ⟨byte - 0xE0, 2, 0x80, 0xBF⟩
  else if byte = 0xF0 then some ⟨0, 3, 0x90, 0xBF⟩
  else if 0xF1 ≤ byte ∧ byte ≤ 0xF3 then some ⟨byte - 0xF0, 3, 0x80, 0xBF⟩
  else if byte = 0xF4 then some ⟨4, 3, 0x80, 0x8F⟩
  else none

/-- Whether a byte can be the next one of the character. -/
def accepts (part : PartialCharacter) (byte : Nat) : Bool :=
  part.low ≤ byte && byte ≤ part.high

/-- The character with one more byte. Only the second byte has bounds of its own. -/
def extend (part : PartialCharacter) (byte : Nat) : PartialCharacter :=
  ⟨64 * part.code + (byte - 0x80), part.missing - 1, 0x80, 0xBF⟩

end PartialCharacter

/-- Decodes bytes after a character that may be under way; `none` stands for a gap. -/
def decodeAfter : Option PartialCharacter → List UInt8 → List (Option Char)
  | none, [] => []
  | some _, [] => [none]
  | none, byte :: rest =>
      if byte.toNat < 0x80 then some (Char.ofNat byte.toNat) :: decodeAfter none rest
      else
        match PartialCharacter.begin? byte.toNat with
        | some part => decodeAfter (some part) rest
        | none => none :: decodeAfter none rest
  | some part, byte :: rest =>
      if part.accepts byte.toNat then
        let extended := part.extend byte.toNat
        if extended.missing = 0 then
          some (Char.ofNat extended.code) :: decodeAfter none rest
        else decodeAfter (some extended) rest
      else if byte.toNat < 0x80 then
        none :: some (Char.ofNat byte.toNat) :: decodeAfter none rest
      else
        match PartialCharacter.begin? byte.toNat with
        | some next => none :: decodeAfter (some next) rest
        | none => none :: none :: decodeAfter none rest

/-- The characters that bytes spell in UTF-8, with a gap for each malformed stretch. -/
def decodeUtf8 (bytes : List UInt8) : List (Option Char) :=
  decodeAfter none bytes

end HingeLoss.Text
