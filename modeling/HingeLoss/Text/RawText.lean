import HingeLoss.Text.Utf8

/-!
# Raw text

Command-line arguments and paths are byte strings which are usually, but not always, UTF-8. They
are compared and split as bytes, and shown with a replacement character for each malformed stretch.
-/

namespace HingeLoss.Text

/-- A byte string that is meant as text. -/
structure RawText where
  bytes : List UInt8
deriving DecidableEq

namespace RawText

/-- The bytes of a string in UTF-8. -/
def ofString (text : String) : RawText :=
  ⟨text.toUTF8.toList⟩

/-- The character that stands for what cannot be decoded. -/
def replacement : Char := Char.ofNat 0xFFFD

/-- The characters of the text, with replacements. -/
def characters (text : RawText) : List Char :=
  (decodeUtf8 text.bytes).map (·.getD replacement)

def display (text : RawText) : String :=
  String.ofList text.characters

end RawText

end HingeLoss.Text
