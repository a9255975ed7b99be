import HingeLoss.Text.Unprintable

/-!
# Text in messages

Where a message repeats a piece of text, the text stands in quotes, and characters that would not
show are written by their code.
-/

namespace HingeLoss.Text

def shownCode (character : Char) : List Char :=
  ['\\', 'u', '\x7b'] ++ Nat.toDigits 16 character.toNat ++ ['\x7d']

/-- The way in which a character is shown between quotes. -/
def shownCharacter (character : Char) : List Char :=
  match character with
  | '"' => ['\\', '"']
  | '\\' => ['\\', '\\']
  | '\n' => ['\\', 'n']
  | '\r' => ['\\', 'r']
  | '\t' => ['\\', 't']
  | '\x00' => ['\\', '0']
  | other =>
      if other.toNat < 0x20 || isUnprintable other then shownCode other else [other]

/-- A piece of text in quotes. -/
def shownQuoted (text : String) : String :=
  String.ofList ('"' :: (text.toList.flatMap shownCharacter ++ ['"']))

end HingeLoss.Text
