import NfsProvisioner.Text.Unprintable
import NfsProvisioner.Text.GraphemeExtend

/-!
# Quoted text

How a text supplied by a caller is shown inside a message: between double quotes, with every
character that does not print, that would end the quotation, or that would be drawn onto its
neighbour written as an escape. A reader of the message can therefore tell exactly which text was
supplied, and the text can neither break the line nor close the quotation.
-/
namespace NfsProvisioner.Text

/-- A number in lower-case hexadecimal, without leading zeros. -/
def hexadecimal (n : Nat) : List Char :=
  Nat.toDigits 16 n

/-- The escape that names a character by its code point. -/
def codePointEscape (c : Char) : List Char :=
  ['\\', 'u', '\x7b'] ++ hexadecimal c.toNat ++ ['\x7d']

/-- The two sound marks of halfwidth katakana. They have the property Grapheme_Extend, but they are
letters with a width of their own and can be told apart from the letter before them. -/
def isHalfwidthSoundMark (c : Char) : Bool :=
  c == '\uff9e' || c == '\uff9f'

/-- A character that is drawn onto the one before it. -/
def isDrawnOntoNeighbour (c : Char) : Bool :=
  isGraphemeExtend c && !isHalfwidthSoundMark c

/-- A character as it stands in quoted text. -/
def quotedChar (c : Char) : List Char :=
  if c = '\x00' then ['\\', '0']
  else if c = '\t' then ['\\', 't']
  else if c = '\r' then ['\\', 'r']
  else if c = '\n' then ['\\', 'n']
  else if c = '"' then ['\\', '"']
  else if c = '\\' then ['\\', '\\']
  else if isDrawnOntoNeighbour c || isUnprintable c then codePointEscape c
  else [c]

/-- A text between double quotes, escaped. -/
def quote (text : String) : String :=
  String.ofList ('"' :: text.toList.flatMap quotedChar ++ ['"'])

end NfsProvisioner.Text
