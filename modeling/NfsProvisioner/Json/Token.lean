/-!
# The tokens of JSON text

JSON text is a sequence of tokens with blanks between them. A string token is kept as the text that
it stands for. An escape can name half of a surrogate pair; a string in which such a half stands
without the other is well formed but stands for no text. A number token is kept as a natural number
if it is written as one, without sign, fraction and exponent, and otherwise as it is written, since
nothing else is ever asked about it.

Every token is written in one way (`Token.text`) and may be read in several.
-/
namespace NfsProvisioner

inductive JsonNumber where
  | natural (n : Nat)
  /-- Any other number, as it is written. -/
  | other (literal : List Char)
deriving DecidableEq, Repr

inductive Token where
  | openArray
  | closeArray
  | openObject
  | closeObject
  | colon
  | comma
  | null
  | bool (b : Bool)
  | number (n : JsonNumber)
  /-- The text of a string, if it stands for one. -/
  | string (text : Option String)
deriving DecidableEq, Repr

namespace Token

/-- What stands in a string: a character, or a 16-bit unit that an escape names. -/
inductive Piece where
  | char (c : Char)
  | unit (n : Nat)
deriving DecidableEq, Repr

/-- The characters that pieces stand for. A unit that starts a surrogate pair needs its other half
right after it. -/
def assemble : List Piece → Option (List Char)
  | [] => some []
  | .char c :: rest => (assemble rest).map (c :: ·)
  | .unit n :: rest =>
    if n < 0xD800 ∨ 0xDFFF < n then (assemble rest).map (Char.ofNat n :: ·)
    else if 0xDC00 ≤ n then none
    else match rest with
      | .unit low :: others =>
        if 0xDC00 ≤ low ∧ low ≤ 0xDFFF then
          (assemble others).map
            (Char.ofNat (0x10000 + (n - 0xD800) * 0x400 + (low - 0xDC00)) :: ·)
        else none
      | _ => none

/-- The value of a hexadecimal digit. -/
def hexDigit? (c : Char) : Option Nat :=
  if '0' ≤ c ∧ c ≤ '9' then some (c.toNat - '0'.toNat)
  else if 'a' ≤ c ∧ c ≤ 'f' then some (c.toNat - 'a'.toNat + 10)
  else if 'A' ≤ c ∧ c ≤ 'F' then some (c.toNat - 'A'.toNat + 10)
  else none

/-- The value of four hexadecimal digits. -/
def hexUnit? (a b c d : Char) : Option Nat := do
  let a ← hexDigit? a
  let b ← hexDigit? b
  let c ← hexDigit? c
  let d ← hexDigit? d
  return ((a * 16 + b) * 16 + c) * 16 + d

/-- The character that a one-letter escape names. -/
def shortEscape? (c : Char) : Option Char :=
  if c = '"' ∨ c = '\\' ∨ c = '/' then some c
  else if c = 'b' then some '\x08'
  else if c = 'f' then some '\x0c'
  else if c = 'n' then some '\n'
  else if c = 'r' then some '\r'
  else if c = 't' then some '\t'
  else none

/-- The pieces of a string up to its closing quote, and what follows. Control characters must be
escaped. -/
def readPieces : List Char → Option (List Piece × List Char)
  | [] => none
  | '"' :: rest => some ([], rest)
  | '\\' :: 'u' :: a :: b :: c :: d :: rest => do
    let n ← hexUnit? a b c d
    let (pieces, rest) ← readPieces rest
    return (.unit n :: pieces, rest)
  | '\\' :: e :: rest => do
    let c ← shortEscape? e
    let (pieces, rest) ← readPieces rest
    return (.char c :: pieces, rest)
  | c :: rest =>
    if c.toNat < 0x20 ∨ c = '\\' then none
    else do
      let (pieces, rest) ← readPieces rest
      return (.char c :: pieces, rest)

/-- Reads a string after its opening quote. -/
def readString (text : List Char) : Option (Token × List Char) := do
  let (pieces, rest) ← readPieces text
  return (.string ((assemble pieces).map String.ofList), rest)

def isDigit (c : Char) : Bool :=
  '0' ≤ c && c ≤ '9'

/-- The number that digits stand for. -/
def digitsValue (digits : List Char) : Nat :=
  digits.foldl (fun n c => n * 10 + (c.toNat - '0'.toNat)) 0

/-- The digits before the point, which do not start with zero unless that is all, and what
follows. -/
def readWhole : List Char → Option (List Char × List Char)
  | '0' :: rest => some (['0'], rest)
  | text =>
    match text.takeWhile isDigit with
    | [] => none
    | digits => some (digits, text.dropWhile isDigit)

/-- A point and the digits after it, if there is a point. -/
def readFraction : List Char → Option (List Char × List Char)
  | '.' :: rest =>
    match rest.takeWhile isDigit with
    | [] => none
    | digits => some ('.' :: digits, rest.dropWhile isDigit)
  | text => some ([], text)

/-- The sign of an exponent. -/
def readSign : List Char → List Char × List Char
  | '+' :: rest => (['+'], rest)
  | '-' :: rest => (['-'], rest)
  | text => ([], text)

/-- An exponent, if there is one. -/
def readExponent : List Char → Option (List Char × List Char)
  | [] => some ([], [])
  | c :: rest =>
    if c = 'e' ∨ c = 'E' then
      let (sign, digitsOn) := readSign rest
      match digitsOn.takeWhile isDigit with
      | [] => none
      | digits => some (c :: sign ++ digits, digitsOn.dropWhile isDigit)
    else some ([], c :: rest)

/-- Reads a number. -/
def readNumber (text : List Char) : Option (Token × List Char) := do
  let (minus, unsigned) := match text with
    | '-' :: rest => (['-'], rest)
    | _ => ([], text)
  let (whole, rest) ← readWhole unsigned
  let (fraction, rest) ← readFraction rest
  let (exponent, rest) ← readExponent rest
  let n : JsonNumber :=
    if minus = [] ∧ fraction = [] ∧ exponent = [] then .natural (digitsValue whole)
    else .other (minus ++ whole ++ fraction ++ exponent)
  return (.number n, rest)

/-- The characters that may stand between tokens. -/
def isGap (c : Char) : Bool :=
  c == ' ' || c == '\t' || c == '\n' || c == '\r'

/-- Reads the token that the text starts with. -/
def readToken : List Char → Option (Token × List Char)
  | '[' :: rest => some (.openArray, rest)
  | ']' :: rest => some (.closeArray, rest)
  | '\x7b' :: rest => some (.openObject, rest)
  | '\x7d' :: rest => some (.closeObject, rest)
  | ':' :: rest => some (.colon, rest)
  | ',' :: rest => some (.comma, rest)
  | 'n' :: 'u' :: 'l' :: 'l' :: rest => some (.null, rest)
  | 't' :: 'r' :: 'u' :: 'e' :: rest => some (.bool true, rest)
  | 'f' :: 'a' :: 'l' :: 's' :: 'e' :: rest => some (.bool false, rest)
  | '"' :: rest => readString rest
  | text => readNumber text

/-- Reads the tokens of a text with at most the given number of characters. -/
def readAllWithin : Nat → List Char → Option (List Token)
  | _, [] => some []
  | 0, _ :: _ => none
  | bound + 1, c :: rest =>
    if isGap c then readAllWithin bound rest
    else do
      let (token, others) ← readToken (c :: rest)
      let tokens ← readAllWithin bound others
      return token :: tokens

/-- Reads the tokens of a text. -/
def readAll (text : List Char) : Option (List Token) :=
  readAllWithin text.length text

/-- A hexadecimal digit. -/
def hexDigit (n : Nat) : Char :=
  Nat.digitChar n

/-- A character as it is written in a string: quotes, backslashes and control characters escaped,
all else as it is. -/
def stringChar (c : Char) : List Char :=
  if c = '"' then ['\\', '"']
  else if c = '\\' then ['\\', '\\']
  else if c = '\x08' then ['\\', 'b']
  else if c = '\x0c' then ['\\', 'f']
  else if c = '\n' then ['\\', 'n']
  else if c = '\r' then ['\\', 'r']
  else if c = '\t' then ['\\', 't']
  else if c.toNat < 0x20 then
    ['\\', 'u', '0', '0', hexDigit (c.toNat / 16), hexDigit (c.toNat % 16)]
  else [c]

/-- How a token is written. A string that stands for no text is written as half of a surrogate
pair. -/
def text : Token → List Char
  | openArray => ['[']
  | closeArray => [']']
  | openObject => ['\x7b']
  | closeObject => ['\x7d']
  | colon => [':']
  | comma => [',']
  | null => "null".toList
  | bool true => "true".toList
  | bool false => "false".toList
  | number (.natural n) => Nat.toDigits 10 n
  | number (.other literal) => literal
  | string (some s) => '"' :: s.toList.flatMap stringChar ++ ['"']
  | string none => "\"\\ud800\"".toList

end Token
end NfsProvisioner
