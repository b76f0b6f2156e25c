/-!
# Reading bytes as text

UTF-8 read one byte at a time. Bytes that are no UTF-8 do not stop the reader: each longest run of
bytes that starts a character but does not finish it, and each byte that can start none, becomes
one replacement character.
-/
namespace NfsProvisioner.Text

/-- A character whose last bytes are still to come. -/
structure Unfinished where
  /-- How many bytes are missing. -/
  missing : Nat
  /-- The bits read so far. -/
  bits : Nat
  /-- The smallest and the largest value that the next byte may have. -/
  least : Nat
  greatest : Nat
deriving DecidableEq, Repr

/-- Stands for bytes that are no character. -/
def replacement : Char := '\uFFFD'

/-- What a byte means when no character is unfinished. The bounds on the byte after it exclude
code points written with too many bytes, surrogates, and everything above U+10FFFF. -/
def startChar (b : Nat) : List Char × Option Unfinished :=
  if b < 0x80 then ([Char.ofNat b], none)
  else if b < 0xC2 then ([replacement], none)
  else if b < 0xE0 then ([], some ⟨1, b - 0xC0, 0x80, 0xBF⟩)
  else if b < 0xF0 then
    ([], some ⟨2, b - 0xE0, if b = 0xE0 then 0xA0 else 0x80, if b = 0xED then 0x9F else 0xBF⟩)
  else if b < 0xF5 then
    ([], some ⟨3, b - 0xF0, if b = 0xF0 then 0x90 else 0x80, if b = 0xF4 then 0x8F else 0xBF⟩)
  else ([replacement], none)

/-- What a byte means after what was read before it: the characters that it completes, and the
character that it leaves unfinished. A byte that cannot continue the unfinished character ends it
as a replacement character and then starts anew. -/
def nextByte : Option Unfinished → Nat → List Char × Option Unfinished
  | none, b => startChar b
  | some u, b =>
    if u.least ≤ b ∧ b ≤ u.greatest then
      let bits := u.bits * 64 + (b - 0x80)
      if u.missing = 1 then ([Char.ofNat bits], none)
      else ([], some ⟨u.missing - 1, bits, 0x80, 0xBF⟩)
    else
      let (chars, rest) := startChar b
      (replacement :: chars, rest)

/-- The text of the bytes that follow an unfinished character. -/
def decodeAfter : Option Unfinished → List UInt8 → List Char
  | none, [] => []
  | some _, [] => [replacement]
  | u, b :: rest =>
    let (chars, u') := nextByte u b.toNat
    chars ++ decodeAfter u' rest

/-- The text of a run of bytes. -/
def decodeUtf8 (bytes : List UInt8) : List Char :=
  decodeAfter none bytes

end NfsProvisioner.Text
