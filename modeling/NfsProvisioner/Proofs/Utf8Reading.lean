import NfsProvisioner.Text.Utf8

/-!
# UTF-8 is read as the text that was written

A character is written as one to four bytes. Each form is followed through the reader: the first
byte says how many bytes are missing, and those after it bring six bits each. The bounds on the byte
after the first are met because a form is only used for code points that need it, and because no
character is a surrogate or above U+10FFFF.
-/
namespace NfsProvisioner.Text

theorem decodeAfter_cons (u : Option Unfinished) (b : UInt8) (rest : List UInt8) :
    decodeAfter u (b :: rest) =
      (nextByte u b.toNat).1 ++ decodeAfter (nextByte u b.toNat).2 rest := by
  cases u <;> rfl

/-- A byte that continues an unfinished character of which more than one byte is missing. -/
theorem decodeAfter_continued {u : Unfinished} {b : Nat} (hb : u.least ≤ b ∧ b ≤ u.greatest)
    (hbyte : b < 256) (hmissing : u.missing ≠ 1) (rest : List UInt8) :
    decodeAfter (some u) (.ofNat b :: rest) =
      decodeAfter (some ⟨u.missing - 1, u.bits * 64 + (b - 0x80), 0x80, 0xBF⟩) rest := by
  have htoNat : (UInt8.ofNat b).toNat = b := Nat.mod_eq_of_lt hbyte
  rw [decodeAfter_cons, htoNat, nextByte, if_pos hb, if_neg hmissing]
  rfl

theorem decodeAfter_finished {u : Unfinished} {b : Nat} (hb : u.least ≤ b ∧ b ≤ u.greatest)
    (hbyte : b < 256) (hmissing : u.missing = 1) (rest : List UInt8) :
    decodeAfter (some u) (.ofNat b :: rest) =
      Char.ofNat (u.bits * 64 + (b - 0x80)) :: decodeAfter none rest := by
  have htoNat : (UInt8.ofNat b).toNat = b := Nat.mod_eq_of_lt hbyte
  rw [decodeAfter_cons, htoNat, nextByte, if_pos hb, if_pos hmissing]
  rfl

theorem decodeAfter_start {b : Nat} (hbyte : b < 256) (rest : List UInt8) :
    decodeAfter none (.ofNat b :: rest) =
      (startChar b).1 ++ decodeAfter (startChar b).2 rest := by
  have htoNat : (UInt8.ofNat b).toNat = b := Nat.mod_eq_of_lt hbyte
  rw [decodeAfter_cons, htoNat, nextByte]

section

variable {n : Nat} (rest : List UInt8)

theorem decodeAfter_one (h : n ≤ 0x7F) :
    decodeAfter none (.ofNat n :: rest) = Char.ofNat n :: decodeAfter none rest := by
  rw [decodeAfter_start (by omega), startChar, if_pos (by omega)]
  rfl

theorem decodeAfter_two (hlow : 0x7F < n) (hhigh : n ≤ 0x7FF) :
    decodeAfter none (.ofNat (n / 64 % 32 + 0xC0) :: .ofNat (n % 64 + 0x80) :: rest) =
      Char.ofNat n :: decodeAfter none rest := by
  have hbits : (n / 64 % 32 + 0xC0 - 0xC0) * 64 + (n % 64 + 0x80 - 0x80) = n := by omega
  rw [decodeAfter_start (by omega), startChar, if_neg (by omega), if_neg (by omega),
    if_pos (by omega), List.nil_append,
    decodeAfter_finished (by dsimp only; omega) (by omega) rfl, hbits]

theorem decodeAfter_three (hlow : 0x7FF < n) (hhigh : n ≤ 0xFFFF)
    (hvalid : n < 0xD800 ∨ 0xDFFF < n) :
    decodeAfter none (.ofNat (n / 4096 % 16 + 0xE0) :: .ofNat (n / 64 % 64 + 0x80) ::
      .ofNat (n % 64 + 0x80) :: rest) = Char.ofNat n :: decodeAfter none rest := by
  have hbits : ((n / 4096 % 16 + 0xE0 - 0xE0) * 64 + (n / 64 % 64 + 0x80 - 0x80)) * 64 +
      (n % 64 + 0x80 - 0x80) = n := by omega
  rw [decodeAfter_start (by omega), startChar, if_neg (by omega), if_neg (by omega),
    if_neg (by omega), if_pos (by omega), List.nil_append,
    decodeAfter_continued (by dsimp only; constructor <;> split <;> omega) (by omega)
      (by dsimp only; omega),
    decodeAfter_finished (by dsimp only; omega) (by omega) rfl, hbits]

theorem decodeAfter_four (hlow : 0xFFFF < n) (hhigh : n < 0x110000) :
    decodeAfter none (.ofNat (n / 262144 % 8 + 0xF0) :: .ofNat (n / 4096 % 64 + 0x80) ::
      .ofNat (n / 64 % 64 + 0x80) :: .ofNat (n % 64 + 0x80) :: rest) =
        Char.ofNat n :: decodeAfter none rest := by
  have hbits : (((n / 262144 % 8 + 0xF0 - 0xF0) * 64 + (n / 4096 % 64 + 0x80 - 0x80)) * 64 +
      (n / 64 % 64 + 0x80 - 0x80)) * 64 + (n % 64 + 0x80 - 0x80) = n := by omega
  rw [decodeAfter_start (by omega), startChar, if_neg (by omega), if_neg (by omega),
    if_neg (by omega), if_neg (by omega), if_pos (by omega), List.nil_append,
    decodeAfter_continued (by dsimp only; constructor <;> split <;> omega) (by omega)
      (by dsimp only; omega),
    decodeAfter_continued (by dsimp only; omega) (by omega) (by dsimp only; omega),
    decodeAfter_finished (by dsimp only; omega) (by omega) rfl, hbits]

end

/-- The bytes of a character are read as that character. -/
theorem decodeAfter_encodeChar (c : Char) (rest : List UInt8) :
    decodeAfter none (String.utf8EncodeChar c ++ rest) = c :: decodeAfter none rest := by
  have hvalid : c.toNat < 0xD800 ∨ 0xDFFF < c.toNat ∧ c.toNat < 0x110000 := c.valid
  have hchar : Char.ofNat c.toNat = c := Char.ofNat_toNat c
  have hval : c.val.toNat = c.toNat := rfl
  unfold String.utf8EncodeChar
  dsimp only
  rw [hval]
  generalize c.toNat = n at hvalid hchar ⊢
  split
  · next hone => exact hchar ▸ decodeAfter_one rest hone
  split
  · next hone htwo => exact hchar ▸ decodeAfter_two rest (by omega) htwo
  split
  · next hone htwo hthree =>
    exact hchar ▸ decodeAfter_three rest (by omega) hthree (by omega)
  · next hone htwo hthree => exact hchar ▸ decodeAfter_four rest (by omega) (by omega)

/-- The bytes of a text are read as that text. -/
theorem decodeUtf8_toUTF8 (text : String) : decodeUtf8 text.toUTF8.data.toList = text.toList := by
  have hbytes : text.toUTF8.data.toList = text.toList.flatMap String.utf8EncodeChar := by
    rw [String.toUTF8_eq_toByteArray, ← String.utf8Encode_toList, List.utf8Encode]
    exact List.toList_data_toByteArray
  have hread : ∀ chars : List Char,
      decodeAfter none (chars.flatMap String.utf8EncodeChar) = chars := by
    intro chars
    induction chars with
    | nil => rfl
    | cons c rest ih => rw [List.flatMap_cons, decodeAfter_encodeChar, ih]
  rw [hbytes]
  exact hread text.toList

end NfsProvisioner.Text
