import NfsProvisioner.Proofs.ParameterReading

/-!
# Quoted text is unambiguous

Character by character what is quoted can be read back, whatever follows it
(`readChar_quotedChar`), so a message that quotes an id tells which id it was, also if the id or the
reason looks like part of a message (`quote_append_inj`). A quotation keeps to one line, shows no
control characters, and ends at the first double quote that is not escaped (`contained_quote`).
-/
namespace NfsProvisioner

namespace Text

/-- The value of a lower-case hexadecimal digit. -/
def digitValue (c : Char) : Nat :=
  if c ≤ '9' then c.toNat - '0'.toNat else c.toNat - 'a'.toNat + 10

/-- The number that hexadecimal digits stand for. -/
def hexadecimalValue (digits : List Char) : Nat :=
  digits.foldl (fun n c => 16 * n + digitValue c) 0

theorem digitValue_digitChar {n : Nat} (h : n < 16) : digitValue n.digitChar = n := by
  have hall : ∀ n < 16, digitValue (Nat.digitChar n) = n := by decide
  exact hall n h

theorem hexadecimalValue_hexadecimal (n : Nat) : hexadecimalValue (hexadecimal n) = n := by
  induction n using Nat.strongRecOn with
  | ind n ih =>
    rw [hexadecimal, Nat.toDigits_eq_if (by decide)]
    split
    · next hsmall => simp [hexadecimalValue, digitValue_digitChar hsmall]
    · next hlarge =>
      have hquotient : hexadecimalValue (Nat.toDigits 16 (n / 16)) = n / 16 :=
        ih (n / 16) (by omega)
      have hremainder : digitValue (n % 16).digitChar = n % 16 :=
        digitValue_digitChar (by omega)
      rw [hexadecimalValue, List.foldl_append, ← hexadecimalValue, hquotient, List.foldl_cons,
        List.foldl_nil, hremainder]
      omega

theorem mem_hexadecimal {n : Nat} {c : Char} (h : c ∈ hexadecimal n) :
    ∃ digit < 16, c = Nat.digitChar digit := by
  induction n using Nat.strongRecOn with
  | ind n ih =>
    rw [hexadecimal, Nat.toDigits_eq_if (by decide)] at h
    split at h
    · next hsmall => exact ⟨n, hsmall, List.mem_singleton.1 h⟩
    · next hlarge =>
      rcases List.mem_append.1 h with h | h
      · exact ih (n / 16) (by omega) h
      · exact ⟨n % 16, by omega, List.mem_singleton.1 h⟩

/-- What holds of all hexadecimal digits and of the other characters of an escape holds of all
characters of the escape. -/
theorem forall_mem_codePointEscape (test : Char → Bool)
    (hdigits : ∀ n < 16, test (Nat.digitChar n) = true)
    (hothers : ['\\', 'u', '\x7b', '\x7d'].all test = true) (c : Char) :
    ∀ d ∈ codePointEscape c, test d = true := by
  have hall := List.all_eq_true.1 hothers
  intro d hd
  rw [codePointEscape, List.mem_append, List.mem_append] at hd
  rcases hd with (hd | hd) | hd
  · exact hall d (List.mem_append_left ['\x7d'] hd)
  · obtain ⟨n, hn, rfl⟩ := mem_hexadecimal hd
    exact hdigits n hn
  · exact hall d (List.mem_append_right ['\\', 'u', '\x7b'] hd)

/-- The escapes of one letter, with the characters that they stand for. -/
def shortEscapes : List (Char × Char) :=
  [('0', '\x00'), ('t', '\t'), ('r', '\r'), ('n', '\n'), ('"', '"'), ('\\', '\\')]

/-- The forms in which a character stands in quoted text. -/
theorem quotedChar_cases (c : Char) :
    (∃ letter, (letter, c) ∈ shortEscapes ∧ quotedChar c = ['\\', letter]) ∨
      quotedChar c = codePointEscape c ∨
      (quotedChar c = [c] ∧ c ≠ '"' ∧ c ≠ '\\' ∧ isUnprintable c = false) := by
  unfold quotedChar
  split
  · next h => exact .inl ⟨'0', by simp [h, shortEscapes], rfl⟩
  split
  · next h => exact .inl ⟨'t', by simp [h, shortEscapes], rfl⟩
  split
  · next h => exact .inl ⟨'r', by simp [h, shortEscapes], rfl⟩
  split
  · next h => exact .inl ⟨'n', by simp [h, shortEscapes], rfl⟩
  split
  · next h => exact .inl ⟨'"', by simp [h, shortEscapes], rfl⟩
  split
  · next h => exact .inl ⟨'\\', by simp [h, shortEscapes], rfl⟩
  next hquote hbackslash =>
  split
  · exact .inr (.inl rfl)
  · next h =>
    rw [Bool.or_eq_true, not_or] at h
    exact .inr (.inr ⟨rfl, hquote, hbackslash, by simpa using h.2⟩)

/-! ## Reading -/

/-- The character whose code point stands in hexadecimal up to the brace that closes it, and what
follows the brace. -/
def readCodePoint (text : List Char) : Char × List Char :=
  (Char.ofNat (hexadecimalValue (text.takeWhile (· != '\x7d'))),
    (text.dropWhile (· != '\x7d')).tail)

/-- The character that an escape stands for, given what follows the backslash, and what follows the
escape. -/
def readEscape (text : List Char) : Option (Char × List Char) :=
  if text.head? = some 'u' then some (readCodePoint (text.drop 2))
  else text.head?.bind fun letter => (shortEscapes.lookup letter).map fun c => (c, text.tail)

/-- The character that stands first in quoted text, as it is or as an escape, and what follows it.
At the end of a quotation there is none. -/
def readChar (text : List Char) : Option (Char × List Char) :=
  text.head?.bind fun c =>
    if c = '"' then none
    else if c = '\\' then readEscape text.tail
    else some (c, text.tail)

theorem readCodePoint_hexadecimal (c : Char) (rest : List Char) :
    readCodePoint (hexadecimal c.toNat ++ '\x7d' :: rest) = (c, rest) := by
  have hdigits : ∀ d ∈ hexadecimal c.toNat, (d != '\x7d') = true := by
    intro d hd
    obtain ⟨n, hn, rfl⟩ := mem_hexadecimal hd
    have hall : ∀ n < 16, (Nat.digitChar n != '\x7d') = true := by decide
    exact hall n hn
  rw [readCodePoint, List.takeWhile_append_of_pos hdigits, List.dropWhile_append_of_pos hdigits]
  simp [hexadecimalValue_hexadecimal]

/-- A quoted character is read back, whatever follows it. -/
theorem readChar_quotedChar (c : Char) (rest : List Char) :
    readChar (quotedChar c ++ rest) = some (c, rest) := by
  have hescape (text : List Char) : readChar ('\\' :: text) = readEscape text := rfl
  rcases quotedChar_cases c with ⟨letter, hletter, hform⟩ | hform | ⟨hform, hquote, hbackslash, -⟩
  · have hall : (shortEscapes.all fun escape => escape.1 != 'u' &&
        shortEscapes.lookup escape.1 == some escape.2) = true := by
      decide
    have hlisted := List.all_eq_true.1 hall _ hletter
    simp only [Bool.and_eq_true, bne_iff_ne, beq_iff_eq] at hlisted
    obtain ⟨hne, hlookup⟩ := hlisted
    rw [hform, List.cons_append, hescape]
    simp [readEscape, hne, hlookup]
  · have hcut : codePointEscape c ++ rest =
        '\\' :: 'u' :: '\x7b' :: (hexadecimal c.toNat ++ '\x7d' :: rest) := by
      simp [codePointEscape]
    have hcode (text : List Char) :
        readEscape ('u' :: '\x7b' :: text) = some (readCodePoint text) := rfl
    rw [hform, hcut, hescape, hcode, readCodePoint_hexadecimal]
  · rw [hform]
    simp [readChar, hquote, hbackslash]

/-- Where a quotation ends no character is read. -/
theorem readChar_quote (rest : List Char) : readChar ('"' :: rest) = none :=
  rfl

/-- Quoted text is told apart from what follows it. -/
theorem flatMap_quotedChar_inj {chars chars' rest rest' : List Char}
    (h : chars.flatMap quotedChar ++ '"' :: rest = chars'.flatMap quotedChar ++ '"' :: rest') :
    chars = chars' ∧ rest = rest' := by
  -- By the characters of both: what `readChar` finds first tells which of them go on.
  induction chars generalizing chars' with
  | nil =>
    cases chars' with
    | nil => exact ⟨rfl, (List.cons.inj h).2⟩
    | cons c' chars' =>
      have hread := congrArg readChar h
      rw [List.flatMap_nil, List.nil_append, readChar_quote, List.flatMap_cons, List.append_assoc,
        readChar_quotedChar] at hread
      cases hread
  | cons c chars ih =>
    have hread := congrArg readChar h
    rw [List.flatMap_cons, List.append_assoc, readChar_quotedChar] at hread
    cases chars' with
    | nil =>
      rw [List.flatMap_nil, List.nil_append, readChar_quote] at hread
      cases hread
    | cons c' chars' =>
      rw [List.flatMap_cons, List.append_assoc, readChar_quotedChar] at hread
      obtain ⟨hfirst, hothers⟩ := Prod.mk.inj (Option.some.inj hread)
      obtain ⟨hchars, hrest⟩ := ih hothers
      exact ⟨by rw [hfirst, hchars], hrest⟩

theorem toList_quote (text : String) :
    (quote text).toList = '"' :: (text.toList.flatMap quotedChar ++ ['"']) := by
  rw [quote, String.toList_ofList, List.cons_append]

/-- Two quotations that go on to the same text are the same, and so is what follows them. -/
theorem quote_append_inj {text text' : String} {rest rest' : List Char} :
    (quote text).toList ++ rest = (quote text').toList ++ rest' ↔ text = text' ∧ rest = rest' := by
  constructor
  · intro h
    rw [toList_quote, toList_quote, List.cons_append, List.cons_append, List.append_assoc,
      List.append_assoc] at h
    obtain ⟨htext, hrest⟩ := flatMap_quotedChar_inj (List.cons.inj h).2
    exact ⟨String.toList_inj.1 htext, hrest⟩
  · rintro ⟨rfl, rfl⟩
    rfl

/-! ## Where a quotation ends -/

/-- Whether what follows a text is escaped: the text ends with a backslash that is not escaped
itself. -/
def endsInEscape (text : List Char) : Bool :=
  text.foldl (fun escaped c => !escaped && c == '\\') false

/-- A control character (general category Cc). -/
def isControl (c : Char) : Bool :=
  decide (c.toNat < 0x20) || decide (0x7F ≤ c.toNat) && decide (c.toNat < 0xA0)

/-- A character that ends a line. -/
def isLineBreak (c : Char) : Bool :=
  ['\n', '\x0b', '\x0c', '\r', '\u0085', '\u2028', '\u2029'].contains c

/-- A quotation that can stand in a line of a log: it shows neither control characters nor line
breaks, and of its double quotes exactly the first and the last are not escaped. -/
structure Contained (quoted : List Char) : Prop where
  delimited : ∃ inner, quoted = '"' :: (inner ++ ['"'])
  visible : ∀ c ∈ quoted, isControl c = false ∧ isLineBreak c = false
  closed : ∀ before after, quoted = before ++ '"' :: after →
    (endsInEscape before = false ↔ before = [] ∨ after = [])

theorem unprintableRanges_eq :
    unprintableRanges = (0x0, 0x1F) :: (0x7F, 0xA0) :: unprintableRanges.drop 2 :=
  rfl

theorem isUnprintable_of_isControl {c : Char} (h : isControl c = true) :
    isUnprintable c = true := by
  simp only [isControl, Bool.or_eq_true, Bool.and_eq_true, decide_eq_true_eq] at h
  rw [isUnprintable, unprintableRanges_eq, inRanges, inRanges]
  simp only [Bool.and_eq_true, Bool.or_eq_true, decide_eq_true_eq]
  omega

theorem isUnprintable_of_isLineBreak {c : Char} (h : isLineBreak c = true) :
    isUnprintable c = true := by
  have hall : ['\n', '\x0b', '\x0c', '\r', '\u0085', '\u2028', '\u2029'].all isUnprintable =
      true := by
    decide +kernel
  exact List.all_eq_true.1 hall c (List.contains_iff_mem.1 h)

/-- All that stands in quoted text is visible. -/
theorem printable_of_mem_quotedChar {c d : Char} (h : d ∈ quotedChar c) :
    isUnprintable d = false := by
  rcases quotedChar_cases c with ⟨letter, hletter, hform⟩ | hform | ⟨hform, -, -, hc⟩
  · have hall : (shortEscapes.all fun escape =>
        ['\\', escape.1].all fun d => !isUnprintable d) = true := by
      decide
    rw [hform] at h
    simpa using List.all_eq_true.1 (List.all_eq_true.1 hall _ hletter) d h
  · have hdigits : ∀ n < 16, (!isUnprintable (Nat.digitChar n)) = true := by decide
    rw [hform] at h
    simpa using forall_mem_codePointEscape (fun d => !isUnprintable d) hdigits (by decide) c d h
  · rw [hform, List.mem_singleton] at h
    rwa [h]

theorem endsInEscape_concat (text : List Char) (c : Char) :
    endsInEscape (text ++ [c]) = (!endsInEscape text && c == '\\') := by
  rw [endsInEscape, List.foldl_append]
  rfl

/-- A quoted character is a complete escape: what follows it is not escaped by it. -/
theorem endsInEscape_quotedChar_append (c : Char) (rest : List Char) :
    endsInEscape (quotedChar c ++ rest) = endsInEscape rest := by
  have hcomplete : endsInEscape (quotedChar c) = false := by
    rcases quotedChar_cases c with ⟨letter, -, hform⟩ | hform | ⟨hform, -, hbackslash, -⟩
    · rw [hform]
      rfl
    · rw [hform, codePointEscape, endsInEscape_concat, Bool.and_eq_false_iff]
      exact .inr (by decide)
    · simpa [hform, endsInEscape] using hbackslash
  rw [endsInEscape, List.foldl_append, ← endsInEscape, hcomplete, ← endsInEscape]

/-- A double quote in a quoted character is escaped. -/
theorem escaped_in_quotedChar {c : Char} {before after : List Char}
    (h : quotedChar c = before ++ '"' :: after) : endsInEscape before = true := by
  have hmem : '"' ∈ quotedChar c := h ▸ List.mem_append_right before List.mem_cons_self
  rcases quotedChar_cases c with ⟨letter, -, hform⟩ | hform | ⟨hform, hquote, -, -⟩
  · rw [hform] at h
    match before with
    | [] => cases h
    | [d] =>
      obtain rfl : '\\' = d := (List.cons.inj h).1
      rfl
    | _ :: _ :: _ => simp at h
  · rw [hform] at hmem
    have hdigits : ∀ n < 16, (Nat.digitChar n != '"') = true := by decide
    have hne := forall_mem_codePointEscape (· != '"') hdigits (by decide) c '"' hmem
    cases hne
  · rw [hform, List.mem_singleton] at hmem
    exact absurd hmem.symm hquote

/-- Every double quote in quoted text is escaped. -/
theorem escaped_in_flatMap {chars before after : List Char}
    (h : chars.flatMap quotedChar = before ++ '"' :: after) : endsInEscape before = true := by
  induction chars generalizing before with
  | nil => simp at h
  | cons c chars ih =>
    rw [List.flatMap_cons] at h
    rcases List.append_eq_append_iff.1 h with ⟨rest, rfl, hrest⟩ | ⟨rest, hform, hrest⟩
    · rw [endsInEscape_quotedChar_append]
      exact ih hrest
    · cases rest with
      | nil =>
        have hfirst : chars.flatMap quotedChar = [] ++ '"' :: after := hrest.symm
        cases ih hfirst
      | cons d rest =>
        obtain rfl : '"' = d := (List.cons.inj hrest).1
        exact escaped_in_quotedChar hform

/-- Quoted text is complete: the double quote that ends it is not escaped. -/
theorem endsInEscape_flatMap (chars : List Char) :
    endsInEscape (chars.flatMap quotedChar) = false := by
  induction chars with
  | nil => rfl
  | cons c chars ih => rw [List.flatMap_cons, endsInEscape_quotedChar_append, ih]

theorem contained_quote (text : String) : Contained (quote text).toList := by
  rw [toList_quote]
  constructor
  · exact ⟨_, rfl⟩
  · intro c hc
    have hprintable : isUnprintable c = false := by
      rw [List.mem_cons, List.mem_append, List.mem_flatMap, List.mem_singleton] at hc
      rcases hc with rfl | ⟨d, -, hc⟩ | rfl
      · decide
      · exact printable_of_mem_quotedChar hc
      · decide
    rw [Bool.eq_false_iff] at hprintable
    exact ⟨Bool.eq_false_iff.2 fun h => hprintable (isUnprintable_of_isControl h),
      Bool.eq_false_iff.2 fun h => hprintable (isUnprintable_of_isLineBreak h)⟩
  · intro before after h
    cases before with
    | nil => exact iff_of_true rfl (.inl rfl)
    | cons d before =>
      obtain rfl : '"' = d := (List.cons.inj h).1
      have hinner : text.toList.flatMap quotedChar ++ ['"'] = before ++ '"' :: after :=
        (List.cons.inj h).2
      have hskip : endsInEscape ('"' :: before) = endsInEscape before := rfl
      rw [hskip]
      rcases List.eq_nil_or_concat after with rfl | ⟨inner, last, rfl⟩
      · obtain ⟨rfl, -⟩ := List.append_inj' hinner rfl
        exact iff_of_true (endsInEscape_flatMap _) (.inr rfl)
      · rw [List.concat_eq_append, ← List.cons_append, ← List.append_assoc] at hinner
        obtain ⟨hquoted, -⟩ := List.append_inj' hinner rfl
        refine iff_of_false ?_ (by simp)
        rw [escaped_in_flatMap hquoted]
        exact Bool.noConfusion

end Text

/-! ## What an error tells -/

namespace Error

theorem toList_message_malformedIdentifier (id reason : String) :
    (malformedIdentifier id reason).message.toList =
      "volume id ".toList ++
        ((Text.quote id).toList ++ (" unexpected format: ".toList ++ reason.toList)) := by
  change ("volume id " ++ Text.quote id ++ " unexpected format: " ++ reason).toList = _
  generalize Text.quote id = quoted
  simp only [String.toList_append, List.append_assoc]

theorem message_malformedIdentifier_inj {id reason id' reason' : String} :
    (malformedIdentifier id reason).message = (malformedIdentifier id' reason').message ↔
      id = id' ∧ reason = reason' := by
  rw [← String.toList_inj, toList_message_malformedIdentifier, toList_message_malformedIdentifier,
    List.append_cancel_left_eq, Text.quote_append_inj, List.append_cancel_left_eq,
    String.toList_inj]

end Error

namespace ParameterFault

theorem toList_message_unknown (key : String) :
    (unknown key).message.toList =
      "invalid parameter ".toList ++ ((Text.quote key).toList ++ []) := by
  change ("invalid parameter " ++ Text.quote key).toList = _
  generalize Text.quote key = quoted
  rw [String.toList_append, List.append_nil]

theorem message_unknown_inj {key key' : String} :
    (unknown key).message = (unknown key').message ↔ key = key' := by
  rw [← String.toList_inj, toList_message_unknown, toList_message_unknown,
    List.append_cancel_left_eq, Text.quote_append_inj, and_iff_left rfl]

/-- What else than an unknown key can be wrong with the parameters of a volume: a parameter is
missing, or a name is not plain. -/
inductive OfKnownKeys : ParameterFault → Prop where
  | missing (parameter : Parameter) : OfKnownKeys (.missing parameter)
  | slashInName {what : String} (h : what ∈ ["base-dir", "server", "name"]) (value : String) :
    OfKnownKeys (.slashInName what value)
  | relativeName {what : String} (h : what ∈ ["base-dir", "server", "name"]) (value : String) :
    OfKnownKeys (.relativeName what value)

theorem ofKnownKeys_of_checkName {what value : String} {fault : ParameterFault}
    (hwhat : what ∈ ["base-dir", "server", "name"]) (h : checkName what value = .error fault) :
    OfKnownKeys fault := by
  unfold checkName at h
  split at h
  · obtain rfl := Except.error.inj h
    exact .slashInName hwhat value
  split at h
  · obtain rfl := Except.error.inj h
    exact .relativeName hwhat value
  · cases h

theorem ofKnownKeys_of_required {parameter : Parameter} {given : Option String}
    {fault : ParameterFault} (h : ParameterValues.required parameter given = .error fault) :
    OfKnownKeys fault := by
  have hmissing : fault = .missing parameter := by
    unfold ParameterValues.required at h
    split at h
    · split at h
      · exact (Except.error.inj h).symm
      · cases h
    · exact (Except.error.inj h).symm
  rw [hmissing]
  exact .missing parameter

/-- The texts of all other faults begin otherwise than that of an unknown key. -/
theorem OfKnownKeys.head?_message {fault : ParameterFault} (h : OfKnownKeys fault) :
    fault.message.toList.head? ≠ some 'i' := by
  have hwhat {what : String} (hmem : what ∈ ["base-dir", "server", "name"]) (quoted rest : String) :
      (what ++ " " ++ quoted ++ rest).toList.head? ≠ some 'i' := by
    simp only [List.mem_cons, List.not_mem_nil, or_false] at hmem
    rcases hmem with rfl | rfl | rfl <;> simp
  cases h with
  | missing parameter => cases parameter <;> decide
  | slashInName hmem value => exact hwhat hmem (Text.quote value) " must not contain '/'"
  | relativeName hmem value => exact hwhat hmem (Text.quote value) " is not a directory name"

end ParameterFault

/-- The error that refuses a key. -/
def Error.unknownParameter (key : String) : Error :=
  .invalidArgument (ParameterFault.unknown key).message

theorem Error.message_unknownParameter_inj {key key' : String} :
    (unknownParameter key).message = (unknownParameter key').message ↔ key = key' :=
  (String.append_right_inj "invalid argument: ").trans ParameterFault.message_unknown_inj

namespace Placement

variable {name : String} {entries : List (String × String)}

/-- What is wrong with parameters that are refused. -/
theorem read_error_cases {fault : ParameterFault} (h : read name entries = .error fault) :
    (∃ key, fault = .unknown key) ∨ fault.OfKnownKeys := by
  unfold read at h
  rcases bind_eq_error_iff.1 h with hfold | ⟨values, -, h⟩
  · by_cases hunknown : ∃ entry ∈ entries, Parameter.Unknown entry.1
    · obtain ⟨entry, -, -, herror⟩ := ParameterValues.foldlM_add_of_unknown hunknown {}
      exact .inl ⟨entry.1, Except.error.inj (hfold.symm.trans herror)⟩
    · obtain ⟨values, hok, -⟩ := @ParameterValues.foldlM_add_of_known entries
        (fun entry hentry hkey => hunknown ⟨entry, hentry, hkey⟩) {}
      cases hfold.symm.trans hok
  -- Known keys have been read, so from here on the fault is in their values.
  right
  rcases bind_eq_error_iff.1 h with hserver | ⟨server, -, h⟩
  · exact ParameterFault.ofKnownKeys_of_required hserver
  rcases bind_eq_error_iff.1 h with hbaseDir | ⟨baseDir, -, h⟩
  · exact ParameterFault.ofKnownKeys_of_required hbaseDir
  rcases bind_eq_error_iff.1 h with hcheckBase | ⟨_, -, h⟩
  · exact ParameterFault.ofKnownKeys_of_checkName (by decide) hcheckBase
  rcases bind_eq_error_iff.1 h with hcheckServer | ⟨_, -, h⟩
  · exact ParameterFault.ofKnownKeys_of_checkName (by decide) hcheckServer
  rcases bind_eq_error_iff.1 h with hcheckName | ⟨_, -, h⟩
  · exact ParameterFault.ofKnownKeys_of_checkName (by decide) hcheckName
  · cases h

theorem ofParameters_error_inv {e : Error} (h : ofParameters name entries = .error e) :
    ∃ fault, read name entries = .error fault ∧ e = .invalidArgument fault.message := by
  unfold ofParameters at h
  split at h
  · cases h
  · next fault hread => exact ⟨fault, hread, (Except.error.inj h).symm⟩

/-- The text of the error tells which key has been refused as unknown. -/
theorem message_eq_unknownParameter_iff {e : Error} (h : ofParameters name entries = .error e)
    (key : String) :
    e.message = (Error.unknownParameter key).message ↔
      read name entries = .error (.unknown key) := by
  obtain ⟨fault, hread, rfl⟩ := ofParameters_error_inv h
  constructor
  · intro hsame
    have hmessage : fault.message = (ParameterFault.unknown key).message :=
      (String.append_right_inj "invalid argument: ").1 hsame
    rcases read_error_cases hread with ⟨key', rfl⟩ | hknown
    · rw [hread, ParameterFault.message_unknown_inj.1 hmessage]
    · have hhead : fault.message.toList.head? = some 'i' := by
        rw [hmessage, ParameterFault.toList_message_unknown]
        rfl
      exact absurd hhead hknown.head?_message
  · intro hunknown
    rw [Except.error.inj (hread.symm.trans hunknown)]
    rfl

end Placement

/-- The text of an error that quotes an id tells the id and the reason, and that of an error that
quotes a key of the parameters tells the key, also among all that can be wrong with parameters. Both
are quoted in a way that does no harm to a log, whatever they hold. -/
theorem quoted_errors_are_unambiguous (id reason key : String) :
    ((∀ id' reason' : String,
        (Error.malformedIdentifier id reason).message =
          (Error.malformedIdentifier id' reason').message ↔ id = id' ∧ reason = reason') ∧
      (Error.malformedIdentifier id reason).message =
        "volume id " ++ Text.quote id ++ " unexpected format: " ++ reason ∧
      Text.Contained (Text.quote id).toList) ∧
    (∀ key' : String,
      (Error.unknownParameter key).message = (Error.unknownParameter key').message ↔
        key = key') ∧
    (∀ (name : String) (entries : List (String × String)) (e : Error),
      Placement.ofParameters name entries = .error e →
        (e.message = (Error.unknownParameter key).message ↔
          Placement.read name entries = .error (.unknown key))) ∧
    (Error.unknownParameter key).message =
      "invalid argument: " ++ ("invalid parameter " ++ Text.quote key) ∧
    Text.Contained (Text.quote key).toList :=
  ⟨⟨fun _ _ => Error.message_malformedIdentifier_inj, rfl, Text.contained_quote id⟩,
    fun _ => Error.message_unknownParameter_inj,
    fun _ _ _ h => Placement.message_eq_unknownParameter_iff h key, rfl,
    Text.contained_quote key⟩

/-- A reason that looks like the end of a quotation is not mistaken for it, and a key that would end
the line and the quotation is told by the error that refuses it. -/
theorem Sample.key_with_quote_is_told :
    let key := "a\" \u2028"
    let entries := [("server", "s1"), (key, "base")]
    (Error.malformedIdentifier "a\" unexpected format: b" "c").message ≠
      (Error.malformedIdentifier "a" "b\" unexpected format: c").message ∧
    Placement.read "vol1" entries = .error (.unknown key) ∧
    ∃ e, Placement.ofParameters "vol1" entries = .error e ∧
      e.message = (Error.unknownParameter key).message ∧
      Text.Contained (Text.quote key).toList := by
  intro key entries
  have hserver : Parameter.ofKey? "server" = some .server := by decide +kernel
  have hkey : Parameter.ofKey? key = none := by decide +kernel
  have hfold : entries.foldlM ParameterValues.add {} = .error (.unknown key) := by
    simp only [entries, List.foldlM_cons, ParameterValues.add, hserver, hkey]
    rfl
  have hread : Placement.read "vol1" entries = .error (.unknown key) := by
    rw [Placement.read, hfold]
    rfl
  obtain ⟨⟨hids, -, -⟩, -, hkeys, -, hcontained⟩ :=
    quoted_errors_are_unambiguous "a\" unexpected format: b" "c" key
  refine ⟨fun hsame => absurd ((hids _ _).1 hsame).2 (by decide), hread, ?_⟩
  have hrefused : Placement.ofParameters "vol1" entries = .error (.unknownParameter key) := by
    rw [Placement.ofParameters, hread]
    rfl
  exact ⟨_, hrefused, (hkeys "vol1" entries _ hrefused).2 hread, hcontained⟩

end NfsProvisioner
