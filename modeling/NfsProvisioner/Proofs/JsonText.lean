import NfsProvisioner.Json.Value

/-!
# What is written as JSON is read back

Shown for the values that wire forms are made of: their numbers are natural and their strings stand
for texts. Token by token, what is written is read back whatever follows it, except that a number
must not be followed by a digit; value by value, no number is followed by another one.
-/
namespace NfsProvisioner

namespace Token

/-- The piece of a string that a character is written as. -/
def pieceOf (c : Char) : Piece :=
  if c.toNat < 0x20 ∧ c ∉ ['\x08', '\x0c', '\n', '\r', '\t'] then .unit c.toNat else .char c

theorem hexUnit?_control {n : Nat} (h : n < 0x20) :
    hexUnit? '0' '0' (hexDigit (n / 16)) (hexDigit (n % 16)) = some n := by
  have hall : ∀ n < 0x20, hexUnit? '0' '0' (hexDigit (n / 16)) (hexDigit (n % 16)) = some n := by
    decide
  exact hall n h

theorem readPieces_unit {a b c d : Char} {n : Nat} (h : hexUnit? a b c d = some n)
    (rest : List Char) :
    readPieces ('\\' :: 'u' :: a :: b :: c :: d :: rest) =
      (readPieces rest).map fun (pieces, after) => (.unit n :: pieces, after) := by
  rw [readPieces, h]
  cases readPieces rest <;> rfl

theorem readPieces_escape {e c : Char} (h : shortEscape? e = some c) (hu : e ≠ 'u')
    (rest : List Char) :
    readPieces ('\\' :: e :: rest) =
      (readPieces rest).map fun (pieces, after) => (.char c :: pieces, after) := by
  rw [readPieces]
  · rw [h]
    cases readPieces rest <;> rfl
  · intro _ _ _ _ _ he
    exact absurd he hu

theorem readPieces_char {c : Char} (hquote : c ≠ '"') (hbackslash : c ≠ '\\')
    (hcontrol : ¬ c.toNat < 0x20) (rest : List Char) :
    readPieces (c :: rest) =
      (readPieces rest).map fun (pieces, after) => (.char c :: pieces, after) := by
  rw [readPieces]
  · rw [if_neg (by simp [hcontrol, hbackslash])]
    cases readPieces rest <;> rfl
  · exact hquote
  · intro _ _ _ _ _ hc
    exact absurd hc hbackslash
  · intro _ _ hc
    exact absurd hc hbackslash

/-- A character is read back, whatever follows it. -/
theorem readPieces_stringChar (c : Char) (rest : List Char) :
    readPieces (stringChar c ++ rest) =
      (readPieces rest).map fun (pieces, after) => (pieceOf c :: pieces, after) := by
  have hshort {e : Char} (he : shortEscape? e = some c) (hu : e ≠ 'u')
      (hc : pieceOf c = .char c) :
      readPieces ('\\' :: e :: rest) =
        (readPieces rest).map fun (pieces, after) => (pieceOf c :: pieces, after) := by
    rw [readPieces_escape he hu, hc]
  unfold stringChar
  split
  · next h => subst h; exact hshort (by decide) (by decide) (by decide)
  split
  · next h => subst h; exact hshort (by decide) (by decide) (by decide)
  split
  · next h => subst h; exact hshort (by decide) (by decide) (by decide)
  split
  · next h => subst h; exact hshort (by decide) (by decide) (by decide)
  split
  · next h => subst h; exact hshort (by decide) (by decide) (by decide)
  split
  · next h => subst h; exact hshort (by decide) (by decide) (by decide)
  split
  · next h => subst h; exact hshort (by decide) (by decide) (by decide)
  next hquote hbackslash hb hf hn hr ht =>
  split
  · next hcontrol =>
    have hpiece : pieceOf c = .unit c.toNat :=
      if_pos ⟨hcontrol, by simp [hb, hf, hn, hr, ht]⟩
    rw [hpiece]
    exact readPieces_unit (hexUnit?_control hcontrol) rest
  · next hcontrol =>
    have hpiece : pieceOf c = .char c := if_neg fun h => hcontrol h.1
    rw [hpiece]
    exact readPieces_char hquote hbackslash hcontrol rest

theorem readPieces_string (s rest : List Char) :
    readPieces (s.flatMap stringChar ++ '"' :: rest) = some (s.map pieceOf, rest) := by
  induction s with
  | nil => rfl
  | cons c s ih =>
    rw [List.flatMap_cons, List.append_assoc, readPieces_stringChar, ih]
    rfl

theorem assemble_unit {n : Nat} (h : n < 0xD800 ∨ 0xDFFF < n) (rest : List Piece) :
    assemble (.unit n :: rest) = (assemble rest).map (Char.ofNat n :: ·) := by
  rw [assemble.eq_def]
  exact if_pos h

/-- No character is written as half of a surrogate pair. -/
theorem assemble_pieces (s : List Char) : assemble (s.map pieceOf) = some s := by
  induction s with
  | nil => rfl
  | cons c s ih =>
    rw [List.map_cons, pieceOf]
    split
    · next h =>
      have hlow : c.toNat < 0xD800 ∨ 0xDFFF < c.toNat := by omega
      rw [assemble_unit hlow, ih, Char.ofNat_toNat]
      rfl
    · rw [assemble, ih]
      rfl

theorem readString_text (s : String) (rest : List Char) :
    readString (s.toList.flatMap stringChar ++ '"' :: rest) = some (.string (some s), rest) := by
  rw [readString, readPieces_string]
  simp [assemble_pieces]

theorem digitsValue_toDigits (n : Nat) : digitsValue (Nat.toDigits 10 n) = n := by
  have h := Nat.ofDigitChars_toDigits (b := 10) (n := n) (by decide) (by decide)
  simpa [digitsValue, Nat.ofDigitChars, Nat.mul_comm] using h

theorem isDigit_of_mem_toDigits {n : Nat} {c : Char} (h : c ∈ Nat.toDigits 10 n) :
    isDigit c = true :=
  Nat.isDigit_of_mem_toDigits (by decide) (by decide) h

/-- A positive number is written without a zero in front. -/
theorem head?_toDigits {n : Nat} (h : 0 < n) : (Nat.toDigits 10 n).head? ≠ some '0' := by
  induction n using Nat.strongRecOn with
  | ind n ih =>
    rw [Nat.toDigits_eq_if (by decide)]
    split
    · next hsmall =>
      have hall : ∀ n < 10, 0 < n → n.digitChar ≠ '0' := by decide
      simpa using hall n hsmall h
    · obtain ⟨c, digits, hdigits⟩ := List.exists_cons_of_ne_nil (@Nat.toDigits_ne_nil (n / 10) 10)
      have hhead := ih (n / 10) (by omega) (by omega)
      rw [hdigits] at hhead ⊢
      exact hhead

/-- What follows a natural number does not go on with it. -/
def EndsNumber (rest : List Char) : Prop :=
  ∀ c, rest.head? = some c → isDigit c = false ∧ c ≠ '.' ∧ c ≠ 'e' ∧ c ≠ 'E'

theorem readWhole_toDigits (n : Nat) {rest : List Char} (h : EndsNumber rest) :
    readWhole (Nat.toDigits 10 n ++ rest) = some (Nat.toDigits 10 n, rest) := by
  rcases Nat.eq_zero_or_pos n with rfl | hpos
  · rfl
  have htake : (Nat.toDigits 10 n ++ rest).takeWhile isDigit = Nat.toDigits 10 n := by
    rw [List.takeWhile_append_of_pos fun c hc => isDigit_of_mem_toDigits hc]
    cases rest with
    | nil => simp
    | cons c rest => simp [(h c rfl).1]
  have hdrop : (Nat.toDigits 10 n ++ rest).dropWhile isDigit = rest := by
    rw [List.dropWhile_append_of_pos fun c hc => isDigit_of_mem_toDigits hc]
    cases rest with
    | nil => rfl
    | cons c rest => simp [(h c rfl).1]
  rw [readWhole, htake, hdrop]
  · split
    · next hnil => exact absurd hnil Nat.toDigits_ne_nil
    · rfl
  · intro others hzero
    obtain ⟨c, digits, hdigits⟩ := List.exists_cons_of_ne_nil (@Nat.toDigits_ne_nil n 10)
    have hhead := head?_toDigits hpos
    rw [hdigits] at hhead hzero
    exact hhead (congrArg some (List.cons.inj hzero).1)

theorem readNumber_toDigits (n : Nat) {rest : List Char} (h : EndsNumber rest) :
    readNumber (Nat.toDigits 10 n ++ rest) = some (.number (.natural n), rest) := by
  have hfraction : readFraction rest = some ([], rest) := by
    unfold readFraction
    split
    · next others => exact absurd rfl (h '.' rfl).2.1
    · rfl
  have hexponent : readExponent rest = some ([], rest) := by
    unfold readExponent
    split
    · rfl
    · next c others =>
      have hc := (h c rfl).2.2
      exact if_neg fun he => he.elim hc.1 hc.2
  have hminus : ∀ others, Nat.toDigits 10 n ++ rest ≠ '-' :: others := by
    intro others heq
    obtain ⟨c, digits, hdigits⟩ := List.exists_cons_of_ne_nil (@Nat.toDigits_ne_nil n 10)
    have hc : isDigit c = true := isDigit_of_mem_toDigits (n := n) (by simp [hdigits])
    rw [hdigits] at heq
    obtain rfl := (List.cons.inj heq).1
    cases hc
  unfold readNumber
  split
  next minus unsigned hsign =>
  split at hsign
  · next others heq => exact absurd heq (hminus others)
  · obtain ⟨rfl, rfl⟩ := Prod.mk.inj hsign
    simp [readWhole_toDigits n h, hfraction, hexponent, digitsValue_toDigits]

/-- A token of values that wire forms are made of. -/
def Legible : Token → Prop
  | number (.other _) | string none => False
  | _ => True

theorem readToken_digit {c : Char} (h : isDigit c = true) (rest : List Char) :
    readToken (c :: rest) = readNumber (c :: rest) := by
  unfold readToken
  split
  all_goals first
    | rfl
    | (next heq =>
        obtain rfl := (List.cons.inj heq).1
        cases h)

theorem isGap_of_isDigit {c : Char} (h : isDigit c = true) : isGap c = false := by
  cases hgap : isGap c with
  | false => rfl
  | true =>
    simp only [isGap, Bool.or_eq_true, beq_iff_eq] at hgap
    rcases hgap with ((rfl | rfl) | rfl) | rfl <;> cases h

/-- A token starts with a character that is no blank, and with a digit only if it is a number. -/
theorem text_eq_cons {t : Token} (h : t.Legible) :
    ∃ c tail, t.text = c :: tail ∧ isGap c = false ∧
      ((∀ n, t ≠ .number n) → isDigit c = false ∧ c ≠ '.' ∧ c ≠ 'e' ∧ c ≠ 'E') := by
  cases t with
  | openArray | closeArray | openObject | closeObject | colon | comma | null =>
    exact ⟨_, _, rfl, by decide, fun _ => by decide⟩
  | bool b => cases b <;> exact ⟨_, _, rfl, by decide, fun _ => by decide⟩
  | number n =>
    cases n with
    | natural n =>
      obtain ⟨c, digits, hdigits⟩ := List.exists_cons_of_ne_nil (@Nat.toDigits_ne_nil n 10)
      have hc : isDigit c = true := isDigit_of_mem_toDigits (n := n) (by simp [hdigits])
      exact ⟨c, digits, hdigits, isGap_of_isDigit hc, fun hn => absurd rfl (hn _)⟩
    | other literal => exact h.elim
  | string s =>
    cases s with
    | none => exact h.elim
    | some s => exact ⟨_, _, rfl, by decide, fun _ => by decide⟩

/-- A token is read back, whatever follows it, unless a number goes on. -/
theorem readToken_text {t : Token} (h : t.Legible) {rest : List Char}
    (hrest : (∃ n, t = .number n) → EndsNumber rest) :
    readToken (t.text ++ rest) = some (t, rest) := by
  cases t with
  | openArray | closeArray | openObject | closeObject | colon | comma | null => rfl
  | bool b => cases b <;> rfl
  | number n =>
    cases n with
    | natural n =>
      obtain ⟨c, digits, hdigits⟩ := List.exists_cons_of_ne_nil (@Nat.toDigits_ne_nil n 10)
      have hc : isDigit c = true := isDigit_of_mem_toDigits (n := n) (by simp [hdigits])
      have hread := readNumber_toDigits n (hrest ⟨_, rfl⟩)
      change readToken (Nat.toDigits 10 n ++ rest) = _
      rw [hdigits, List.cons_append] at hread ⊢
      rw [readToken_digit hc, hread]
    | other literal => exact h.elim
  | string s =>
    cases s with
    | none => exact h.elim
    | some s =>
      have hread := readString_text s rest
      change readToken ('"' :: (s.toList.flatMap stringChar ++ ['"'] ++ rest)) = _
      rw [List.append_assoc]
      exact hread

/-- Tokens of which no number is followed by another one. -/
def Readable : List Token → Prop
  | [] => True
  | t :: rest =>
    t.Legible ∧ ((∃ n, t = .number n) → ∀ n, rest.head? ≠ some (.number n)) ∧ Readable rest

theorem endsNumber_texts {tokens : List Token} (h : Readable tokens)
    (hhead : ∀ n, tokens.head? ≠ some (.number n)) : EndsNumber (tokens.flatMap text) := by
  cases tokens with
  | nil =>
    intro c hc
    cases hc
  | cons t rest =>
    obtain ⟨c, tail, htext, -, hends⟩ := text_eq_cons h.1
    intro d hd
    rw [List.flatMap_cons, htext] at hd
    obtain rfl := Option.some.inj hd
    exact hends fun n heq => hhead n (congrArg some heq)

theorem readAllWithin_texts {tokens : List Token} (h : Readable tokens) {bound : Nat}
    (hbound : (tokens.flatMap text).length ≤ bound) :
    readAllWithin bound (tokens.flatMap text) = some tokens := by
  induction tokens generalizing bound with
  | nil => cases bound <;> rfl
  | cons t rest ih =>
    obtain ⟨hlegible, hapart, hrest⟩ := h
    have hread : readToken (t.text ++ rest.flatMap text) = some (t, rest.flatMap text) :=
      readToken_text hlegible fun hn => endsNumber_texts hrest (hapart hn)
    obtain ⟨c, tail, htext, hgap, -⟩ := text_eq_cons hlegible
    rw [htext, List.cons_append] at hread
    rw [List.flatMap_cons, htext, List.cons_append] at hbound ⊢
    cases bound with
    | zero => cases hbound
    | succ bound =>
      have hshorter : (rest.flatMap text).length ≤ bound := by
        simp only [List.length_cons, List.length_append] at hbound
        omega
      rw [readAllWithin, hgap, hread]
      simp [ih hrest hshorter]

theorem readAll_texts {tokens : List Token} (h : Readable tokens) :
    readAll (tokens.flatMap text) = some tokens :=
  readAllWithin_texts h (Nat.le_refl _)

end Token

namespace Json

/-- The values that wire forms are made of. -/
inductive Legible : Json → Prop
  | null : Legible null
  | bool (b : Bool) : Legible (bool b)
  | natural (n : Nat) : Legible (natural n)
  | text (s : String) : Legible (text s)
  | array {items : List Json} (h : ∀ item ∈ items, Legible item) : Legible (array items)
  | record {members : List (String × Json)} (h : ∀ member ∈ members, Legible member.2) :
      Legible (record members)

/-- Tokens before which a number may stand. -/
def AfterNumber (tokens : List Token) : Prop :=
  ∀ n, tokens.head? ≠ some (.number n)

/-- A value can be written before whatever may follow a number. -/
def Fits (j : Json) : Prop :=
  ∀ rest, Token.Readable rest → AfterNumber rest → Token.Readable (j.tokens ++ rest)

theorem readable_itemTokens {items : List Json} (h : ∀ item ∈ items, item.Fits) {rest : List Token}
    (hrest : Token.Readable rest) :
    Token.Readable (itemTokens items ++ rest) ∧ AfterNumber (itemTokens items ++ rest) := by
  induction items with
  | nil => exact ⟨⟨trivial, nofun, hrest⟩, nofun⟩
  | cons item items ih =>
    obtain ⟨hitems, hafter⟩ := ih fun other hother => h other (List.mem_cons_of_mem item hother)
    have hitem := h item List.mem_cons_self _ hitems hafter
    simp only [itemTokens, List.cons_append, List.append_assoc]
    exact ⟨⟨trivial, nofun, hitem⟩, nofun⟩

theorem readable_memberTokens {members : List (String × Json)}
    (h : ∀ member ∈ members, member.2.Fits) {rest : List Token} (hrest : Token.Readable rest) :
    let named := members.map fun (name, value) => (some name, value)
    Token.Readable (memberTokens named ++ rest) ∧ AfterNumber (memberTokens named ++ rest) := by
  induction members with
  | nil => exact ⟨⟨trivial, nofun, hrest⟩, nofun⟩
  | cons member members ih =>
    obtain ⟨hmembers, hafter⟩ := ih fun other hother => h other (List.mem_cons_of_mem member hother)
    have hvalue := h member List.mem_cons_self _ hmembers hafter
    simp only [List.map_cons, memberTokens, List.cons_append, List.append_assoc]
    exact ⟨⟨trivial, nofun, trivial, nofun, trivial, nofun, hvalue⟩, nofun⟩

theorem Legible.fits {j : Json} (h : j.Legible) : j.Fits := by
  induction h with
  | null | bool b | text s => exact fun rest hrest _ => ⟨trivial, nofun, hrest⟩
  | natural n => exact fun rest hrest hafter => ⟨trivial, fun _ => hafter, hrest⟩
  | @array items h ih =>
    intro rest hrest _
    cases items with
    | nil => exact ⟨trivial, nofun, trivial, nofun, hrest⟩
    | cons item items =>
      obtain ⟨hitems, hafter⟩ :=
        readable_itemTokens (fun other hother => ih other (List.mem_cons_of_mem item hother)) hrest
      have hitem := ih item List.mem_cons_self _ hitems hafter
      simp only [tokens, List.cons_append, List.append_assoc]
      exact ⟨trivial, nofun, hitem⟩
  | @record members h ih =>
    intro rest hrest _
    cases members with
    | nil => exact ⟨trivial, nofun, trivial, nofun, hrest⟩
    | cons member members =>
      obtain ⟨hmembers, hafter⟩ := readable_memberTokens
        (fun other hother => ih other (List.mem_cons_of_mem member hother)) hrest
      have hvalue := ih member List.mem_cons_self _ hmembers hafter
      simp only [Json.record, List.map_cons, tokens, List.cons_append, List.append_assoc]
      exact ⟨trivial, nofun, trivial, nofun, trivial, nofun, hvalue⟩

/-- A value is read from its tokens, whatever is open and whatever follows. -/
def Reads (j : Json) : Prop :=
  ∀ stack rest, ofTokensFrom .value stack (j.tokens ++ rest) = ofTokensFrom (.after j) stack rest

theorem tokens_eq_cons (j : Json) : ∃ t tail, j.tokens = t :: tail ∧ t ≠ .closeArray := by
  rcases j with _ | b | n | s | (_ | ⟨item, items⟩) | (_ | ⟨⟨name, value⟩, members⟩) <;>
    exact ⟨_, _, rfl, by simp⟩

theorem ofTokensFrom_firstItem {t : Token} (h : t ≠ .closeArray) (stack : List Frame)
    (rest : List Token) :
    ofTokensFrom .firstItem stack (t :: rest) = ofTokensFrom .value stack (t :: rest) := by
  cases stack <;> cases t <;> first | rfl | exact absurd rfl h

/-- An item may come first. -/
theorem Reads.first {j : Json} (h : j.Reads) (stack : List Frame) (rest : List Token) :
    ofTokensFrom .firstItem stack (j.tokens ++ rest) = ofTokensFrom (.after j) stack rest := by
  obtain ⟨t, tail, htokens, ht⟩ := tokens_eq_cons j
  rw [← h stack rest, htokens, List.cons_append, ofTokensFrom_firstItem ht]

theorem ofTokensFrom_itemTokens {items : List Json} (h : ∀ item ∈ items, item.Reads) (j : Json)
    (done : List Json) (stack : List Frame) (rest : List Token) :
    ofTokensFrom (.after j) (.array done :: stack) (itemTokens items ++ rest) =
      ofTokensFrom (.after (.array (done.reverse ++ j :: items))) stack rest := by
  induction items generalizing j done with
  | nil => simp [itemTokens, ofTokensFrom]
  | cons item items ih =>
    simp only [itemTokens, List.cons_append, List.append_assoc]
    rw [ofTokensFrom, h item List.mem_cons_self,
      ih fun other hother => h other (List.mem_cons_of_mem item hother)]
    simp

theorem ofTokensFrom_memberTokens {members : List (String × Json)}
    (h : ∀ member ∈ members, member.2.Reads) (j : Json) (done : List (Option String × Json))
    (name : Option String) (stack : List Frame) (rest : List Token) :
    let named := members.map fun (name, value) => (some name, value)
    ofTokensFrom (.after j) (.object done name :: stack) (memberTokens named ++ rest) =
      ofTokensFrom (.after (.object (done.reverse ++ (name, j) :: named))) stack rest := by
  induction members generalizing j done name with
  | nil => simp [memberTokens, ofTokensFrom]
  | cons member members ih =>
    simp only [List.map_cons, memberTokens, List.cons_append, List.append_assoc]
    rw [ofTokensFrom, ofTokensFrom, ofTokensFrom, h member List.mem_cons_self,
      ih fun other hother => h other (List.mem_cons_of_mem member hother)]
    simp

theorem Legible.reads {j : Json} (h : j.Legible) : j.Reads := by
  induction h with
  | null | bool b | text s | natural n =>
    intro stack rest
    cases stack <;> rfl
  | @array items h ih =>
    intro stack rest
    cases items with
    | nil => cases stack <;> rfl
    | cons item items =>
      have hitems := ofTokensFrom_itemTokens
        (fun other hother => ih other (List.mem_cons_of_mem item hother)) item [] stack rest
      simp only [tokens, List.cons_append, List.append_assoc]
      rw [ofTokensFrom, (ih item List.mem_cons_self).first]
      exact hitems
  | @record members h ih =>
    intro stack rest
    cases members with
    | nil => cases stack <;> rfl
    | cons member members =>
      have hmembers := ofTokensFrom_memberTokens
        (fun other hother => ih other (List.mem_cons_of_mem member hother)) member.2 []
        (some member.1) stack rest
      simp only [Json.record, List.map_cons, tokens, List.cons_append, List.append_assoc]
      rw [ofTokensFrom, ofTokensFrom, ofTokensFrom, ih member List.mem_cons_self]
      exact hmembers

/-- What is written is read back. -/
theorem parse_render {j : Json} (h : j.Legible) : parse j.render = some j := by
  have hreadable : Token.Readable j.tokens := by
    have hfits := h.fits [] trivial nofun
    rwa [List.append_nil] at hfits
  have hreads := h.reads [] []
  rw [List.append_nil] at hreads
  rw [parse, render, String.toList_ofList, Token.readAll_texts hreadable]
  exact hreads

end Json
end NfsProvisioner
