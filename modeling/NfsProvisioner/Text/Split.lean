/-!
# Cutting a text at separators

A separator ends one piece and starts the next, so `n` separators always make `n + 1` pieces and
empty pieces are kept. Putting the separator back between the pieces gives the text again
(`intercalate_split`), and pieces that hold no separator come back unchanged
(`split_intercalate`). The functions work on characters; `Text.splitText` is their form on
strings.
-/
namespace NfsProvisioner.Text

/-- Puts a character in front of the first piece. -/
def extendFirst (c : Char) : List (List Char) → List (List Char)
  | [] => [[c]]
  | piece :: pieces => (c :: piece) :: pieces

/-- The pieces between the characters that `isSeparator` picks out, empty ones included. -/
def splitWhere (isSeparator : Char → Bool) : List Char → List (List Char)
  | [] => [[]]
  | c :: rest =>
    if isSeparator c then [] :: splitWhere isSeparator rest
    else extendFirst c (splitWhere isSeparator rest)

/-- The pieces between the occurrences of one character. -/
def split (separator : Char) (text : List Char) : List (List Char) :=
  splitWhere (· == separator) text

/-- `split` on strings. -/
def splitText (separator : Char) (text : String) : List String :=
  (split separator text.toList).map String.ofList

theorem splitWhere_ne_nil (isSeparator : Char → Bool) (text : List Char) :
    splitWhere isSeparator text ≠ [] := by
  cases text with
  | nil => simp [splitWhere]
  | cons c rest =>
    simp only [splitWhere]
    split
    · simp
    · cases splitWhere isSeparator rest <;> simp [extendFirst]

/-- A text in which nothing separates is one piece. -/
theorem splitWhere_of_forall {isSeparator : Char → Bool} {text : List Char}
    (h : ∀ c ∈ text, isSeparator c = false) : splitWhere isSeparator text = [text] := by
  induction text with
  | nil => rfl
  | cons c rest ih =>
    have hc := h c (by simp)
    have hrest := ih fun d hd => h d (List.mem_cons_of_mem c hd)
    simp [splitWhere, hc, hrest, extendFirst]

/-- The pieces on both sides of a separator are found independently. -/
theorem splitWhere_append_cons {isSeparator : Char → Bool} {c : Char} (h : isSeparator c = true)
    (before after : List Char) :
    splitWhere isSeparator (before ++ c :: after) =
      splitWhere isSeparator before ++ splitWhere isSeparator after := by
  induction before with
  | nil => simp [splitWhere, h]
  | cons d rest ih =>
    simp only [List.cons_append, splitWhere, ih]
    split
    · rfl
    · have hne := splitWhere_ne_nil isSeparator rest
      cases hs : splitWhere isSeparator rest with
      | nil => exact absurd hs hne
      | cons piece pieces => rfl

/-- No piece holds a separator. -/
theorem not_separator_of_mem_splitWhere {isSeparator : Char → Bool} {text piece : List Char}
    (h : piece ∈ splitWhere isSeparator text) : ∀ c ∈ piece, isSeparator c = false := by
  induction text generalizing piece with
  | nil =>
    obtain rfl : piece = [] := by simpa [splitWhere] using h
    simp
  | cons d rest ih =>
    rw [splitWhere] at h
    split at h
    · rcases List.mem_cons.1 h with rfl | h
      · simp
      · exact ih h
    · next hd =>
      have hd : isSeparator d = false := by simpa using hd
      cases hs : splitWhere isSeparator rest with
      | nil => exact absurd hs (splitWhere_ne_nil isSeparator rest)
      | cons first others =>
        rw [hs] at h ih
        rcases List.mem_cons.1 h with rfl | h
        · intro c hc
          rcases List.mem_cons.1 hc with rfl | hc
          · exact hd
          · exact ih (by simp) c hc
        · exact ih (List.mem_cons_of_mem first h)

theorem intercalate_split (separator : Char) (text : List Char) :
    [separator].intercalate (split separator text) = text := by
  induction text with
  | nil => rfl
  | cons c rest ih =>
    have hne := splitWhere_ne_nil (· == separator) rest
    simp only [split, splitWhere] at ih ⊢
    split
    · next h =>
      have hc : c = separator := by simpa using h
      cases hs : splitWhere (· == separator) rest with
      | nil => exact absurd hs hne
      | cons piece pieces =>
        rw [hs] at ih
        subst hc
        simpa [List.intercalate, List.intersperse] using ih
    · cases hs : splitWhere (· == separator) rest with
      | nil => exact absurd hs hne
      | cons piece pieces =>
        rw [hs] at ih
        cases pieces with
        | nil => simpa [extendFirst, List.intercalate, List.intersperse] using ih
        | cons second others =>
          simpa [extendFirst, List.intercalate, List.intersperse] using ih

/-- A character other than the separator is in the joined text exactly if it is in one of the
pieces. -/
theorem mem_intercalate {c : Char} {separator : List Char} (hc : c ∉ separator)
    (pieces : List (List Char)) :
    c ∈ separator.intercalate pieces ↔ ∃ piece ∈ pieces, c ∈ piece := by
  induction pieces with
  | nil => simp
  | cons piece rest ih =>
    cases rest with
    | nil => simp
    | cons second others =>
      rw [List.intercalate_cons_cons, List.mem_append, List.mem_append, ih]
      simp [hc]

/-- A text without separators is one piece. -/
theorem split_of_notMem {separator : Char} {text : List Char} (h : separator ∉ text) :
    split separator text = [text] := by
  apply splitWhere_of_forall
  intro c hc
  have hne : c ≠ separator := fun heq => h (heq ▸ hc)
  simpa using hne

/-- The text is cut at every occurrence of the separator. -/
theorem split_append_separator (separator : Char) (before after : List Char) :
    split separator (before ++ separator :: after) =
      split separator before ++ split separator after := by
  apply splitWhere_append_cons
  exact beq_iff_eq.2 rfl

/-- The text before a separator is the first piece. -/
theorem split_append_cons {separator : Char} {text : List Char} (h : separator ∉ text)
    (rest : List Char) :
    split separator (text ++ separator :: rest) = text :: split separator rest := by
  rw [split_append_separator, split_of_notMem h]
  rfl

theorem split_intercalate {separator : Char} {pieces : List (List Char)} (hne : pieces ≠ [])
    (h : ∀ piece ∈ pieces, separator ∉ piece) :
    split separator ([separator].intercalate pieces) = pieces := by
  induction pieces with
  | nil => exact absurd rfl hne
  | cons piece others ih =>
    cases others with
    | nil =>
      simpa [List.intercalate, List.intersperse] using split_of_notMem (h piece (by simp))
    | cons second others =>
      have hrest := ih (by simp) fun p hp => h p (List.mem_cons_of_mem _ hp)
      have := split_append_cons (h piece (by simp)) ([separator].intercalate (second :: others))
      rw [hrest] at this
      simpa [List.intercalate, List.intersperse] using this

/-- `intercalate_split` on strings. -/
theorem intercalate_splitText (separator : Char) (text : String) :
    (String.singleton separator).intercalate (splitText separator text) = text := by
  have hchars : (splitText separator text).map String.toList = split separator text.toList := by
    simp [splitText, Function.comp_def]
  rw [← String.toList_inj, String.toList_intercalate, String.toList_singleton, hchars,
    intercalate_split]

/-- `split_intercalate` on strings. -/
theorem splitText_intercalate {separator : Char} {pieces : List String} (hne : pieces ≠ [])
    (h : ∀ piece ∈ pieces, separator ∉ piece.toList) :
    splitText separator ((String.singleton separator).intercalate pieces) = pieces := by
  have hchars : ∀ piece ∈ pieces.map String.toList, separator ∉ piece := by
    intro piece hpiece
    obtain ⟨text, htext, rfl⟩ := List.mem_map.1 hpiece
    exact h text htext
  rw [splitText, String.toList_intercalate, String.toList_singleton,
    split_intercalate (by simpa using hne) hchars]
  simp [Function.comp_def]

/-- `split_append_separator` on strings. -/
theorem splitText_append_separator {separator : Char} {text : String} {before after : List Char}
    (h : text.toList = before ++ separator :: after) :
    splitText separator text =
      splitText separator (String.ofList before) ++ splitText separator (String.ofList after) := by
  simp [splitText, h, split_append_separator]

/-- Before a separator at the beginning stands an empty piece. -/
theorem splitText_of_cons {separator : Char} {text : String} {rest : List Char}
    (h : text.toList = separator :: rest) :
    splitText separator text = "" :: splitText separator (String.ofList rest) := by
  have hcut : text.toList = [] ++ separator :: rest := h
  rw [splitText_append_separator hcut]
  rfl

theorem splitText_ne_nil (separator : Char) (text : String) : splitText separator text ≠ [] := by
  simpa [splitText, split] using splitWhere_ne_nil _ _

end NfsProvisioner.Text
