import NfsProvisioner.Text.Split

/-!
# Blanks

The characters with the Unicode property White_Space, and the two things that are done with them:
cutting them off both ends of a text, and reading a text as the words between them.
-/
namespace NfsProvisioner.Text

/-- First and last code points of the runs of White_Space, in ascending order. -/
def blankRanges : List (Nat × Nat) :=
  [(0x9, 0xD), (0x20, 0x20), (0x85, 0x85), (0xA0, 0xA0), (0x1680, 0x1680), (0x2000, 0x200A),
    (0x2028, 0x2029), (0x202F, 0x202F), (0x205F, 0x205F), (0x3000, 0x3000)]

/-- Whether a code point lies in one of the given runs. The runs ascend, so the search ends at the
first run that starts above the code point. -/
def inRanges : List (Nat × Nat) → Nat → Bool
  | [], _ => false
  | (first, last) :: rest, n => decide (first ≤ n) && (decide (n ≤ last) || inRanges rest n)

/-- A character with the property White_Space. -/
def isBlank (c : Char) : Bool :=
  inRanges blankRanges c.toNat

def trimStart (text : List Char) : List Char :=
  text.dropWhile isBlank

def trimEnd (text : List Char) : List Char :=
  (text.reverse.dropWhile isBlank).reverse

/-- The text without the blanks at its two ends. -/
def trim (text : List Char) : List Char :=
  trimEnd (trimStart text)

/-- The non-empty pieces between the blanks. -/
def words (text : List Char) : List (List Char) :=
  (splitWhere isBlank text).filter fun piece => !piece.isEmpty

/-- What is left of a text without the blanks at its two ends: only blanks stand around it, and it
neither starts nor ends with one. -/
structure Trims (text core : List Char) : Prop where
  around : ∃ before after, text = before ++ core ++ after ∧
    (∀ c ∈ before, isBlank c = true) ∧ ∀ c ∈ after, isBlank c = true
  first : ∀ c ∈ core.head?, isBlank c = false
  last : ∀ c ∈ core.getLast?, isBlank c = false

theorem dropWhile_of_head? {text : List Char} (h : ∀ c ∈ text.head?, isBlank c = false) :
    text.dropWhile isBlank = text := by
  cases text with
  | nil => rfl
  | cons c rest => exact List.dropWhile_cons_of_neg (Bool.eq_false_iff.1 (h c rfl))

theorem isBlank_of_head?_dropWhile {text : List Char} {c : Char}
    (h : c ∈ (text.dropWhile isBlank).head?) : isBlank c = false := by
  have hhead := List.head?_dropWhile_not isBlank text
  rw [Option.mem_def.1 h] at hhead
  simpa using hhead

/-- Nothing else is left. -/
theorem Trims.trim_eq {text core : List Char} (h : Trims text core) : trim text = core := by
  obtain ⟨⟨before, after, rfl, hbefore, hafter⟩, hfirst, hlast⟩ := h
  have hreverse : (after.reverse ++ core.reverse).dropWhile isBlank = core.reverse := by
    rw [List.dropWhile_append_of_pos fun c hc => hafter c (List.mem_reverse.1 hc)]
    apply dropWhile_of_head?
    rwa [List.head?_reverse]
  rw [trim, trimStart, List.append_assoc, List.dropWhile_append_of_pos hbefore]
  cases core with
  | nil =>
    have hnone : (after.dropWhile isBlank) = [] := by
      rw [← List.append_nil after, List.dropWhile_append_of_pos hafter]
      rfl
    rw [List.nil_append, hnone]
    rfl
  | cons c rest =>
    rw [dropWhile_of_head? (by simpa using hfirst), trimEnd, List.reverse_append, hreverse,
      List.reverse_reverse]

theorem trims_trim (text : List Char) : Trims text (trim text) := by
  have hall (l : List Char) : ∀ c ∈ l.takeWhile isBlank, isBlank c = true :=
    List.all_eq_true.1 List.all_takeWhile
  have hstart : text = text.takeWhile isBlank ++ trimStart text :=
    List.takeWhile_append_dropWhile.symm
  have hend : trimStart text =
      trim text ++ ((trimStart text).reverse.takeWhile isBlank).reverse := by
    rw [trim, trimEnd, ← List.reverse_append, List.takeWhile_append_dropWhile,
      List.reverse_reverse]
  constructor
  · refine ⟨text.takeWhile isBlank, ((trimStart text).reverse.takeWhile isBlank).reverse, ?_,
      hall text, fun c hc => hall _ c (List.mem_reverse.1 hc)⟩
    rw [List.append_assoc, ← hend]
    exact hstart
  · -- What is first when the end has been cut off was first before.
    intro c hc
    have hne : trim text ≠ [] := by
      intro hnil
      rw [hnil] at hc
      cases hc
    have hstarts : c ∈ (trimStart text).head? := by
      rw [hend, List.head?_append, Option.or_of_isSome (List.isSome_head?.2 hne)]
      exact hc
    exact isBlank_of_head?_dropWhile hstarts
  · intro c hc
    rw [trim, trimEnd, List.getLast?_reverse] at hc
    exact isBlank_of_head?_dropWhile hc

theorem trims_iff {text core : List Char} : Trims text core ↔ trim text = core :=
  ⟨Trims.trim_eq, fun h => h ▸ trims_trim text⟩

/-- Nothing is left of blanks only. -/
theorem trim_eq_nil_iff {text : List Char} :
    trim text = [] ↔ ∀ c ∈ text, isBlank c = true := by
  constructor
  · intro h
    obtain ⟨⟨before, after, htext, hbefore, hafter⟩, -, -⟩ := trims_iff.2 h
    rw [htext, List.append_nil]
    intro c hc
    exact (List.mem_append.1 hc).elim (hbefore c) (hafter c)
  · intro h
    exact Trims.trim_eq ⟨⟨text, [], by simp, h, by simp⟩, by simp, by simp⟩

theorem mem_of_mem_trim {text : List Char} {c : Char} (h : c ∈ trim text) : c ∈ text := by
  obtain ⟨⟨before, after, htext, -, -⟩, -, -⟩ := trims_trim text
  rw [htext]
  exact List.mem_append_left after (List.mem_append_right before h)

/-- A blank ends one word and starts the next. -/
theorem words_append_cons {c : Char} (h : isBlank c = true) (before after : List Char) :
    words (before ++ c :: after) = words before ++ words after := by
  rw [words, splitWhere_append_cons h, List.filter_append]
  rfl

/-- A text without blanks is one word. -/
theorem words_of_forall {text : List Char} (h : ∀ c ∈ text, isBlank c = false) (hne : text ≠ []) :
    words text = [text] := by
  rw [words, splitWhere_of_forall h]
  cases text with
  | nil => exact absurd rfl hne
  | cons c rest => rfl

/-- A text that is not empty and has no blanks. -/
def IsWord (text : List Char) : Prop :=
  text ≠ [] ∧ ∀ c ∈ text, isBlank c = false

/-- What follows a word: nothing, or a blank and anything. -/
def EndsWord (rest : List Char) : Prop :=
  ∀ c ∈ rest.head?, isBlank c = true

instance (text : List Char) : Decidable (IsWord text) :=
  decidable_of_iff ((!text.isEmpty && text.all fun c => !isBlank c) = true) (by simp [IsWord])

instance (rest : List Char) : Decidable (EndsWord rest) :=
  decidable_of_iff (rest.head?.all isBlank = true) (by cases rest <;> simp [EndsWord])

theorem words_nil : words [] = [] :=
  rfl

theorem words_cons_of_blank {c : Char} (h : isBlank c = true) (rest : List Char) :
    words (c :: rest) = words rest :=
  words_append_cons h [] rest

/-- A word goes up to the blank that ends it. -/
theorem words_append_of_word {word rest : List Char} (hword : IsWord word) (hrest : EndsWord rest) :
    words (word ++ rest) = word :: words rest := by
  cases rest with
  | nil => rw [List.append_nil, words_of_forall hword.2 hword.1, words_nil]
  | cons c rest =>
    have hc : isBlank c = true := hrest c rfl
    rw [words_append_cons hc, words_of_forall hword.2 hword.1, words_cons_of_blank hc]
    rfl

theorem isWord_takeWhile {c : Char} (h : isBlank c = false) (rest : List Char) :
    IsWord ((c :: rest).takeWhile fun d => !isBlank d) := by
  refine ⟨by simp [h], fun d hd => ?_⟩
  simpa using List.all_eq_true.1 List.all_takeWhile d hd

theorem endsWord_dropWhile (text : List Char) :
    EndsWord (text.dropWhile fun d => !isBlank d) := by
  intro c hc
  have hhead := List.head?_dropWhile_not (fun d => !isBlank d) text
  rw [Option.mem_def.1 hc] at hhead
  simpa using hhead

/-- The first word of a text that starts with no blank goes up to the first blank. -/
theorem words_eq_cons {c : Char} (h : isBlank c = false) (rest : List Char) :
    words (c :: rest) = (c :: rest).takeWhile (fun d => !isBlank d) ::
      words ((c :: rest).dropWhile fun d => !isBlank d) := by
  rw [← words_append_of_word (isWord_takeWhile h rest) (endsWord_dropWhile _),
    List.takeWhile_append_dropWhile]

end NfsProvisioner.Text
