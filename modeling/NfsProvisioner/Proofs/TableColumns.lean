import Mathlib.Data.List.Basic
import NfsProvisioner.Mounter.Table

/-!
# What the mount table is searched for

Reading goes by lines and blanks, and this is what it comes to for any text, written by the host or
not. A path is listed exactly if it stands as the second column in one of the lines
(`lists_iff_second_column`): the form of a line is said here without cutting anything, as what the
text of the line is put together from. Where lines end makes no difference beyond that: carriage
returns are blanks, and nothing is listed in an empty line.
-/
namespace NfsProvisioner

namespace Text

/-- A text of blanks only. -/
def AllBlank (text : List Char) : Prop :=
  ∀ c ∈ text, isBlank c = true

instance (text : List Char) : Decidable (AllBlank text) :=
  decidable_of_iff (text.all isBlank = true) List.all_eq_true

/-- Blanks in front make no word. -/
theorem words_append_of_blank {blanks : List Char} (h : AllBlank blanks) (rest : List Char) :
    words (blanks ++ rest) = words rest := by
  induction blanks with
  | nil => rfl
  | cons c blanks ih =>
    rw [List.cons_append, words_cons_of_blank (h c List.mem_cons_self)]
    exact ih fun d hd => h d (List.mem_cons_of_mem c hd)

/-- A blank at the end makes no word. -/
theorem words_concat_of_blank {c : Char} (h : isBlank c = true) (text : List Char) :
    words (text ++ [c]) = words text := by
  rw [words_append_cons h, words_nil, List.append_nil]

/-- The first word of a text, and what the others are found in. -/
theorem words_eq_cons_iff {text word : List Char} {more : List (List Char)} :
    words text = word :: more ↔
      ∃ blanks rest, text = blanks ++ (word ++ rest) ∧ AllBlank blanks ∧ IsWord word ∧
        EndsWord rest ∧ words rest = more := by
  constructor
  · intro h
    have hblanks : AllBlank (text.takeWhile isBlank) := List.all_eq_true.1 List.all_takeWhile
    have htext := (@List.takeWhile_append_dropWhile _ isBlank text).symm
    rw [htext, words_append_of_blank hblanks] at h
    cases hstart : text.dropWhile isBlank with
    | nil =>
      rw [hstart, words_nil] at h
      cases h
    | cons c others =>
      have hc : isBlank c = false := isBlank_of_head?_dropWhile (by rw [hstart]; rfl)
      rw [hstart, words_eq_cons hc, List.cons.injEq] at h
      obtain ⟨rfl, hmore⟩ := h
      refine ⟨_, _, ?_, hblanks, isWord_takeWhile hc others, endsWord_dropWhile _, hmore⟩
      rw [List.takeWhile_append_dropWhile, ← hstart, ← htext]
  · rintro ⟨blanks, rest, rfl, hblanks, hword, hrest, rfl⟩
    rw [words_append_of_blank hblanks, words_append_of_word hword hrest]

/-- The pieces between separators are those that hold none and go as far as the separators around
them, or to an end of the text. -/
theorem mem_split_iff {separator : Char} {text piece : List Char} :
    piece ∈ split separator text ↔
      separator ∉ piece ∧ ∃ before after, text = before ++ piece ++ after ∧
        (∀ c ∈ before.getLast?, c = separator) ∧ ∀ c ∈ after.head?, c = separator := by
  constructor
  · intro h
    refine ⟨fun hmem => by
      simpa using not_separator_of_mem_splitWhere h separator hmem, ?_⟩
    -- By the length of the text, which is cut at its first separator.
    induction hlength : text.length using Nat.strongRecOn generalizing text with
    | ind n ih =>
      by_cases hmem : separator ∈ text
      · obtain ⟨first, rest, rfl, hfirst⟩ := List.eq_append_cons_of_mem hmem
        rw [split_append_cons hfirst] at h
        rcases List.mem_cons.1 h with rfl | h
        · exact ⟨[], separator :: rest, rfl, by simp, by simp⟩
        · have hshorter : rest.length < n := by
            rw [← hlength, List.length_append, List.length_cons]
            omega
          obtain ⟨before, after, rfl, hbefore, hafter⟩ := ih rest.length hshorter h rfl
          refine ⟨first ++ separator :: before, after, by simp, fun c hc => ?_, hafter⟩
          rcases List.eq_nil_or_concat' before with rfl | ⟨others, d, rfl⟩
          · simpa using hc.symm
          · rw [← List.cons_append, ← List.append_assoc, List.getLast?_concat] at hc
            exact hbefore c (by simpa using hc)
      · rw [split_of_notMem hmem, List.mem_singleton] at h
        subst h
        exact ⟨[], [], by simp, by simp, by simp⟩
  · rintro ⟨hpiece, before, after, rfl, hbefore, hafter⟩
    have hrest : piece ∈ split separator (piece ++ after) := by
      cases after with
      | nil => simp [split_of_notMem hpiece]
      | cons c after =>
        obtain rfl : c = separator := hafter c rfl
        simp [split_append_cons hpiece]
    rcases List.eq_nil_or_concat' before with rfl | ⟨others, c, rfl⟩
    · simpa using hrest
    · obtain rfl : c = separator := hbefore c (by simp)
      rw [List.append_assoc, List.append_assoc, List.singleton_append, split_append_separator]
      exact List.mem_append_right _ hrest

end Text

namespace MountTable

open Text

/-- A line of a text: a piece without newlines that goes from one newline, or the start of the text,
to the next, or to its end. -/
structure IsLine (text line : List Char) : Prop where
  one_line : '\n' ∉ line
  between : ∃ before after, text = before ++ line ++ after ∧
    (∀ c ∈ before.getLast?, c = '\n') ∧ ∀ c ∈ after.head?, c = '\n'

/-- The second column of a line: it stands after the first, with blanks between them and maybe
before the first, and ends with the line or at a blank. -/
def IsSecondColumn (line column : List Char) : Prop :=
  ∃ indent first gap rest, line = indent ++ first ++ gap ++ column ++ rest ∧ AllBlank indent ∧
    IsWord first ∧ gap ≠ [] ∧ AllBlank gap ∧ IsWord column ∧ EndsWord rest

theorem IsSecondColumn.isWord {line column : List Char} (h : IsSecondColumn line column) :
    IsWord column := by
  obtain ⟨-, -, -, -, -, -, -, -, -, hword, -⟩ := h
  exact hword

theorem mem_lines_iff {text line : List Char} : line ∈ lines text ↔ IsLine text line :=
  mem_split_iff.trans ⟨fun h => ⟨h.1, h.2⟩, fun h => ⟨h.one_line, h.between⟩⟩

theorem mountPoint?_eq_some_iff {line column : List Char} :
    mountPoint? line = some column ↔ IsSecondColumn line column := by
  have htwo : mountPoint? line = some column ↔
      ∃ first more, words line = first :: column :: more := by
    unfold mountPoint?
    constructor
    · intro h
      match hwords : words line with
      | [] => simp [hwords] at h
      | [_] => simp [hwords] at h
      | first :: second :: more =>
        obtain rfl : second = column := by simpa [hwords] using h
        exact ⟨first, more, rfl⟩
    · rintro ⟨first, more, hwords⟩
      rw [hwords]
      rfl
  rw [htwo]
  constructor
  · rintro ⟨first, more, hwords⟩
    obtain ⟨indent, after, rfl, hindent, hfirst, hends, hafter⟩ := words_eq_cons_iff.1 hwords
    obtain ⟨gap, rest, rfl, hgap, hcolumn, hrest, -⟩ := words_eq_cons_iff.1 hafter
    refine ⟨indent, first, gap, rest, by simp, hindent, hfirst, ?_, hgap, hcolumn, hrest⟩
    -- Without a gap the column would go on with the first one.
    rintro rfl
    obtain ⟨c, others, rfl⟩ := List.exists_cons_of_ne_nil hcolumn.1
    have hblank : isBlank c = true := hends c rfl
    rw [hcolumn.2 c List.mem_cons_self] at hblank
    cases hblank
  · rintro ⟨indent, first, gap, rest, rfl, hindent, hfirst, hne, hgap, hcolumn, hrest⟩
    obtain ⟨c, others, rfl⟩ := List.exists_cons_of_ne_nil hne
    have hends : EndsWord (c :: others ++ (column ++ rest)) := by
      intro d hd
      obtain rfl : c = d := by simpa using hd
      exact hgap c List.mem_cons_self
    refine ⟨first, words rest, words_eq_cons_iff.2
      ⟨indent, c :: others ++ (column ++ rest), by simp, hindent, hfirst, hends, ?_⟩⟩
    exact words_eq_cons_iff.2 ⟨c :: others, rest, rfl, hgap, hcolumn, hrest, rfl⟩

theorem lists_eq_true_iff {table path : String} :
    lists table path = true ↔
      ∃ line, IsLine table.toList line ∧ IsSecondColumn line path.toList := by
  simp [lists, mem_lines_iff, mountPoint?_eq_some_iff]

/-- A line of a text file without the carriage return that goes with its newline. -/
def withoutReturn (line : List Char) : List Char :=
  if line.getLast? = some '\r' then line.dropLast else line

/-- The lines of a text file, each ended by a newline with or without a carriage return before it.
The last newline may be missing, and no line begins after it. -/
def fileLines (text : List Char) : List (List Char) :=
  (lines text).dropLast.map withoutReturn ++
    (lines text).getLast?.toList.filter fun line => !line.isEmpty

theorem mountPoint?_withoutReturn (line : List Char) :
    mountPoint? (withoutReturn line) = mountPoint? line := by
  unfold withoutReturn
  split
  · next hlast =>
    obtain ⟨start, rfl⟩ := List.getLast?_eq_some_iff.1 hlast
    rw [List.dropLast_concat, mountPoint?, mountPoint?, words_concat_of_blank (by decide)]
  · rfl

/-- The same is listed, whichever way the lines are taken. -/
theorem any_fileLines (text : List Char) {column : List Char} :
    ((fileLines text).any fun line => mountPoint? line == some column) =
      (lines text).any fun line => mountPoint? line == some column := by
  obtain ⟨others, last, hlines⟩ := (List.eq_nil_or_concat' (lines text)).resolve_left
    (splitWhere_ne_nil _ _)
  have hlast : (([last].filter fun line => !line.isEmpty).any fun line =>
      mountPoint? line == some column) = (mountPoint? last == some column) := by
    cases last with
    | nil => rfl
    | cons c rest => simp
  rw [fileLines, hlines, List.dropLast_concat, List.getLast?_concat, List.any_append,
    List.any_append, List.any_map, Option.toList_some, hlast]
  simp [Function.comp_def, mountPoint?_withoutReturn]

/-- A table lists exactly what stands as the second column in one of its lines, so neither the empty
path nor one with blanks. Two tables, one below the other, list what either of them does. It makes
no difference whether the lines are ended as in a text file, with carriage returns and with or
without a last newline, or only cut at newlines. -/
theorem lists_iff_second_column (table path : String) :
    (lists table path = true ↔
      ∃ line, IsLine table.toList line ∧ IsSecondColumn line path.toList) ∧
    (path = "" ∨ (∃ c ∈ path.toList, isBlank c = true) → lists table path = false) ∧
    (∀ before after : String, lists (before ++ "\n" ++ after) path =
      (lists before path || lists after path)) ∧
    lists table path =
      (fileLines table.toList).any fun line => mountPoint? line == some path.toList := by
  refine ⟨lists_eq_true_iff, fun hpath => ?_, fun before after => ?_, (any_fileLines _).symm⟩
  · rw [Bool.eq_false_iff, Ne, lists_eq_true_iff]
    rintro ⟨line, -, hcolumn⟩
    rcases hpath with hempty | ⟨c, hc, hblank⟩
    · exact hcolumn.isWord.1 (String.toList_eq_nil_iff.2 hempty)
    · rw [hcolumn.isWord.2 c hc] at hblank
      cases hblank
  · have hcut : lines (before ++ "\n" ++ after).toList =
        lines before.toList ++ lines after.toList := by
      rw [String.toList_append, String.toList_append, List.append_assoc]
      exact split_append_separator '\n' before.toList after.toList
    rw [lists, hcut, List.any_append]
    rfl

/-- An indented line with a tab and a wide space in it, ended by a carriage return and a newline,
after a line that is empty. Neither the device nor a path with a blank is found in it. -/
theorem second_column_of_uneven_line :
    let table := "proc /proc proc rw\n\n\ts:/base\u3000/work/vol1\r\n"
    lists table "/work/vol1" = true ∧ lists table "s:/base" = false ∧
      lists table "s:/base\u3000/work/vol1" = false := by
  intro table
  have hline : IsLine table.toList "\ts:/base\u3000/work/vol1\r".toList :=
    ⟨by decide, "proc /proc proc rw\n\n".toList, ['\n'], by decide, by simp, by simp⟩
  have hcolumn : IsSecondColumn "\ts:/base\u3000/work/vol1\r".toList "/work/vol1".toList :=
    ⟨['\t'], "s:/base".toList, ['\u3000'], ['\r'], by decide, by decide +kernel, by decide +kernel,
      by decide, by decide +kernel, by decide +kernel, by decide +kernel⟩
  refine ⟨(lists_iff_second_column table "/work/vol1").1.2 ⟨_, hline, hcolumn⟩, by decide, ?_⟩
  exact (lists_iff_second_column table "s:/base\u3000/work/vol1").2.1
    (.inr ⟨'\u3000', by decide, by decide⟩)

end MountTable
end NfsProvisioner
