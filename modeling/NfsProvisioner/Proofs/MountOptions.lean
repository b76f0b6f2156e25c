import Mathlib.Data.List.Forall2
import NfsProvisioner.Proofs.MountProgram
import NfsProvisioner.Settings

/-!
# Mount options from the environment to the program `mount`

Options come from the environment as one text with commas between them, and go to the program in the
same form. In between they are a list. The list is a normal form: what is read from a text is what
is read from the list written as text again (`readFrom_joined`), and the lists that are read are
exactly the lists of plain options (`all_plain_iff`). So the program is given what reads as the
options that were configured, and no text at all if there are none.
-/
namespace NfsProvisioner
namespace Settings

/-- An option that can stand between commas as it is. -/
structure PlainOption (option : String) : Prop where
  nonempty : option ≠ ""
  unseparated : ',' ∉ option.toList
  first : ∀ c ∈ option.toList.head?, Text.isBlank c = false
  last : ∀ c ∈ option.toList.getLast?, Text.isBlank c = false

/-- The pieces between the commas of a text, those that are all blank left out. -/
def piecesOf (text : String) : List (List Char) :=
  (Text.split ',' text.toList).filter fun piece => !piece.all Text.isBlank

/-- Wherever the text is the value of the variable, these are the options. -/
def ReadFrom (options : List String) (text : String) : Prop :=
  ∀ value? : String → Option String, value? mountOptionsKey = some text →
    (ofEnvironment value?).mountOptions = options

variable {options : List String} {text : String}

theorem PlainOption.trim_eq {option : String} (h : PlainOption option) :
    Text.trim option.toList = option.toList :=
  Text.Trims.trim_eq ⟨⟨[], [], by simp, by simp, by simp⟩, h.first, h.last⟩

/-- The options in a text are its pieces without the blanks around them. -/
theorem optionsOf_eq_map (text : String) :
    optionsOf text = (piecesOf text).map fun piece => String.ofList (Text.trim piece) := by
  have hkept : ∀ piece : List Char,
      (!(Text.trim piece).isEmpty) = !piece.all Text.isBlank := by
    intro piece
    rw [Bool.not_inj_iff, Bool.eq_iff_iff, List.isEmpty_iff, Text.trim_eq_nil_iff,
      List.all_eq_true]
  rw [optionsOf, piecesOf, List.filter_map, List.map_map]
  simp only [Function.comp_def, hkept]

theorem plainOption_of_mem {option : String} (h : option ∈ optionsOf text) :
    PlainOption option := by
  rw [optionsOf_eq_map] at h
  obtain ⟨piece, hpiece, rfl⟩ := List.mem_map.1 h
  obtain ⟨hsplit, hkept⟩ := List.mem_filter.1 hpiece
  have htrims := Text.trims_trim piece
  refine ⟨fun hempty => ?_, fun hcomma => ?_, ?_, ?_⟩
  · have hblank := Text.trim_eq_nil_iff.1 (String.ofList_eq_empty_iff.1 hempty)
    rw [List.all_eq_true.2 hblank] at hkept
    cases hkept
  · rw [String.toList_ofList] at hcomma
    have hpieceless := Text.not_separator_of_mem_splitWhere hsplit ',' (Text.mem_of_mem_trim hcomma)
    exact absurd hpieceless (by decide)
  · rw [String.toList_ofList]
    exact htrims.first
  · rw [String.toList_ofList]
    exact htrims.last

/-- Each option is what is left of its piece, and they stand in the same order. -/
theorem forall₂_optionsOf (text : String) :
    List.Forall₂ (fun piece option => Text.Trims piece option.toList) (piecesOf text)
      (optionsOf text) := by
  rw [optionsOf_eq_map, List.forall₂_map_right_iff, List.forall₂_same]
  intro piece _
  rw [String.toList_ofList]
  exact Text.trims_trim piece

/-- Plain options are read as they are written. -/
theorem optionsOf_intercalate (h : ∀ option ∈ options, PlainOption option) :
    optionsOf (",".intercalate options) = options := by
  cases options with
  | nil => rfl
  | cons first rest =>
    have hsplit : Text.split ',' (",".intercalate (first :: rest)).toList =
        (first :: rest).map String.toList := by
      rw [String.toList_intercalate]
      apply Text.split_intercalate (List.cons_ne_nil _ _)
      intro piece hpiece
      rw [← List.map_cons] at hpiece
      obtain ⟨option, hoption, rfl⟩ := List.mem_map.1 hpiece
      exact (h option hoption).unseparated
    have htrimmed : ((first :: rest).map String.toList).map Text.trim =
        (first :: rest).map String.toList := by
      rw [List.map_map]
      exact List.map_congr_left fun option hoption => (h option hoption).trim_eq
    have hkept : ((first :: rest).map String.toList).filter (fun piece => !piece.isEmpty) =
        (first :: rest).map String.toList := by
      rw [List.filter_eq_self]
      intro piece hpiece
      obtain ⟨option, hoption, rfl⟩ := List.mem_map.1 hpiece
      simpa using (h option hoption).nonempty
    rw [optionsOf, hsplit, htrimmed, hkept, List.map_map]
    simp

/-- The lists of options that are read from some text are exactly those of plain options. -/
theorem all_plain_iff :
    (∀ option ∈ options, PlainOption option) ↔ ∃ text, optionsOf text = options := by
  constructor
  · exact fun h => ⟨_, optionsOf_intercalate h⟩
  · rintro ⟨text, rfl⟩ option hoption
    exact plainOption_of_mem hoption

/-- A variable that is not set says as much as an empty one. -/
theorem mountOptions_ofEnvironment (value? : String → Option String) :
    (ofEnvironment value?).mountOptions = optionsOf ((value? mountOptionsKey).getD "") := by
  unfold ofEnvironment
  cases value? mountOptionsKey <;> rfl

theorem readFrom_joined (h : ∀ option ∈ options, PlainOption option) :
    ReadFrom options (",".intercalate options) := by
  intro value? hvalue
  rw [mountOptions_ofEnvironment, hvalue]
  exact optionsOf_intercalate h

/-- From the environment to the program. Every option that is read is plain: it is not empty, holds
no comma, and neither starts nor ends with a blank. The options are what is left of the pieces of
the text that are not all blank, in the same order. And the list is what is read from itself, joined
with commas.

A client with these options attaches an export to a target where nothing is mounted by running the
program once, if the program is there and no text holds U+0000. The program is told the type of file
system, the options if there are any, the source and the target; what it is told about options reads
as the same options again. -/
theorem options_reach_the_program (value? : String → Option String) :
    let text := (value? mountOptionsKey).getD ""
    let options := (ofEnvironment value?).mountOptions
    (∀ option ∈ options, PlainOption option) ∧
    List.Forall₂ (fun piece option => Text.Trims piece option.toList) (piecesOf text) options ∧
    ReadFrom options (",".intercalate options) ∧
    ∀ (client : NfsClient) (cwd : Location) (tree : Tree) (target server share : String),
      client.options = options → client.Starts target server share →
        client.isMountPoint cwd tree target = false →
          ∃ run, (client.attachAt cwd tree target server share).run = some run ∧
            (options = [] ∧ run = ["-t", "nfs", server ++ ":" ++ share, target] ∨
              options ≠ [] ∧ ∃ argument,
                run = ["-t", "nfs", "-o", argument, server ++ ":" ++ share, target] ∧
                  argument = ",".intercalate options ∧ ReadFrom options argument) := by
  intro text options
  have hread : options = optionsOf text := mountOptions_ofEnvironment value?
  have hplain : ∀ option ∈ options, PlainOption option := all_plain_iff.2 ⟨text, hread.symm⟩
  refine ⟨hplain, ?_, readFrom_joined hplain, ?_⟩
  · rw [hread]
    exact forall₂_optionsOf text
  · intro client cwd tree target server share hoptions hstarts hfree
    have hrun : (client.attachAt cwd tree target server share).run =
        some (client.arguments target server share) := by
      rw [NfsClient.attachAt, hfree]
      exact hstarts.run_eq
    refine ⟨_, hrun, ?_⟩
    rw [NfsClient.arguments, hoptions]
    by_cases hnone : options = []
    · left
      refine ⟨hnone, ?_⟩
      rw [hnone]
      rfl
    · right
      refine ⟨hnone, ",".intercalate options, ?_, rfl, readFrom_joined hplain⟩
      rw [if_neg (by simpa using hnone)]
      rfl

/-- An environment with blanks, an empty piece and a piece of blanks. -/
def untidy : String → Option String :=
  fun key => if key = mountOptionsKey then some " nfsvers=4.1,, hard ,\u00a0," else none

/-- The program gets the two options that are there, although it fails later. -/
theorem untidy_options_reach_the_program :
    let client : NfsClient := ⟨(ofEnvironment untidy).mountOptions, some "",
      .runs (.exited 32) [], .done⟩
    client.Starts "/mnt" "s" "/base" ∧ client.isMountPoint [] .bare "/mnt" = false ∧
      client.options = ["nfsvers=4.1", "hard"] ∧
        (client.attachAt [] .bare "/mnt" "s" "/base").run =
          some ["-t", "nfs", "-o", "nfsvers=4.1,hard", "s:/base", "/mnt"] := by
  intro client
  have hoptions : client.options = ["nfsvers=4.1", "hard"] := by decide +kernel
  have hstarts : client.Starts "/mnt" "s" "/base" := by
    refine ⟨⟨by decide, by decide, by decide, ?_⟩, _, _, rfl⟩
    rw [hoptions]
    decide
  have hfree : client.isMountPoint [] .bare "/mnt" = false := by decide +kernel
  obtain ⟨-, -, -, hprogram⟩ := options_reach_the_program untidy
  obtain ⟨run, hrun, ⟨hnone, -⟩ | ⟨-, argument, hargs, hjoined, -⟩⟩ :=
    hprogram client [] .bare "/mnt" "s" "/base" rfl hstarts hfree
  · exact absurd (hoptions.symm.trans hnone) (by decide)
  · have hargument : argument = "nfsvers=4.1,hard" := by
      rw [hjoined]
      exact congrArg (",".intercalate ·) hoptions
    refine ⟨hstarts, hfree, hoptions, ?_⟩
    rw [hrun, hargs, hargument]
    rfl

end Settings
end NfsProvisioner
