import NfsProvisioner.Proofs.PathTexts

/-!
# The working directory is normalised once and for all

Mount points are compared with the table of mounted file systems as texts, so the text of the
working directory has to be the one that the host would write. `working_directory_is_normalised`
says of it what can be said without cutting it at its slashes: how it begins and ends, where slashes
follow each other, and which components it has. It is in normal form, so starting a controller with
it changes nothing any more, whatever the current directory is by then.
-/
namespace NfsProvisioner
namespace Path

variable {p : Path} {text : String} {cwd : Location}

/-- The components of a path's text: all that stands between its slashes, `.` and `..` included. -/
def components (text : String) : List String :=
  (Text.splitText '/' text).filter (· != "")

/-- A text that begins with two slashes and not with three. -/
def BeginsDouble (text : String) : Prop :=
  ∃ rest, text.toList = '/' :: '/' :: rest ∧ rest.head? ≠ some '/'

/-- The text of an absolute path in normal form: no component is `.`, and slashes follow each other
nowhere but at the beginning, where there may be two. -/
structure Normalised (text : String) : Prop where
  rooted : text.toList.head? = some '/'
  dotless : "." ∉ components text
  slashes : ∀ before after, text.toList = before ++ '/' :: '/' :: after → before = []

theorem namesOf_eq (text : String) : namesOf text = (components text).filter (· != ".") := by
  rw [namesOf, components, List.filter_filter]
  exact List.filter_congr fun piece _ => Bool.and_comm _ _

theorem anchorOf_eq_doubleRoot_iff :
    anchorOf text.toList = .doubleRoot ↔ BeginsDouble text := by
  constructor
  · intro h
    unfold anchorOf at h
    split at h
    · cases h
    · next rest hnot hchars =>
      refine ⟨rest, hchars, fun hhead => ?_⟩
      obtain ⟨more, rfl⟩ := List.head?_eq_some_iff.1 hhead
      exact hnot more rfl
    · cases h
    · cases h
  · rintro ⟨rest, hchars, hrest⟩
    rw [hchars]
    exact anchorOf_append hrest .doubleRoot

/-- A text ends with a slash exactly if its last piece is empty. -/
theorem getLast?_eq_slash_iff :
    text.toList.getLast? = some '/' ↔
      text ≠ "" ∧ (Text.splitText '/' text).getLast? = some "" := by
  constructor
  · intro h
    obtain ⟨start, hchars⟩ := List.getLast?_eq_some_iff.1 h
    constructor
    · rintro rfl
      cases h
    · have hlast : Text.splitText '/' (String.ofList []) = [""] := rfl
      rw [Text.splitText_append_separator hchars, hlast, List.getLast?_concat]
  · rintro ⟨hne, hlast⟩
    obtain ⟨start, hpieces⟩ := List.getLast?_eq_some_iff.1 hlast
    have hjoin : "/".intercalate (start ++ [""]) = text :=
      hpieces ▸ Text.intercalate_splitText '/' text
    cases start with
    | nil => exact absurd hjoin.symm hne
    | cons first others =>
      rw [String.intercalate_append_of_ne_nil (by simp) (by simp)] at hjoin
      simp [← hjoin]

/-- Between two slashes that follow each other stands an empty piece. -/
theorem splitText_of_double {before after : List Char}
    (h : text.toList = before ++ '/' :: '/' :: after) :
    Text.splitText '/' text =
      Text.splitText '/' (String.ofList before) ++
        "" :: Text.splitText '/' (String.ofList after) := by
  rw [Text.splitText_append_separator h, Text.splitText_of_cons String.toList_ofList]

/-! ## The text of a path in normal form -/

section

variable (h : p.Readable)

include h

theorem Readable.ne_empty : ∀ name ∈ p.names, name ≠ "" :=
  fun name hname hempty => Tree.ne_of_isName (h.normal name hname) (.inl hempty)

theorem Readable.ne_dot : ∀ name ∈ p.names, name ≠ "." :=
  fun name hname hdot => Tree.ne_of_isName (h.normal name hname) (.inr hdot)

/-- The components of the text are the names of the path. -/
theorem components_text : components p.text = p.names := by
  have hanchor : p.anchor.pieces.filter (· != "") = [] := by cases p.anchor <;> rfl
  have hnames : p.names.filter (· != "") = p.names :=
    List.filter_eq_self.2 fun name hname => bne_iff_ne.2 (h.ne_empty name hname)
  rw [components, splitText_text h, spelling, List.filter_append, List.filter_append, hanchor,
    hnames]
  split <;> simp

theorem namesOf_text : namesOf p.text = p.names := by
  rw [namesOf_eq, components_text h]
  exact List.filter_eq_self.2 fun name hname => bne_iff_ne.2 (h.ne_dot name hname)

theorem text_ne_empty (hanchor : p.anchor ≠ .here) : p.text ≠ "" := by
  intro hempty
  have hread := anchorOf_text h
  rw [hempty] at hread
  exact hanchor hread.symm

theorem getLast?_text (hanchor : p.anchor ≠ .here) :
    p.text.toList.getLast? = some '/' ↔ p.trailing = true ∨ p.names = [] := by
  rw [getLast?_eq_slash_iff, splitText_text h, and_iff_right (text_ne_empty h hanchor), spelling]
  rcases List.eq_nil_or_concat p.names with hnames | ⟨others, last, hnames⟩
  · simp [hnames]
  · have hlast : last ≠ "" := h.ne_empty last (by simp [hnames])
    cases p.trailing <;> simp [hnames, hlast]

/-- After the slashes that the text begins with, only the last piece can be empty. -/
theorem Readable.inner_ne_empty {before after : List String}
    (hbody : (p.names ++ if p.trailing || p.names.isEmpty then [""] else []) =
      before ++ "" :: after) : after = [] := by
  rcases List.append_eq_append_iff.1 hbody with ⟨rest, -, hend⟩ | ⟨rest, hnames, hend⟩
  · split at hend
    · cases rest <;> simp_all
    · simp at hend
  · cases rest with
    | nil =>
      split at hend
      · exact (List.cons.inj hend).2
      · cases hend
    | cons name others =>
      obtain rfl : "" = name := (List.cons.inj hend).1
      exact absurd rfl (h.ne_empty "" (by simp [hnames]))

/-- Slashes follow each other only at the beginning of the text. -/
theorem Readable.slashes {before after : List Char}
    (htext : p.text.toList = before ++ '/' :: '/' :: after) : before = [] := by
  have hpieces := splitText_of_double htext
  have hafter := Text.splitText_ne_nil '/' (String.ofList after)
  have hone : Text.splitText '/' (String.ofList before) = [""] := by
    rw [splitText_text h, spelling] at hpieces
    cases hbefore : Text.splitText '/' (String.ofList before) with
    | nil => exact absurd hbefore (Text.splitText_ne_nil '/' _)
    | cons first others =>
      rw [hbefore] at hpieces
      cases hanchor : p.anchor with
      | here =>
        rw [hanchor] at hpieces
        exact absurd (h.inner_ne_empty hpieces) hafter
      | root =>
        rw [hanchor] at hpieces
        exact absurd (h.inner_ne_empty (List.cons.inj hpieces).2) hafter
      | doubleRoot =>
        rw [hanchor] at hpieces
        obtain ⟨rfl, hrest⟩ := List.cons.inj hpieces
        cases others with
        | nil => rfl
        | cons second others => exact absurd (h.inner_ne_empty (List.cons.inj hrest).2) hafter
  have hjoin := Text.intercalate_splitText '/' (String.ofList before)
  rw [hone] at hjoin
  simpa using hjoin.symm

theorem Readable.normalised (hanchor : p.anchor ≠ .here) : Normalised p.text := by
  constructor
  · apply Decidable.of_not_not
    intro hhead
    exact hanchor ((anchorOf_text h).symm.trans (anchorOf_eq_here_iff.2 hhead))
  · rw [components_text h]
    exact fun hdot => h.ne_dot "." hdot rfl
  · exact fun _ _ => h.slashes

end

/-! ## Paths made absolute -/

section

variable (hne : text ≠ "")

include hne

theorem anchor_absolute :
    (absolute cwd text).anchor =
      if anchorOf text.toList = .here then .root else anchorOf text.toList := by
  unfold absolute
  rw [if_neg hne]
  cases anchorOf text.toList <;> rfl

theorem anchor_absolute_ne_here : (absolute cwd text).anchor ≠ .here := by
  rw [anchor_absolute hne]
  split
  · exact Anchor.noConfusion
  · assumption

theorem anchor_absolute_eq_doubleRoot_iff :
    (absolute cwd text).anchor = .doubleRoot ↔ BeginsDouble text := by
  rw [anchor_absolute hne, ← anchorOf_eq_doubleRoot_iff]
  cases anchorOf text.toList <;> simp

theorem names_absolute :
    (absolute cwd text).names =
      (if text.toList.head? = some '/' then [] else cwd) ++ namesOf text := by
  have hhere := @anchorOf_eq_here_iff text.toList
  unfold absolute
  rw [if_neg hne]
  cases hanchor : anchorOf text.toList with
  | here => rw [if_neg (hhere.1 hanchor)]
  | root => simp_all
  | doubleRoot => simp_all

theorem trailing_absolute :
    (absolute cwd text).trailing =
      (decide (text.toList.getLast? = some '/') && !(absolute cwd text).names.isEmpty) := by
  unfold absolute
  rw [if_neg hne]

end

/-- The text of an absolute path is read as that path, in any directory. -/
theorem absolute_text (h : p.Readable) (hanchor : p.anchor ≠ .here)
    (htrailing : p.names = [] → p.trailing = false) : absolute cwd p.text = p := by
  have hne := text_ne_empty h hanchor
  have hnames : (absolute cwd p.text).names = p.names := by
    rw [names_absolute hne, (h.normalised hanchor).rooted, namesOf_text h]
    rfl
  have hlast : (absolute cwd p.text).trailing = p.trailing := by
    rw [trailing_absolute hne, hnames]
    cases hend : p.names with
    | nil => rw [htrailing hend]; simp
    | cons name others => simp [getLast?_text h hanchor, hend]
  have hstart : (absolute cwd p.text).anchor = p.anchor := by
    rw [anchor_absolute hne, anchorOf_text h, if_neg hanchor]
  cases hp : absolute cwd p.text
  cases p
  simp_all

/-- In a text that does not begin with a slash and has nowhere two of them following each other,
only the last piece can be empty. -/
theorem inner_piece_ne_empty (hhead : text.toList.head? ≠ some '/')
    (hslashes : ∀ before after, text.toList ≠ before ++ '/' :: '/' :: after)
    {before after : List String} (h : Text.splitText '/' text = before ++ "" :: after) :
    after = [] := by
  have hjoin : "/".intercalate (before ++ "" :: after) = text :=
    h ▸ Text.intercalate_splitText '/' text
  apply Decidable.of_not_not
  intro hafter
  cases before with
  | nil =>
    rw [List.nil_append, String.intercalate_cons_of_ne_nil hafter] at hjoin
    exact hhead (by simp [← hjoin])
  | cons first others =>
    rw [String.intercalate_append_of_ne_nil (List.cons_ne_nil _ _) (List.cons_ne_nil _ _),
      String.intercalate_cons_of_ne_nil hafter] at hjoin
    refine hslashes ("/".intercalate (first :: others)).toList ("/".intercalate after).toList ?_
    rw [← hjoin]
    simp

/-- The slashes that a text begins with each make an empty piece. -/
theorem splitText_of_anchor {anchor : Anchor} {rest : List Char}
    (h : text.toList = anchor.text.toList ++ rest) :
    Text.splitText '/' text = anchor.pieces ++ Text.splitText '/' (String.ofList rest) := by
  cases anchor with
  | here =>
    obtain rfl : text = String.ofList rest :=
      String.toList_inj.1 (h.trans String.toList_ofList.symm)
    rfl
  | root => exact Text.splitText_of_cons h
  | doubleRoot =>
    have hfirst : text.toList = '/' :: '/' :: rest := h
    rw [Text.splitText_of_cons hfirst, Text.splitText_of_cons String.toList_ofList]
    rfl

/-- A text in normal form begins with one slash or two, and not with more. -/
theorem Normalised.exists_rest (h : Normalised text) :
    ∃ anchor rest, anchor ≠ Anchor.here ∧ text.toList = anchor.text.toList ++ rest ∧
      rest.head? ≠ some '/' := by
  obtain ⟨rest, hrest⟩ := List.head?_eq_some_iff.1 h.rooted
  by_cases hdouble : rest.head? = some '/'
  · obtain ⟨more, rfl⟩ := List.head?_eq_some_iff.1 hdouble
    refine ⟨.doubleRoot, more, Anchor.noConfusion, hrest, fun hhead => ?_⟩
    obtain ⟨others, rfl⟩ := List.head?_eq_some_iff.1 hhead
    cases h.slashes ['/'] others hrest
  · exact ⟨.root, rest, Anchor.noConfusion, hrest, hdouble⟩

/-- Only the last of the pieces after these slashes can be empty. -/
theorem Normalised.exists_body (h : Normalised text) :
    ∃ body, Text.splitText '/' text = (anchorOf text.toList).pieces ++ body ∧ body ≠ [] ∧
      ∀ before after, body = before ++ "" :: after → after = [] := by
  obtain ⟨anchor, rest, hrooted, htext, hhead⟩ := h.exists_rest
  have hanchor : anchorOf text.toList = anchor := htext ▸ anchorOf_append hhead anchor
  rw [hanchor, splitText_of_anchor htext]
  refine ⟨_, rfl, Text.splitText_ne_nil _ _, fun before after => ?_⟩
  apply inner_piece_ne_empty
  · simpa using hhead
  · intro start more hslashes
    have hnil := h.slashes (anchor.text.toList ++ start) more (by simpa [htext] using hslashes)
    cases anchor with
    | here => exact hrooted rfl
    | root => cases hnil
    | doubleRoot => cases hnil

/-- All of these pieces are names, except that the last one may be empty. -/
theorem Normalised.exists_names (h : Normalised text) :
    ∃ names last, Text.splitText '/' text = (anchorOf text.toList).pieces ++ (names ++ [last]) ∧
      (∀ name ∈ names, isName name = true) ∧ (last = "" ∨ isName last = true) := by
  obtain ⟨body, hpieces, hbody, hinner⟩ := h.exists_body
  obtain ⟨names, last, rfl⟩ := (List.eq_nil_or_concat body).resolve_left hbody
  rw [List.concat_eq_append] at hpieces hinner
  have hisName : ∀ piece ∈ names ++ [last], piece ≠ "" → isName piece = true := by
    intro piece hpiece hne
    have hdot : piece ≠ "." := by
      rintro rfl
      exact h.dotless (List.mem_filter.2 ⟨hpieces ▸ List.mem_append_right _ hpiece, by decide⟩)
    simp [isName, hne, hdot]
  refine ⟨names, last, hpieces, fun name hname => ?_, ?_⟩
  · apply hisName name (List.mem_append_left _ hname)
    rintro rfl
    obtain ⟨before, after, rfl⟩ := List.append_of_mem hname
    simpa using hinner before (after ++ [last]) (by simp)
  · by_cases hempty : last = ""
    · exact .inl hempty
    · exact .inr (hisName last (by simp) hempty)

/-- A text in normal form is the one of the path that is read from it. -/
theorem Normalised.text_absolute (h : Normalised text) (cwd : Location) :
    (absolute cwd text).text = text := by
  have hne : text ≠ "" := by
    rintro rfl
    cases h.rooted
  have hhere : anchorOf text.toList ≠ .here := fun heq => anchorOf_eq_here_iff.1 heq h.rooted
  obtain ⟨names, last, hpieces, hall, hend⟩ := h.exists_names
  have hanchor : (absolute cwd text).anchor = anchorOf text.toList := by
    rw [anchor_absolute hne, if_neg hhere]
  have hnames : (absolute cwd text).names = names ++ [last].filter isName := by
    have hstart : (anchorOf text.toList).pieces.filter isName = [] := by
      cases anchorOf text.toList <;> rfl
    rw [names_absolute hne, if_pos h.rooted, List.nil_append, namesOf, hpieces, List.filter_append,
      List.filter_append, hstart, List.filter_eq_self.2 hall, List.nil_append]
  have hlast : decide (text.toList.getLast? = some '/') = decide (last = "") := by
    rw [decide_eq_decide, getLast?_eq_slash_iff, and_iff_right hne, hpieces, ← List.append_assoc,
      List.getLast?_concat, Option.some.injEq]
  have hspelling : (absolute cwd text).spelling = Text.splitText '/' text := by
    rw [spelling, trailing_absolute hne, hanchor, hnames, hlast, hpieces]
    rcases hend with hempty | hname
    · cases names <;> simp [hempty, isName]
    · have hempty : last ≠ "" := fun heq => Tree.ne_of_isName hname (.inl heq)
      simp [hempty, hname]
  rw [text_eq_intercalate, hspelling]
  exact Text.intercalate_splitText '/' text

end Path

namespace Controller

/-- The working directory of a controller that has been started with any setting in any directory.
It is an absolute path in normal form that keeps what means something in the setting: its components
without `.`, after those of the current directory if it is relative, the two slashes that it may
begin with, and a slash at the end. Starting a controller with it, in whatever directory, gives the
same again. Only the empty setting has no absolute form: it stays empty, and any other setting stays
as it is exactly if it is in normal form already. -/
theorem working_directory_is_normalised (driver : Driver) (settings : Settings) {cwd : Location}
    (hcwd : ∀ name ∈ cwd, Path.isName name = true ∧ '/' ∉ name.toList) :
    let setting := settings.workingDirectory
    let working := (start driver settings cwd).working
    (setting ≠ "" →
      Path.Normalised working.text ∧
      (Path.BeginsDouble working.text ↔ Path.BeginsDouble setting) ∧
      Path.components working.text =
        (if setting.toList.head? = some '/' then [] else cwd) ++
          (Path.components setting).filter (· != ".") ∧
      (working.text.toList.getLast? = some '/' ↔
        setting.toList.getLast? = some '/' ∨ Path.components working.text = [])) ∧
    (∀ cwd' : Location,
      start driver { settings with workingDirectory := working.text } cwd' =
        start driver settings cwd) ∧
    (working.text.toList.head? = some '/' ↔ setting ≠ "") ∧
    (working.text = setting ↔ setting = "" ∨ Path.Normalised setting) := by
  intro setting working
  have hread : working.Readable := readable_start hcwd
  have hempty : setting = "" → working = Path.empty := fun h => if_pos h
  have hhere (hne : setting ≠ "") : working.anchor ≠ .here := Path.anchor_absolute_ne_here hne
  have htrailing (hne : setting ≠ "") : working.trailing =
      (decide (setting.toList.getLast? = some '/') && !working.names.isEmpty) :=
    Path.trailing_absolute hne
  refine ⟨fun hne => ?_, fun cwd' => ?_, ?_, ?_⟩
  · refine ⟨hread.normalised (hhere hne), ?_, ?_, ?_⟩
    · rw [← Path.anchorOf_eq_doubleRoot_iff, Path.anchorOf_text hread]
      exact Path.anchor_absolute_eq_doubleRoot_iff hne
    · rw [Path.components_text hread, ← Path.namesOf_eq]
      exact Path.names_absolute hne
    · rw [Path.getLast?_text hread (hhere hne), Path.components_text hread, htrailing hne]
      cases hnames : working.names <;> simp
  · change Controller.mk driver (Path.absolute cwd' working.text) = ⟨driver, working⟩
    by_cases h : setting = ""
    · rw [hempty h]
      rfl
    · rw [Path.absolute_text hread (hhere h)]
      intro hnames
      rw [htrailing h, hnames]
      simp
  · constructor
    · intro hhead hne
      rw [hempty hne] at hhead
      cases hhead
    · intro hne
      exact (hread.normalised (hhere hne)).rooted
  · constructor
    · intro hsame
      by_cases hne : setting = ""
      · exact .inl hne
      · exact .inr (hsame ▸ hread.normalised (hhere hne))
    · rintro (h | h)
      · rw [hempty h, h]
        rfl
      · exact h.text_absolute cwd

/-- A relative setting with everything in it that is dropped or kept. Starting again with what has
become of it makes no difference in another directory. -/
theorem Sample.scattered_setting_is_normalised :
    let settings : Settings := { workingDirectory := "./a//.././b/" }
    let working := (start {} settings ["srv", "data"]).working
    working.text = "/srv/data/a/../b/" ∧ Path.Normalised working.text ∧
      Path.components working.text = ["srv", "data", "a", "..", "b"] ∧
      start {} { workingDirectory := "/srv/data/a/../b/" } ["tmp"] =
        start {} settings ["srv", "data"] := by
  intro settings working
  have hcwd : ∀ name ∈ ["srv", "data"], Path.isName name = true ∧ '/' ∉ name.toList := by decide
  have htext : working.text = "/srv/data/a/../b/" := by decide
  obtain ⟨hsetting, hagain, -, -⟩ := working_directory_is_normalised {} settings hcwd
  obtain ⟨hnormalised, -, hcomponents, -⟩ := hsetting (by decide)
  refine ⟨htext, hnormalised, hcomponents.trans (by decide), ?_⟩
  have hstart := hagain ["tmp"]
  rwa [htext] at hstart

end Controller
end NfsProvisioner
