import NfsProvisioner.Proofs.Arrival
import NfsProvisioner.Proofs.Directories
import NfsProvisioner.Proofs.PlainNames

/-!
# The text of a path leads where the path does

Mounted file systems are looked up by text: the host follows the text of a path and says where it
leads. A path in normal form whose names hold no slash can be read back from its text, so this is
where a walk along its names leads (`Tree.Arrives.canonical`). Paths that are read from a text have
such names, and so have the working directory of a controller that has been started and everything
below it that has a plain name.
-/
namespace NfsProvisioner

/-- The pieces that the start of a path makes in its text: one that is empty for each slash. -/
def Anchor.pieces : Anchor → List String
  | .here => []
  | .root => [""]
  | .doubleRoot => ["", ""]

namespace Path

/-- The names of the path can be read back from its text. -/
structure Readable (p : Path) : Prop where
  normal : p.Normal
  slashless : ∀ name ∈ p.names, '/' ∉ name.toList

variable {p : Path} {name : String}

theorem Readable.child (h : p.Readable) (hname : isName name = true) (hslash : '/' ∉ name.toList) :
    (p.child name).Readable := by
  refine ⟨h.normal.child hname, fun m hm => ?_⟩
  rcases List.mem_append.1 hm with hm | hm
  · exact h.slashless m hm
  · rw [List.mem_singleton.1 hm]
    exact hslash

theorem slashless_of_mem_namesOf {text : String} (h : name ∈ namesOf text) : '/' ∉ name.toList := by
  obtain ⟨hmem, -⟩ := List.mem_filter.1 h
  obtain ⟨piece, hpiece, rfl⟩ := List.mem_map.1 hmem
  rw [String.toList_ofList]
  intro hslash
  exact absurd (Text.not_separator_of_mem_splitWhere hpiece '/' hslash) (by decide)

theorem anchorOf_eq_here_iff {text : List Char} :
    anchorOf text = .here ↔ text.head? ≠ some '/' := by
  cases text with
  | nil => exact iff_of_true rfl (by simp)
  | cons c rest =>
    by_cases hc : c = '/'
    · subst hc
      refine iff_of_false ?_ (by simp)
      unfold anchorOf
      split <;> simp_all
    · refine iff_of_true ?_ (by simpa using hc)
      unfold anchorOf
      split <;> simp_all

/-- The text of a start is read as that start, if what follows does not begin with one more
slash. -/
theorem anchorOf_append {rest : List Char} (h : rest.head? ≠ some '/') (anchor : Anchor) :
    anchorOf (anchor.text.toList ++ rest) = anchor := by
  cases rest with
  | nil => cases anchor <;> rfl
  | cons c rest =>
    have hc : c ≠ '/' := by simpa using h
    cases anchor <;> simp [anchorOf, Anchor.text, hc]

/-- The pieces of the path's text between its slashes. -/
def spelling (p : Path) : List String :=
  p.anchor.pieces ++ (p.names ++ if p.trailing || p.names.isEmpty then [""] else [])

theorem spelling_of_not_trailing (hne : p.names ≠ []) (htrailing : p.trailing = false) :
    p.spelling = p.anchor.pieces ++ p.names := by
  simp [spelling, hne, htrailing]

theorem text_eq_intercalate (p : Path) : p.text = "/".intercalate p.spelling := by
  have hanchor (anchor : Anchor) {pieces : List String} (hne : pieces ≠ []) :
      "/".intercalate (anchor.pieces ++ pieces) = anchor.text ++ "/".intercalate pieces := by
    cases anchor with
    | here => simp [Anchor.pieces, Anchor.text]
    | root => simp [Anchor.pieces, Anchor.text, String.intercalate_cons_of_ne_nil hne]
    | doubleRoot =>
      simp [Anchor.pieces, Anchor.text, String.intercalate_cons_of_ne_nil hne,
        ← String.toList_inj]
  unfold text spelling
  by_cases hnames : p.names = []
  · rw [hanchor p.anchor (by simp [hnames])]
    simp [hnames]
  · rw [hanchor p.anchor (by simp [hnames]), String.append_assoc]
    cases p.trailing with
    | true => simp [hnames, String.intercalate_append_of_ne_nil]
    | false => simp [hnames]

section

variable (h : p.Readable)

include h

theorem Readable.slash_notMem_spelling : ∀ piece ∈ p.spelling, '/' ∉ piece.toList := by
  intro piece hpiece
  rcases List.mem_append.1 hpiece with hpiece | hpiece
  · cases hanchor : p.anchor <;> simp_all [Anchor.pieces]
  rcases List.mem_append.1 hpiece with hpiece | hpiece
  · exact h.slashless piece hpiece
  · split at hpiece <;> simp_all

/-- Cutting the text at its slashes gives the pieces. -/
theorem splitText_text : Text.splitText '/' p.text = p.spelling := by
  rw [text_eq_intercalate]
  refine Text.splitText_intercalate ?_ h.slash_notMem_spelling
  cases hnames : p.names <;> simp [spelling, hnames]

/-- A path says in its text what it starts from. -/
theorem anchorOf_text : anchorOf p.text.toList = p.anchor := by
  have hrest : ("/".intercalate p.names ++
      if p.trailing && !p.names.isEmpty then "/" else "").toList.head? ≠ some '/' := by
    cases hnames : p.names with
    | nil => simp
    | cons first others =>
      have hmem : first ∈ p.names := hnames ▸ List.mem_cons_self
      have hfirst : first.toList ≠ [] := fun hnil =>
        Tree.ne_of_isName (h.normal first hmem) (.inl (String.toList_eq_nil_iff.1 hnil))
      obtain ⟨c, rest, hchars⟩ := List.exists_cons_of_ne_nil hfirst
      have hc : c ≠ '/' := by
        rintro rfl
        exact h.slashless first hmem (hchars ▸ List.mem_cons_self)
      cases others <;> simpa [hchars] using hc
  rw [text, String.append_assoc, String.toList_append, anchorOf_append hrest]

theorem linkStart_text (cwd : Location) : Tree.linkStart cwd p.text = p.start cwd := by
  unfold Tree.linkStart start
  cases hanchor : p.anchor <;> simp only [anchorOf_text h, hanchor]

end
end Path

namespace Tree

variable {t : Tree} {cwd l : Location} {p : Path}

/-- An empty piece leads nowhere else. -/
theorem walk_empty_piece {last : Last} {links : Nat} (h : t.get? l = some .directory)
    (rest : List String) : t.walk last links l ("" :: rest) = t.walk last links l rest := by
  have hstep (follow : Location → List String → Except Fault Location) :
      walkWith t last follow l ("" :: rest) = walkWith t last follow l rest := by
    rw [walkWith, if_neg (not_not_intro h), if_pos (.inl rfl)]
  cases links with
  | zero => exact hstep _
  | succ links => exact hstep _

/-- The host finds by its text what a path leads to. -/
theorem Arrives.canonical (h : t.Arrives cwd p l) (hread : p.Readable) (hne : p.names ≠ [])
    (htrailing : p.trailing = false) (htext : checkText p.text = .ok ()) :
    t.canonical cwd p.text = .ok ("/" ++ "/".intercalate l) := by
  have hwalk : t.walk .present maxLinks (linkStart cwd p.text) (Text.splitText '/' p.text) =
      .ok l := by
    rw [Path.linkStart_text hread, Path.splitText_text hread,
      Path.spelling_of_not_trailing hne htrailing, ← h.walk]
    unfold Path.start
    cases p.anchor with
    | here => rfl
    | root => exact walk_empty_piece t.get?_nil _
    | doubleRoot =>
      exact (walk_empty_piece t.get?_nil _).trans (walk_empty_piece t.get?_nil _)
  rw [Tree.canonical, htext, hwalk]
  rfl

theorem checkText_of_checkOperand {text : String} (h : checkOperand text = .ok ()) :
    checkText text = .ok () := by
  obtain ⟨hnul, hempty, -⟩ := checkOperand_iff.1 h
  rw [checkText, if_neg hnul, if_neg hempty]

end Tree

/-- The working directory of a controller that has been started in some directory. -/
theorem Controller.readable_start {driver : Driver} {settings : Settings} {cwd : Location}
    (hcwd : ∀ name ∈ cwd, Path.isName name = true ∧ '/' ∉ name.toList) :
    (start driver settings cwd).working.Readable := by
  refine ⟨normal_start fun name hname => (hcwd name hname).1, ?_⟩
  have hnames : ∀ name ∈ Path.namesOf settings.workingDirectory, '/' ∉ name.toList :=
    fun name => Path.slashless_of_mem_namesOf
  unfold start Path.absolute
  split
  · intro name hname
    cases hname
  · cases Path.anchorOf settings.workingDirectory.toList with
    | here =>
      intro name hname
      rcases List.mem_append.1 hname with hname | hname
      · exact (hcwd name hname).2
      · exact hnames name hname
    | root => exact hnames
    | doubleRoot => exact hnames

end NfsProvisioner
