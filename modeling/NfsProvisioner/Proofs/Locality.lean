import NfsProvisioner.Proofs.Entries

/-!
# Operations look no further than their way

If no symbolic link stands on the way of a path, an operation by that path depends only on what
stands on the way and, when it removes something, below its end. So on two trees that agree there it
comes to the same (`Likewise`), whatever else the trees hold.
-/
namespace NfsProvisioner.Tree

/-- One change tried on two trees: it is refused on both for one reason, or done on both, and then
the trees agree wherever they did before. -/
inductive Likewise (t s : Tree) : Except Fault Tree → Except Fault Tree → Prop where
  | refused (fault : Fault) : Likewise t s (.error fault) (.error fault)
  | done {t' s' : Tree} (same : ∀ k, t.get? k = s.get? k → t'.get? k = s'.get? k) :
    Likewise t s (.ok t') (.ok s')

variable {t s : Tree} {cwd l : Location} {p q : Path} {name : String}

theorem walkWith_congr {follow follow' : Location → List String → Except Fault Location}
    {names : List String} (hnames : ∀ name ∈ names, Path.isName name = true)
    (hlinks : ∀ k ∈ Path.course l names, t.Linkless k)
    (hsame : ∀ k ∈ Path.course l names, t.get? k = s.get? k) :
    walkWith t .present follow l names = walkWith s .present follow' l names := by
  induction names generalizing l with
  | nil => rfl
  | cons name rest ih =>
    have hname := ne_of_isName (hnames name List.mem_cons_self)
    have hrest := @ih (Path.enter l name) (fun m hm => hnames m (List.mem_cons_of_mem name hm))
      (fun m hm => hlinks m (List.mem_cons_of_mem l hm))
      (fun m hm => hsame m (List.mem_cons_of_mem l hm))
    simp only [walkWith, ← hsame l (Path.mem_course_self _ _), if_neg hname]
    by_cases hup : name = ".."
    · rw [Path.enter, if_pos hup] at hrest
      simp only [if_pos hup, hrest]
    rw [Path.enter, if_neg hup] at hrest
    simp only [if_neg hup]
    split
    · rfl
    split
    · rfl
    have hself : l ++ [name] ∈ Path.course l (name :: rest) := by
      rw [Path.course, Path.enter, if_neg hup]
      exact List.mem_cons_of_mem l (Path.mem_course_self _ _)
    rw [← hsame _ hself]
    cases hthere : t.get? (l ++ [name]) with
    | none => rfl
    | some e =>
      cases e with
      | link target => exact absurd hthere (hlinks _ hself target)
      | directory | file => exact hrest

theorem walk_congr {links : Nat} {names : List String}
    (hnames : ∀ name ∈ names, Path.isName name = true)
    (hlinks : ∀ k ∈ Path.course l names, t.Linkless k)
    (hsame : ∀ k ∈ Path.course l names, t.get? k = s.get? k) :
    t.walk .present links l names = s.walk .present links l names := by
  cases links <;> exact walkWith_congr hnames hlinks hsame

section

variable (hq : q.Normal) (hway : t.Unlinked cwd q)
  (hsame : ∀ k ∈ q.way cwd, t.get? k = s.get? k)
include hq hway hsame

omit hq in
theorem unlinked_of_same : s.Unlinked cwd q := by
  intro k hk target
  rw [← hsame k hk]
  exact hway k hk target

/-- The directory above an entry is found in both trees, or missed for the same reason. -/
theorem slot_child_congr (hup : name ≠ "..") :
    (∃ fault, t.slot cwd (q.child name) = .error fault ∧ s.slot cwd (q.child name) = .error fault) ∨
      ∃ ht hs, t.slot cwd (q.child name) = .ok (.entry (q.location cwd) ht name) ∧
        s.slot cwd (q.child name) = .ok (.entry (q.location cwd) hs name) := by
  have hwalk := @walk_congr t s _ maxLinks _ hq hway hsame
  have hway' := unlinked_of_same hway hsame
  have hfound (l : Location) (h : t.walk .present maxLinks (q.start cwd) q.names = .ok l)
      (hs : s.get? l = some .directory) : t.get? l = some .directory := by
    obtain ⟨rfl, -, -⟩ := (walk_directory_iff hq hway').1 ⟨hwalk ▸ h, hs⟩
    rw [← hs]
    exact hsame _ Path.location_mem_way
  rw [slot_child, slot_child, ← hwalk]
  cases htext : checkOperand (q.child name).text with
  | error fault => exact .inl ⟨fault, rfl, rfl⟩
  | ok =>
    cases hl : t.walk .present maxLinks (q.start cwd) q.names with
    | error fault => exact .inl ⟨fault, rfl, rfl⟩
    | ok l =>
      simp only [bind, Except.bind]
      by_cases ht : t.get? l = some .directory
      · obtain ⟨rfl, -, -⟩ := (walk_directory_iff hq hway).1 ⟨hl, ht⟩
        have hs : s.get? (q.names.foldl Path.enter (q.start cwd)) = some .directory :=
          (hsame _ Path.location_mem_way).symm.trans ht
        rw [dif_pos ht, dif_pos hs, if_neg hup, if_neg hup]
        split
        · exact .inl ⟨.nameTooLong, rfl, rfl⟩
        · exact .inr ⟨ht, hs, rfl, rfl⟩
      · rw [dif_neg ht, dif_neg fun hs => ht (hfound l hl hs)]
        exact .inl ⟨.notDirectory, rfl, rfl⟩

theorem create_likewise (hup : name ≠ "..") (e : Entry)
    (hend : t.get? (q.location cwd ++ [name]) = s.get? (q.location cwd ++ [name])) :
    Likewise t s (t.create cwd (q.child name) e) (s.create cwd (q.child name) e) := by
  rcases slot_child_congr hq hway hsame hup with ⟨fault, ht, hs⟩ | ⟨hdt, hds, ht, hs⟩
  · rw [create, create, ht, hs]
    exact .refused fault
  · rw [create, create, ht, hs]
    simp only [bind, Except.bind]
    by_cases hfree : t.get? (q.location cwd ++ [name]) = none
    · rw [dif_pos hfree, dif_pos (hend ▸ hfree)]
      refine .done fun k hk => ?_
      rw [get?_add, get?_add, hk]
    · rw [dif_neg hfree, dif_neg (hend ▸ hfree)]
      exact .refused .alreadyExists

theorem removeDirectory_likewise (hup : name ≠ "..")
    (hbelow : ∀ r,
      t.get? (q.location cwd ++ [name] ++ r) = s.get? (q.location cwd ++ [name] ++ r)) :
    Likewise t s (t.removeDirectory cwd (q.child name)) (s.removeDirectory cwd (q.child name)) := by
  have hend : t.get? (q.location cwd ++ [name]) = s.get? (q.location cwd ++ [name]) := by
    have hself := hbelow []
    rwa [List.append_nil] at hself
  have hbare : t.isBare (q.location cwd ++ [name]) = s.isBare (q.location cwd ++ [name]) := by
    rw [Bool.eq_iff_iff, isBare_iff, isBare_iff]
    simp only [hbelow]
  rcases slot_child_congr hq hway hsame hup with ⟨fault, ht, hs⟩ | ⟨hdt, hds, ht, hs⟩
  · rw [removeDirectory, removeDirectory, ht, hs]
    exact .refused fault
  · rw [removeDirectory, removeDirectory, ht, hs]
    simp only [bind, Except.bind]
    rw [← hend, ← hbare]
    split
    · exact .refused .notFound
    · split
      · refine .done fun k hk => ?_
        rw [get?_prune, get?_prune, hk]
      · exact .refused .notEmpty
    · exact .refused .notDirectory

end

/-- Removing everything needs the trees to agree on the way and below its end also after what is
below has been cleared. -/
theorem removeAll_likewise (hq : q.Normal) (hup : name ≠ "..") (hway : t.Unlinked cwd q)
    (hsame : ∀ k ∈ q.way cwd, t.get? k = s.get? k)
    (hbelow : ∀ r,
      t.get? (q.location cwd ++ [name] ++ r) = s.get? (q.location cwd ++ [name] ++ r)) :
    Likewise t s (t.removeAll cwd (q.child name)) (s.removeAll cwd (q.child name)) := by
  have hend : t.get? (q.location cwd ++ [name]) = s.get? (q.location cwd ++ [name]) := by
    have hself := hbelow []
    rwa [List.append_nil] at hself
  have hclear (k : Location) (hk : t.get? k = s.get? k) :
      (t.clear (q.location cwd ++ [name])).get? k =
        (s.clear (q.location cwd ++ [name])).get? k := by
    rw [get?_clear, get?_clear, hk]
  have hwayClear : (t.clear (q.location cwd ++ [name])).Unlinked cwd q := by
    intro k hk target heq
    rw [get?_clear] at heq
    split at heq
    · cases heq
    · exact hway k hk target heq
  have hswept := removeDirectory_likewise hq hwayClear (fun k hk => hclear k (hsame k hk)) hup
    fun r => hclear _ (hbelow r)
  rcases slot_child_congr hq hway hsame hup with ⟨fault, ht, hs⟩ | ⟨hdt, hds, ht, hs⟩
  · rw [removeAll, removeAll, ht, hs]
    exact .refused fault
  · rw [removeAll, removeAll, ht, hs]
    simp only [bind, Except.bind]
    rw [← hend]
    split
    · exact .refused .notFound
    · exact .refused .notDirectory
    · refine .done fun k hk => ?_
      rw [get?_prune, get?_prune, hk]
    · unfold sweep
      generalize (t.clear (q.location cwd ++ [name])).removeDirectory cwd (q.child name) = x at *
      generalize (s.clear (q.location cwd ++ [name])).removeDirectory cwd (q.child name) = y at *
      cases hswept with
      | refused fault =>
        cases fault
        case notFound => exact .done hclear
        all_goals exact .refused _
      | done hdone => exact .done fun k hk => hdone k (hclear k hk)

/-- A path without names leads to a directory that is there, or nowhere. -/
theorem create_nameless_likewise {anchor : Anchor} {trailing : Bool} (e : Entry)
    (hsame : t.get? (Path.start cwd ⟨anchor, [], trailing⟩) =
      s.get? (Path.start cwd ⟨anchor, [], trailing⟩)) :
    Likewise t s (t.create cwd ⟨anchor, [], trailing⟩ e)
      (s.create cwd ⟨anchor, [], trailing⟩ e) := by
  have hwalk (u : Tree) (l : Location) : u.walk .present maxLinks l [] = .ok l := rfl
  simp only [create, slot, bind, Except.bind, List.dropLast_nil, List.getLast?_nil, hwalk]
  cases checkOperand (Path.text ⟨anchor, [], trailing⟩) with
  | error fault => exact .refused fault
  | ok =>
    dsimp only
    by_cases ht : t.get? (Path.start cwd ⟨anchor, [], trailing⟩) = some .directory
    · rw [dif_pos ht, dif_pos (hsame ▸ ht)]
      exact .refused .alreadyExists
    · rw [dif_neg ht, dif_neg (hsame ▸ ht)]
      exact .refused .notDirectory

/-- Whether a directory is there is told by its way alone. -/
theorem isDirectory_congr (hp : p.Normal) (htrailing : p.trailing = false)
    (hway : t.Unlinked cwd p) (hsame : ∀ k ∈ p.way cwd, t.get? k = s.get? k) :
    t.isDirectory cwd p = s.isDirectory cwd p := by
  have hpassable : t.Passable cwd p ↔ s.Passable cwd p := by
    unfold Passable
    constructor
    · exact fun h k hk => (hsame k hk).symm.trans (h k hk)
    · exact fun h k hk => (hsame k hk).trans (h k hk)
  rw [Bool.eq_iff_iff, isDirectory_iff hp htrailing hway,
    isDirectory_iff hp htrailing (unlinked_of_same hway hsame), hpassable]

end NfsProvisioner.Tree
