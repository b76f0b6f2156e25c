import NfsProvisioner.Proofs.Directories

/-!
# What keeps a directory from being made

On a way without symbolic links and without `..`, making a directory and those above it fails of the
first thing on the way that can neither be passed nor be made: a name that is too long, or something
that is no directory. What is missing is no obstacle, so it makes no difference to the outcome if
some of the missing directories are made by someone else (`verdict_of_grown`).
-/
namespace NfsProvisioner.Tree

/-- The first thing on the way down from `l` that is no directory and cannot be made one. -/
def obstacle (t : Tree) (l : Location) : List String → Option Fault
  | [] => none
  | name :: rest =>
    if maxNameBytes < name.utf8ByteSize then some .nameTooLong
    else if t.Open (l ++ [name]) then t.obstacle (l ++ [name]) rest
    else some .notDirectory

/-- What making the directory called `name` in the directory at `q` comes to, when those above it
are made as well. -/
def verdict (t : Tree) (cwd : Location) (q : Path) (name : String) : Except Fault Unit := do
  checkOperand (q.child name).text
  if t.get? (q.start cwd) ≠ some .directory then throw .notDirectory
  match t.obstacle (q.start cwd) q.names with
  | some fault => throw fault
  | none =>
    if maxNameBytes < name.utf8ByteSize then throw .nameTooLong
    else if t.Open (q.location cwd ++ [name]) then return ()
    else throw .alreadyExists

/-- Nothing keeps the directory at a path from being there, once it is made. -/
structure Makeable (t : Tree) (cwd : Location) (p : Path) : Prop where
  start : t.get? (p.start cwd) = some .directory
  clear : t.Clear cwd p
  usable : p.Usable

variable {t t' : Tree} {cwd l : Location} {p q : Path} {name : String} {fault : Fault}

theorem obstacle_of_grown {names : List String} (hdown : ".." ∉ names)
    (hgrown : ∀ k ∈ Path.course l names, t.GrownAt t' k) :
    t'.obstacle l names = t.obstacle l names := by
  induction names generalizing l with
  | nil => rfl
  | cons name rest ih =>
    have hup : name ≠ ".." := fun heq => hdown (heq ▸ List.mem_cons_self)
    rw [Path.course_cons hup] at hgrown
    have hopen := (hgrown _ (List.mem_cons_of_mem l (Path.mem_course_self _ _))).open_iff
    have hrest := @ih (l ++ [name]) (fun hmem => hdown (List.mem_cons_of_mem name hmem))
      fun k hk => hgrown k (List.mem_cons_of_mem l hk)
    simp only [obstacle, hopen, hrest]

theorem obstacle_eq_none_iff {names : List String} (hdown : ".." ∉ names) (hl : t.Open l) :
    t.obstacle l names = none ↔
      (∀ name ∈ names, name.utf8ByteSize ≤ maxNameBytes) ∧ ∀ k ∈ Path.course l names, t.Open k := by
  induction names generalizing l with
  | nil => simp [obstacle, Path.course, hl]
  | cons name rest ih =>
    have hup : name ≠ ".." := fun heq => hdown (heq ▸ List.mem_cons_self)
    rw [Path.course_cons hup, List.forall_mem_cons, List.forall_mem_cons, obstacle, ← Nat.not_lt]
    by_cases hlong : maxNameBytes < name.utf8ByteSize
    · simp [hlong]
    by_cases hopen : t.Open (l ++ [name])
    · simp [hlong, hopen, hl, ih (fun hmem => hdown (List.mem_cons_of_mem name hmem)) hopen]
    · have hself := Path.mem_course_self (l ++ [name]) rest
      simp only [hlong, hopen, if_false, reduceCtorEq, not_false_eq_true, true_and, false_iff]
      exact fun h => hopen (h.2.2 _ hself)

theorem obstacle_append (names more : List String) :
    t.obstacle l (names ++ more) =
      (t.obstacle l names).or (t.obstacle (l ++ names) more) := by
  induction names generalizing l with
  | nil => simp [obstacle]
  | cons name rest ih =>
    rw [List.cons_append, obstacle, obstacle]
    split
    · rfl
    · split
      · rw [ih, List.append_assoc]
        rfl
      · rfl

theorem obstacle_ne_notFound {names : List String} : t.obstacle l names ≠ some .notFound := by
  induction names generalizing l with
  | nil => exact fun h => by cases h
  | cons name rest ih =>
    rw [obstacle]
    split
    · exact fun h => by cases h
    · split
      · exact ih
      · exact fun h => by cases h

/-- A walk that does not lead to a directory has met a directory that is missing, or the
obstacle. -/
theorem walkWith_cases {follow : Location → List String → Except Fault Location}
    {names : List String} (hnames : ∀ name ∈ names, Path.isName name = true)
    (hdown : ".." ∉ names) (hlinks : ∀ k ∈ Path.course l names, t.Linkless k)
    (hl : t.get? l = some .directory) :
    match walkWith t .present follow l names with
    | .ok k => t.get? k = some .directory ∨ t.obstacle l names = some .notDirectory
    | .error fault =>
      fault = .notFound ∧ t.get? (l ++ names) = none ∨ t.obstacle l names = some fault := by
  induction names generalizing l with
  | nil => exact .inl hl
  | cons name rest ih =>
    have hname := ne_of_isName (hnames name List.mem_cons_self)
    have hup : name ≠ ".." := fun heq => hdown (heq ▸ List.mem_cons_self)
    rw [Path.course_cons hup, List.forall_mem_cons] at hlinks
    have happend : l ++ name :: rest = l ++ [name] ++ rest := List.append_cons l name rest
    rw [walkWith, if_neg (Decidable.not_not.2 hl), if_neg hname, if_neg hup, obstacle, happend]
    by_cases hlong : maxNameBytes < name.utf8ByteSize
    · rw [if_pos hlong, if_pos hlong]
      exact .inr rfl
    rw [if_neg hlong, if_neg hlong]
    cases hthere : t.get? (l ++ [name]) with
    | none => exact .inl ⟨rfl, get?_append_of_none hthere rest⟩
    | some e =>
      cases e with
      | link target => exact absurd hthere (hlinks.2 _ (Path.mem_course_self _ _) target)
      | directory =>
        have hopen : t.Open (l ++ [name]) := .inr hthere
        dsimp only
        rw [if_pos hopen]
        exact ih (fun m hm => hnames m (List.mem_cons_of_mem name hm))
          (fun hmem => hdown (List.mem_cons_of_mem name hmem)) hlinks.2 hthere
      | file contents =>
        have hclosed : ¬ t.Open (l ++ [name]) := by
          simp [Open, hthere]
        rw [if_neg hclosed]
        cases rest with
        | nil => exact .inr rfl
        | cons second others =>
          simp only [walkWith, hthere]
          exact .inr rfl

theorem walk_cases {links : Nat} {names : List String}
    (hnames : ∀ name ∈ names, Path.isName name = true)
    (hdown : ".." ∉ names) (hlinks : ∀ k ∈ Path.course l names, t.Linkless k)
    (hl : t.get? l = some .directory) :
    match t.walk .present links l names with
    | .ok k => t.get? k = some .directory ∨ t.obstacle l names = some .notDirectory
    | .error fault =>
      fault = .notFound ∧ t.get? (l ++ names) = none ∨ t.obstacle l names = some fault := by
  cases links <;> exact walkWith_cases hnames hdown hlinks hl

theorem walk_of_no_directory {links : Nat} {names : List String}
    (hl : t.get? l ≠ some .directory) :
    t.walk .present links l names = .ok l ∨
      t.walk .present links l names = .error .notDirectory := by
  cases links <;> cases names with
  | nil => exact .inl rfl
  | cons name rest =>
    refine .inr ?_
    rw [walk, walkWith, if_pos hl]

section

variable (hdown : ".." ∉ (q.child name).names)
include hdown

/-- Making a directory comes to success exactly if its path is taken and nothing is in the way. -/
theorem verdict_ok_iff : t.verdict cwd q name = .ok () ↔ t.Makeable cwd (q.child name) := by
  have hup : name ≠ ".." := fun heq => hdown (heq ▸ List.mem_append_right _ (by simp))
  have hmakeable : t.Makeable cwd (q.child name) ↔
      checkOperand (q.child name).text = .ok () ∧ t.get? (q.start cwd) = some .directory ∧
        t.obstacle (q.start cwd) q.names = none ∧ name.utf8ByteSize ≤ maxNameBytes ∧
        t.Open (q.location cwd ++ [name]) := by
    constructor
    · rintro ⟨hstart, hclear, husable⟩
      obtain ⟨htext, hnames, hshort⟩ := Path.usable_child_iff.1 husable
      exact ⟨htext, hstart, (obstacle_eq_none_iff (fun hmem => hdown (List.mem_append_left _ hmem))
        (.inr hstart)).2 ⟨hnames, hclear.of_child⟩, hshort,
        hclear _ ((Path.mem_way_child hup).2 (.inr rfl))⟩
    · rintro ⟨htext, hstart, hobstacle, hshort, hopen⟩
      obtain ⟨hnames, hclear⟩ := (obstacle_eq_none_iff
        (fun hmem => hdown (List.mem_append_left _ hmem)) (.inr hstart)).1 hobstacle
      refine ⟨hstart, fun l hl => ?_, Path.usable_child_iff.2 ⟨htext, hnames, hshort⟩⟩
      rcases (Path.mem_way_child hup).1 hl with hl | rfl
      · exact hclear l hl
      · exact hopen
  rw [hmakeable, verdict]
  cases checkOperand (q.child name).text with
  | error fault => simp [bind, Except.bind]
  | ok =>
    by_cases hstart : t.get? (q.start cwd) = some .directory
    · cases hobstacle : t.obstacle (q.start cwd) q.names with
      | some fault => simp [bind, Except.bind, hstart, throw, throwThe, MonadExceptOf.throw]
      | none =>
        have hshort : name.utf8ByteSize ≤ maxNameBytes ↔ ¬ maxNameBytes < name.utf8ByteSize :=
          Nat.not_lt.symm
        by_cases hlong : maxNameBytes < name.utf8ByteSize
        · simp [bind, Except.bind, throw, throwThe, MonadExceptOf.throw, hstart, hlong, hshort]
        · by_cases hopen : t.Open (q.location cwd ++ [name]) <;>
            simp [bind, Except.bind, pure, Except.pure, throw, throwThe, MonadExceptOf.throw,
              hstart, hlong, hshort, hopen]
    · simp [bind, Except.bind, hstart, throw, throwThe, MonadExceptOf.throw]

/-- Directories that someone else makes do not change what making a directory comes to. -/
theorem verdict_of_grown (hstart : t'.get? (q.start cwd) = t.get? (q.start cwd))
    (hgrown : ∀ k ∈ (q.child name).way cwd, t.GrownAt t' k) :
    t'.verdict cwd q name = t.verdict cwd q name := by
  have hup : name ≠ ".." := fun heq => hdown (heq ▸ List.mem_append_right _ (by simp))
  have hobstacle := @obstacle_of_grown t t' (q.start cwd) q.names
    (fun hmem => hdown (List.mem_append_left _ hmem))
    fun k hk => hgrown k ((Path.mem_way_child hup).2 (.inl hk))
  have hopen := (hgrown _ ((Path.mem_way_child hup).2 (.inr rfl))).open_iff
  simp only [verdict, hstart, hobstacle, hopen]

omit hdown in
/-- What keeps a missing directory from being made keeps those below it from being made. -/
theorem verdict_of_missing {below : String} (h : t.verdict cwd q name = .error fault)
    (htext : checkOperand (q.child name).text = .ok ())
    (htext' : checkOperand ((q.child name).child below).text = .ok ())
    (hstart : t.get? (q.start cwd) = some .directory) (hup : ".." ∉ q.names)
    (hmissing : t.get? (q.location cwd ++ [name]) = none) :
    t.verdict cwd (q.child name) below = .error fault := by
  have hopen : t.Open (q.location cwd ++ [name]) := .inl hmissing
  have hsame : (q.child name).start cwd = q.start cwd := rfl
  have hobstacle : t.obstacle (q.start cwd) (q.child name).names = some fault := by
    rw [Path.child, obstacle_append, ← Path.location_eq hup, obstacle, if_pos hopen]
    rw [verdict, htext] at h
    simp only [bind, Except.bind, hstart] at h
    cases hfirst : t.obstacle (q.start cwd) q.names with
    | some first =>
      rw [hfirst] at h
      obtain rfl := Except.error.inj h
      rfl
    | none =>
      rw [hfirst] at h
      by_cases hlong : maxNameBytes < name.utf8ByteSize
      · rw [if_pos hlong]
        exact congrArg some (Except.error.inj ((if_pos hlong).symm.trans h))
      · simp [hlong, hopen, pure, Except.pure] at h
  rw [verdict, htext', hsame, hobstacle]
  simp [bind, Except.bind, hstart, throw, throwThe, MonadExceptOf.throw]

/-- Why an attempt fails once the directory above is there. -/
theorem makeDirectory_error_of_passable (hq : q.Normal) (hpass : t.Passable cwd q)
    (hshort : ∀ m ∈ q.names, m.utf8ByteSize ≤ maxNameBytes)
    (htext : checkOperand (q.child name).text = .ok ())
    (h : t.makeDirectory cwd (q.child name) = .error fault) :
    fault ≠ .notFound ∧ t.verdict cwd q name = .error fault ∨
      fault = .alreadyExists ∧ (q.child name).Usable ∧ t.Passable cwd (q.child name) := by
  have hup : name ≠ ".." := fun heq => hdown (heq ▸ List.mem_append_right _ (by simp))
  have hstart : t.get? (q.start cwd) = some .directory := hpass _ Path.start_mem_way
  have hnone : t.obstacle (q.start cwd) q.names = none :=
    (obstacle_eq_none_iff (fun hmem => hdown (List.mem_append_left _ hmem)) (.inr hstart)).2
      ⟨hshort, hpass.clear⟩
  have hverdict : t.verdict cwd q name =
      if maxNameBytes < name.utf8ByteSize then .error .nameTooLong
      else if t.Open (q.location cwd ++ [name]) then .ok () else .error .alreadyExists := by
    rw [verdict, htext, hnone]
    simp only [bind, Except.bind, hstart]
    rfl
  rw [hverdict]
  by_cases hlong : maxNameBytes < name.utf8ByteSize
  · obtain ⟨hwalk, hdirectory⟩ := (walk_directory_iff hq hpass.unlinked).2 ⟨rfl, hshort, hpass⟩
    rw [makeDirectory, create, slot_child, htext, hwalk] at h
    simp only [bind, Except.bind, dif_pos hdirectory, if_neg hup, if_pos hlong] at h
    obtain rfl := Except.error.inj h
    exact .inl ⟨by decide, if_pos hlong⟩
  have husable : (q.child name).Usable :=
    Path.usable_child_iff.2 ⟨htext, hshort, Nat.not_lt.1 hlong⟩
  by_cases hfree : t.get? (q.location cwd ++ [name]) = none
  · obtain ⟨t', hok, -⟩ := create_child_of_free .directory hq hup husable hpass hfree
    rw [makeDirectory, hok] at h
    cases h
  rw [makeDirectory, create_child_of_taken .directory hq hup husable hpass hfree] at h
  obtain rfl := Except.error.inj h
  by_cases hthere : t.get? (q.location cwd ++ [name]) = some .directory
  · exact .inr ⟨rfl, husable, (passable_child_iff hup).2 ⟨hpass, hthere⟩⟩
  · have hclosed : ¬ t.Open (q.location cwd ++ [name]) := not_or.2 ⟨hfree, hthere⟩
    exact .inl ⟨by decide, by rw [if_neg hlong, if_neg hclosed]⟩

/-- Why a directory is not made by a single attempt: for the reason that would keep it from being
made in the end, because the directory above is missing, or because it is there already. -/
theorem makeDirectory_error (hnormal : (q.child name).Normal)
    (hlinks : t.Unlinked cwd (q.child name))
    (h : t.makeDirectory cwd (q.child name) = .error fault) :
    fault ≠ .notFound ∧ t.verdict cwd q name = .error fault ∨
      fault = .notFound ∧ checkOperand (q.child name).text = .ok () ∧
        t.get? (q.start cwd) = some .directory ∧ t.get? (q.location cwd) = none ∨
      fault = .alreadyExists ∧ (q.child name).Usable ∧ t.Passable cwd (q.child name) := by
  have hdown' : ".." ∉ q.names := fun hmem => hdown (List.mem_append_left _ hmem)
  have hq : q.Normal := fun m hm => hnormal m (List.mem_append_left _ hm)
  have hmade := h
  rw [makeDirectory, create, slot_child] at h
  rw [verdict]
  cases htext : checkOperand (q.child name).text with
  | error textFault =>
    rw [htext] at h
    obtain rfl := Except.error.inj h
    refine .inl ⟨?_, rfl⟩
    rintro rfl
    exact Path.text_child_ne_empty hnormal.last_ne_empty (eq_empty_of_checkOperand htext)
  | ok =>
    rw [htext] at h
    simp only [bind, Except.bind] at h ⊢
    by_cases hstart : t.get? (q.start cwd) = some .directory
    · have hwalk := @walk_cases t _ maxLinks _ hq hdown' hlinks.of_child hstart
      cases hl : t.walk .present maxLinks (q.start cwd) q.names with
      | error walkFault =>
        rw [hl] at h hwalk
        obtain rfl := Except.error.inj h
        rcases hwalk with ⟨rfl, hmissing⟩ | hobstacle
        · rw [← Path.location_eq hdown'] at hmissing
          exact .inr (.inl ⟨rfl, trivial, hstart, hmissing⟩)
        · refine .inl ⟨fun heq => obstacle_ne_notFound (heq ▸ hobstacle), ?_⟩
          rw [if_neg (Decidable.not_not.2 hstart), hobstacle]
          rfl
      | ok l =>
        by_cases hdirectory : t.get? l = some .directory
        · obtain ⟨-, hshort, hpass⟩ :=
            (walk_directory_iff hq hlinks.of_child).1 ⟨hl, hdirectory⟩
          have hreason := makeDirectory_error_of_passable hdown hq hpass hshort htext hmade
          rw [verdict, htext] at hreason
          exact hreason.imp_right .inr
        · rw [hl] at h hwalk
          simp only [dif_neg hdirectory] at h
          obtain rfl := Except.error.inj h
          rw [if_neg (Decidable.not_not.2 hstart), hwalk.resolve_left hdirectory]
          exact .inl ⟨by decide, rfl⟩
    · refine .inl ?_
      rw [if_pos hstart]
      rcases @walk_of_no_directory t _ maxLinks q.names hstart with hwalk | hwalk
      · rw [hwalk] at h
        simp only [dif_neg hstart] at h
        obtain rfl := Except.error.inj h
        exact ⟨by decide, rfl⟩
      · rw [hwalk] at h
        obtain rfl := Except.error.inj h
        exact ⟨by decide, rfl⟩

end

end NfsProvisioner.Tree
