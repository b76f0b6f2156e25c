import NfsProvisioner.Proofs.Restoration

/-!
# Making a directory once more

Whatever making a directory and those above it has come to, doing it again changes nothing: what has
been made is found, and what could not be made cannot be made then either. A directory that has been
removed since, because it was empty, is made where it was.

Symbolic links on the way are followed. All of this needs that they lead to the directory above
without passing through the directory itself (`Tree.Carries`).
-/
namespace NfsProvisioner

namespace Tree

variable {t u : Tree} {cwd l : Location} {q : Path} {name : String} {fault : Fault}

/-- One attempt to make a directory. The presence of a directory is as good. -/
def attempt (t : Tree) (cwd : Location) (p : Path) : Except Fault Unit × Tree :=
  match t.makeDirectory cwd p with
  | .ok made => (.ok (), made)
  | .error fault => (if t.isDirectory cwd p then .ok () else .error fault, t)

/-- The second tree is the first one with a new directory, in the directory that a path leads to. -/
structure Gains (t u : Tree) (cwd : Location) (q : Path) (name : String) (l : Location) : Prop where
  arrives : t.Arrives cwd q l
  takes : q.Takes name
  free : t.get? (l ++ [name]) = none
  put : t.Put u (l ++ [name]) (some .directory)

/-- What making a directory and those above it comes to. -/
def made (t : Tree) (cwd : Location) (p : Path) : Except Fault Unit × Tree :=
  let o := (Procedure.createDirectories p).run .inert ⟨cwd, t, ()⟩
  (o.answer, o.host.tree)

end Tree

namespace Procedure

variable {σ : Type}

/-- Any mounter's host comes out of it with the same files. -/
theorem run_createDirectories (m : Mounter σ) (p : Path) (host : Host σ) :
    (createDirectories p).run m host =
      ⟨(host.tree.made host.cwd p).1, { host with tree := (host.tree.made host.cwd p).2 }, []⟩ :=
  run_of_filesOnly (filesOnly_createDirectories p) m .inert host ()

end Procedure

namespace Tree

variable {t u : Tree} {cwd l : Location} {q : Path} {name : String} {fault : Fault}

namespace Gains

theorem within (h : t.Gains u cwd q name l) : t.Within u :=
  within_of_outside h.free fun _ hk => h.put.outside hk

theorem directory (h : t.Gains u cwd q name l) : u.get? (l ++ [name]) = some .directory :=
  (h.put _).trans (if_pos rfl)

end Gains

theorem made_nameless (t : Tree) (cwd : Location) (anchor : Anchor) :
    (t.made cwd ⟨anchor, [], false⟩).2 = t := by
  unfold made Procedure.createDirectories
  simp only [List.reverse_nil, Procedure.createDirectoriesFrom]
  split
  · rfl
  · rw [Procedure.run_makeDirectory]
    cases hmade : t.makeDirectory cwd ⟨anchor, [], false⟩ with
    | ok made => exact absurd hmade (create_nameless t cwd anchor false .directory made)
    | error fault => rfl

/-- The directories above are made only if the first attempt misses one of them. -/
theorem made_child_of_found (h : t.makeDirectory cwd (q.child name) ≠ .error .notFound) :
    t.made cwd (q.child name) = t.attempt cwd (q.child name) := by
  unfold made attempt
  rw [Procedure.run_createDirectories_child h, Procedure.run_makeDirectory]
  cases t.makeDirectory cwd (q.child name) <;> rfl

theorem made_child_of_missing (htrailing : q.trailing = false)
    (h : t.makeDirectory cwd (q.child name) = .error .notFound) :
    t.made cwd (q.child name) =
      match t.made cwd q with
      | (.ok (), upper) => upper.attempt cwd (q.child name)
      | (.error fault, upper) => (.error fault, upper) := by
  have hchild : (⟨q.anchor, (name :: q.names.reverse).reverse, false⟩ : Path) = q.child name := by
    simp [Path.child]
  have hmaking : Procedure.createDirectories (q.child name) =
      Procedure.createDirectoriesFrom q.anchor false (name :: q.names.reverse) := by
    simp [Procedure.createDirectories, Path.child]
  have hupper : Procedure.createDirectoriesFrom q.anchor false q.names.reverse =
      Procedure.createDirectories q := by
    rw [Procedure.createDirectories, htrailing]
  have hrun := @Procedure.run_createDirectoriesFrom_of_missing Unit .inert name q.anchor
    q.names.reverse ⟨cwd, t, ()⟩ false (by rw [hchild]; exact h)
  rw [← hmaking, hupper, Procedure.run_createDirectories .inert q, hchild] at hrun
  rw [made, hrun]
  generalize t.made cwd q = upper
  obtain ⟨answer, u⟩ := upper
  cases answer with
  | error fault => rfl
  | ok =>
    dsimp only
    rw [Procedure.run_makeDirectory, attempt]
    dsimp only
    cases u.makeDirectory cwd (q.child name) <;> rfl

/-- An attempt that fails changes nothing. -/
theorem attempt_error_inv (h : t.attempt cwd (q.child name) = (.error fault, u)) : u = t := by
  unfold attempt at h
  cases hmade : t.makeDirectory cwd (q.child name) with
  | ok made =>
    rw [hmade] at h
    cases h
  | error reason =>
    rw [hmade] at h
    exact (congrArg Prod.snd h).symm

/-- An attempt succeeds by making the directory or by finding it. -/
theorem attempt_ok_inv (h : t.attempt cwd (q.child name) = (.ok (), u)) :
    (∃ l, t.Gains u cwd q name l) ∨ u = t ∧ t.isDirectory cwd (q.child name) = true := by
  unfold attempt at h
  cases hmade : t.makeDirectory cwd (q.child name) with
  | ok made =>
    rw [hmade] at h
    cases h
    obtain ⟨l, harrives, htakes, hfree, hput⟩ := create_child_inv hmade
    exact .inl ⟨l, harrives, htakes, hfree, hput⟩
  | error reason =>
    rw [hmade] at h
    dsimp only at h
    split at h
    · next hthere =>
      cases h
      exact .inr ⟨rfl, hthere⟩
    · cases h

/-- If a path leads to a directory, so do those of the directories above it. -/
theorem arrives_of_isDirectory_child (h : t.isDirectory cwd (q.child name) = true) :
    checkOperand (q.child name).text = .ok () ∧
      ∃ l, t.Arrives cwd q l ∧ (Path.isName name = true → name ≠ ".." →
        q.Takes name ∧ t.get? (l ++ [name]) ≠ none ∧
          (t.Linkless (l ++ [name]) → t.get? (l ++ [name]) = some .directory)) := by
  unfold isDirectory at h
  split at h
  · next k hk =>
    have hpieces : (q.child name).pieces = q.names ++ [name] := List.append_nil _
    unfold resolve at hk
    cases htext : checkOperand (q.child name).text with
    | error reason =>
      rw [htext] at hk
      cases hk
    | ok =>
      rw [htext, hpieces] at hk
      obtain ⟨l, onward, hl, hlast⟩ := walk_split hk
      obtain ⟨hdirectory, hentry⟩ := walkWith_cons_ok_iff.1 hlast
      refine ⟨rfl, l, ⟨hl, hdirectory⟩, fun hname hup => ?_⟩
      rcases hentry with ⟨hdot, -⟩ | ⟨hup', -⟩ | ⟨⟨-, -, hshort⟩, hthere⟩
      · exact absurd hdot (ne_of_isName hname)
      · exact absurd hup' hup
      refine ⟨⟨hup, hshort, htext⟩, ?_⟩
      rcases hthere with ⟨target, hlink, -⟩ | ⟨e, he, -, hend⟩
      · rw [hlink]
        exact ⟨Option.some_ne_none _, fun hlinkless => absurd hlink (hlinkless target)⟩
      · obtain rfl := Except.ok.inj hend
        rw [beq_iff_eq.1 h]
        exact ⟨Option.some_ne_none _, fun _ => rfl⟩
  · cases h

/-- Where the directory above is found, no attempt misses anything. -/
theorem makeDirectory_ne_notFound
    (hwalk : t.walk .present maxLinks (q.start cwd) q.names = .ok l) (hname : name ≠ "") :
    t.makeDirectory cwd (q.child name) ≠ .error .notFound := by
  intro hmissing
  rw [makeDirectory] at hmissing
  cases htext : checkOperand (q.child name).text with
  | error reason =>
    rw [create, slot_child, htext] at hmissing
    cases hmissing
    exact Path.text_child_ne_empty hname (eq_empty_of_checkOperand htext)
  | ok =>
    by_cases hdirectory : t.get? l = some .directory
    · have harrives : t.Arrives cwd q l := ⟨hwalk, hdirectory⟩
      by_cases hup : name = ".."
      · subst hup
        rw [create, harrives.slot_up htext] at hmissing
        cases hmissing
      by_cases hlong : maxNameBytes < name.utf8ByteSize
      · rw [create, slot_child, htext, hwalk] at hmissing
        simp [bind, Except.bind, hdirectory, hup, hlong, throw, throwThe,
          MonadExceptOf.throw] at hmissing
      have htakes : q.Takes name := ⟨hup, Nat.not_lt.1 hlong, htext⟩
      by_cases hfree : t.get? (l ++ [name]) = none
      · obtain ⟨t', hmade, -⟩ := harrives.create_of_free htakes .directory hfree
        rw [hmade] at hmissing
        cases hmissing
      · rw [harrives.create_of_taken htakes .directory hfree] at hmissing
        cases hmissing
    · rw [create, slot_child, htext, hwalk] at hmissing
      simp [bind, Except.bind, hdirectory, throw, throwThe, MonadExceptOf.throw] at hmissing

/-- Where nothing stands, a directory is made. -/
theorem Arrives.made_of_free (h : t.Arrives cwd q l) (htakes : q.Takes name)
    (hfree : t.get? (l ++ [name]) = none) :
    ∃ u, t.made cwd (q.child name) = (.ok (), u) ∧ t.Put u (l ++ [name]) (some .directory) := by
  obtain ⟨u, hmade, hput⟩ := @Procedure.run_createDirectories_of_free Unit .inert ⟨cwd, t, ()⟩ q
    name l h htakes hfree
  refine ⟨u, ?_, hput⟩
  rw [made, hmade]

/-- A directory that is there is found. -/
theorem made_of_isDirectory (hname : Path.isName name = true)
    (h : t.isDirectory cwd (q.child name) = true) :
    t.made cwd (q.child name) = (.ok (), t) := by
  obtain ⟨-, l, harrives, hthere⟩ := arrives_of_isDirectory_child h
  have hne : name ≠ "" := fun heq => ne_of_isName hname (.inl heq)
  rw [made_child_of_found (makeDirectory_ne_notFound harrives.walk hne), attempt]
  cases hmade : t.makeDirectory cwd (q.child name) with
  | error reason =>
    dsimp only
    rw [if_pos h]
  | ok made =>
    obtain ⟨k, harrives', htakes, hfree, -⟩ := create_child_inv hmade
    obtain rfl := harrives.unique harrives'
    exact absurd hfree (hthere hname htakes.ne_up).2.1

/-- What an attempt has made is found. -/
theorem isDirectory_of_attempt (hname : Path.isName name = true)
    (h : t.attempt cwd (q.child name) = (.ok (), u)) :
    u.isDirectory cwd (q.child name) = true := by
  rcases attempt_ok_inv h with ⟨l, hgains⟩ | ⟨rfl, hthere⟩
  · have harrives := (hgains.arrives.mono hgains.within).child hname hgains.takes hgains.directory
    exact harrives.isDirectory hgains.takes.text rfl
  · exact hthere

/-- Making a directory and those above it takes one attempt in the end. -/
theorem made_child_cases (htrailing : q.trailing = false) :
    t.makeDirectory cwd (q.child name) ≠ .error .notFound ∧
      t.made cwd (q.child name) = t.attempt cwd (q.child name) ∨
    t.makeDirectory cwd (q.child name) = .error .notFound ∧ ∃ upper,
      (∃ reason, t.made cwd q = (.error reason, upper) ∧
        t.made cwd (q.child name) = (.error reason, upper)) ∨
      t.made cwd q = (.ok (), upper) ∧
        t.made cwd (q.child name) = upper.attempt cwd (q.child name) := by
  by_cases hmissing : t.makeDirectory cwd (q.child name) = .error .notFound
  · refine .inr ⟨hmissing, ?_⟩
    have hmade := made_child_of_missing htrailing hmissing
    rcases hupper : t.made cwd q with ⟨reason | ⟨⟩, upper⟩
    · rw [hupper] at hmade
      exact ⟨upper, .inl ⟨reason, rfl, hmade⟩⟩
    · rw [hupper] at hmade
      exact ⟨upper, .inr ⟨rfl, hmade⟩⟩
  · exact .inl ⟨hmissing, made_child_of_found hmissing⟩

theorem isDirectory_of_made (htrailing : q.trailing = false) (hname : Path.isName name = true)
    (h : t.made cwd (q.child name) = (.ok (), u)) : u.isDirectory cwd (q.child name) = true := by
  rcases @made_child_cases t cwd q name htrailing with
    ⟨-, hattempt⟩ | ⟨-, upper, ⟨reason, -, hfailed⟩ | ⟨-, hattempt⟩⟩
  · exact isDirectory_of_attempt hname (hattempt ▸ h)
  · rw [hfailed] at h
    cases h
  · exact isDirectory_of_attempt hname (hattempt ▸ h)

/-- What has been made is found. -/
theorem made_of_made (htrailing : q.trailing = false) (hname : Path.isName name = true)
    (h : t.made cwd (q.child name) = (.ok (), u)) : u.made cwd (q.child name) = (.ok (), u) :=
  made_of_isDirectory hname (isDirectory_of_made htrailing hname h)

/-- Once a directory and those above it have been made, no attempt to make one in it misses
anything. -/
theorem makeDirectory_of_made (hq : q.Normal) (htrailing : q.trailing = false) (hname : name ≠ "")
    (h : t.made cwd q = (.ok (), u)) :
    u.makeDirectory cwd (q.child name) ≠ .error .notFound := by
  induction q, htrailing using Path.child_induction with
  | nameless anchor => exact makeDirectory_ne_notFound rfl hname
  | child above last htrailing _ =>
    have hlast := hq last (List.mem_append_right _ (List.mem_singleton_self _))
    obtain ⟨l, harrives⟩ := arrives_of_isDirectory (isDirectory_of_made htrailing hlast h)
    exact makeDirectory_ne_notFound harrives.walk hname

/-- If the directory above cannot be made, neither can one in it. -/
theorem attempt_of_not_made (hq : q.Normal) (htrailing : q.trailing = false) (hnames : q.names ≠ [])
    (h : t.made cwd q = (.error fault, u)) (v : Tree) :
    t.attempt cwd (q.child name) ≠ (.ok (), v) := by
  intro hattempt
  obtain ⟨above, last, -, rfl⟩ := Path.eq_child_of_trailing htrailing hnames
  have hlast := hq last (List.mem_append_right _ (List.mem_singleton_self _))
  obtain ⟨htext, l, harrives⟩ : checkOperand ((above.child last).child name).text = .ok () ∧
      ∃ l, t.Arrives cwd (above.child last) l := by
    rcases attempt_ok_inv hattempt with ⟨l, hgains⟩ | ⟨-, hthere⟩
    · exact ⟨hgains.takes.text, l, hgains.arrives⟩
    · obtain ⟨htext, l, harrives, -⟩ := arrives_of_isDirectory_child hthere
      exact ⟨htext, l, harrives⟩
  have htext' := Path.checkOperand_of_child htext rfl
    (Path.text_child_ne_empty (Path.Normal.last_ne_empty hq))
  rw [made_of_isDirectory hlast (harrives.isDirectory htext' rfl)] at h
  cases h

/-- What could not be made cannot be made then either. -/
theorem made_of_not_made (hq : q.Normal) (htrailing : q.trailing = false)
    (h : t.made cwd q = (.error fault, u)) : ∃ reason, u.made cwd q = (.error reason, u) := by
  induction q, htrailing using Path.child_induction generalizing t u fault with
  | nameless anchor =>
    have hsame := made_nameless t cwd anchor
    rw [h] at hsame
    obtain rfl : u = t := hsame
    exact ⟨fault, h⟩
  | child q name htrailing ih =>
    have hq' : q.Normal := fun n hn => hq n (List.mem_append_left _ hn)
    have hne := Path.Normal.last_ne_empty hq
    rcases @made_child_cases t cwd q name htrailing with
      ⟨-, hattempt⟩ | ⟨hmissing, upper, ⟨reason, hupper, hfailed⟩ | ⟨hupper, hattempt⟩⟩
    · obtain rfl := attempt_error_inv (hattempt ▸ h)
      exact ⟨fault, h⟩
    · obtain rfl : u = upper := congrArg Prod.snd (h.symm.trans hfailed)
      obtain ⟨reason', hagain⟩ := ih hq' hupper
      have hnames : q.names ≠ [] := by
        intro hnil
        have hwalk : t.walk .present maxLinks (q.start cwd) q.names = .ok (q.start cwd) := by
          rw [hnil]
          rfl
        exact makeDirectory_ne_notFound hwalk hne hmissing
      rcases @made_child_cases u cwd q name htrailing with
        ⟨-, hattempt⟩ | ⟨-, upper', ⟨reason'', hupper', hfailed'⟩ | ⟨hupper', -⟩⟩
      · rcases hu : u.attempt cwd (q.child name) with ⟨reason'' | ⟨⟩, v⟩
        · obtain rfl := attempt_error_inv hu
          exact ⟨reason'', hattempt.trans hu⟩
        · exact absurd hu (attempt_of_not_made hq' htrailing hnames hagain v)
      · obtain rfl : u = upper' := congrArg Prod.snd (hagain.symm.trans hupper')
        exact ⟨reason'', hfailed'⟩
      · rw [hagain] at hupper'
        cases hupper'
    · obtain rfl := attempt_error_inv (hattempt ▸ h)
      refine ⟨fault, ?_⟩
      rw [made_child_of_found (makeDirectory_of_made hq' htrailing hne hupper), ← hattempt, h]

/-- Making a directory and those above it removes nothing. -/
theorem within_made (htrailing : q.trailing = false) : t.Within (t.made cwd q).2 := by
  have hattempt (u : Tree) (q : Path) (name : String) :
      u.Within (u.attempt cwd (q.child name)).2 := by
    rcases hu : u.attempt cwd (q.child name) with ⟨reason | ⟨⟩, v⟩
    · obtain rfl := attempt_error_inv hu
      exact Within.refl
    · rcases attempt_ok_inv hu with ⟨l, hgains⟩ | ⟨rfl, -⟩
      · exact hgains.within
      · exact Within.refl
  induction q, htrailing using Path.child_induction with
  | nameless anchor =>
    rw [made_nameless]
    exact Within.refl
  | child q name htrailing ih =>
    rcases @made_child_cases t cwd q name htrailing with
      ⟨-, hmade⟩ | ⟨-, upper, ⟨reason, hupper, hfailed⟩ | ⟨hupper, hmade⟩⟩
    · rw [hmade]
      exact hattempt t q name
    · rw [hfailed]
      rwa [hupper] at ih
    · rw [hmade]
      rw [hupper] at ih
      exact ih.trans (hattempt upper q name)

/-- A directory that has been made, and not found, is made in the end where its path leads to the
directory above. Otherwise nothing is made. -/
theorem made_ok_inv (hq : (q.child name).Normal) (hdown : ".." ∉ (q.child name).names)
    (htrailing : q.trailing = false) (h : t.made cwd (q.child name) = (.ok (), u)) :
    (∃ (v : Tree) (l : Location), v.Gains u cwd q name l) ∨
      u = t ∧ t.isDirectory cwd (q.child name) = true := by
  induction q, htrailing using Path.child_induction generalizing u name with
  | nameless anchor =>
    have hne := Path.Normal.last_ne_empty hq
    rw [made_child_of_found (makeDirectory_ne_notFound rfl hne)] at h
    exact (attempt_ok_inv h).imp_left fun ⟨l, hgains⟩ => ⟨t, l, hgains⟩
  | child q last htrailing ih =>
    have hq' : (q.child last).Normal := fun n hn => hq n (List.mem_append_left _ hn)
    have hdown' : ".." ∉ (q.child last).names := fun hmem => hdown (List.mem_append_left _ hmem)
    have hname := hq name (List.mem_append_right _ (List.mem_singleton_self _))
    have hup : name ≠ ".." := by
      rintro rfl
      exact hdown (List.mem_append_right _ (List.mem_singleton_self _))
    rcases @made_child_cases t cwd (q.child last) name rfl with
      ⟨-, hattempt⟩ | ⟨hmissing, upper, ⟨reason, -, hfailed⟩ | ⟨hupper, hattempt⟩⟩
    · exact (attempt_ok_inv (hattempt ▸ h)).imp_left fun ⟨l, hgains⟩ => ⟨t, l, hgains⟩
    · rw [hfailed] at h
      cases h
    rcases attempt_ok_inv (hattempt ▸ h) with ⟨l, hgains⟩ | ⟨rfl, hthere⟩
    · exact .inl ⟨upper, l, hgains⟩
    -- The directory above has just been made, so nothing can have been found in it.
    obtain ⟨-, l, harrives, hentry⟩ := arrives_of_isDirectory_child hthere
    rcases ih hq' hdown' hupper with ⟨v, k, hgains⟩ | ⟨rfl, -⟩
    · have hlast := hq' last (List.mem_append_right _ (List.mem_singleton_self _))
      obtain rfl := harrives.unique
        ((hgains.arrives.mono hgains.within).child hlast hgains.takes hgains.directory)
      refine absurd ?_ (hentry hname hup).2.1
      rw [hgains.put, if_neg (by simp), get?_append_of_none hgains.free]
    · exact absurd hmissing
        (makeDirectory_ne_notFound harrives.walk (Path.Normal.last_ne_empty hq))

/-- What an attempt to remove a directory leaves. -/
def cleared (t : Tree) (cwd : Location) (p : Path) : Tree :=
  match t.removeDirectory cwd p with
  | .ok left => left
  | .error _ => t

/-- An empty directory is all that is taken away with it. -/
theorem Pruned.put_of_bare (h : t.Pruned u l) (hbare : ∀ r, r ≠ [] → t.get? (l ++ r) = none) :
    t.Put u l none := by
  intro k
  rw [h]
  split
  · next hbelow =>
    obtain ⟨r, rfl⟩ := hbelow
    split
    · rfl
    · next hself => exact (hbare r fun hr => hself (by rw [hr, List.append_nil])).symm
  · next hoff =>
    rw [if_neg]
    rintro rfl
    exact hoff (List.prefix_refl _)

/-- With something in it, a directory is not removed. -/
theorem Arrives.cleared_of_occupied (h : t.Arrives cwd q l) (htakes : q.Takes name)
    (hdirectory : t.get? (l ++ [name]) = some .directory) {r : Location} (hr : r ≠ [])
    (hfull : t.get? (l ++ [name] ++ r) ≠ none) : t.cleared cwd (q.child name) = t := by
  rw [cleared, h.removeDirectory_of_full htakes hdirectory hr hfull]

/-- An attempt to remove a directory takes it away if it is empty, and nothing else. -/
theorem Arrives.cleared_cases (h : t.Arrives cwd q l) (htakes : q.Takes name)
    (hdirectory : t.get? (l ++ [name]) = some .directory) :
    (∃ r, r ≠ [] ∧ t.get? (l ++ [name] ++ r) ≠ none) ∧ t.cleared cwd (q.child name) = t ∨
      (∀ r, r ≠ [] → t.get? (l ++ [name] ++ r) = none) ∧
        t.Put (t.cleared cwd (q.child name)) (l ++ [name]) none := by
  by_cases hfull : ∃ r, r ≠ [] ∧ t.get? (l ++ [name] ++ r) ≠ none
  · obtain ⟨r, hr, hthere⟩ := hfull
    exact .inl ⟨⟨r, hr, hthere⟩, h.cleared_of_occupied htakes hdirectory hr hthere⟩
  · have hbare : ∀ r, r ≠ [] → t.get? (l ++ [name] ++ r) = none :=
      fun r hr => Classical.byContradiction fun hthere => hfull ⟨r, hr, hthere⟩
    obtain ⟨left, hleft, hpruned⟩ := h.removeDirectory_of_bare htakes hdirectory hbare
    refine .inr ⟨hbare, ?_⟩
    rw [cleared, hleft]
    exact hpruned.put_of_bare hbare

/-- The entry `name` of the directory that `q` leads to is a directory, and the way of `q` does not
lead through it. -/
structure Carries (t : Tree) (cwd : Location) (q : Path) (name : String) (l : Location) : Prop where
  arrives : (t.prune (l ++ [name]) (Location.child_ne_root l name)).Arrives cwd q l
  directory : t.get? (l ++ [name]) = some .directory

/-- If `q` leads to a directory then its entry `name` is no symbolic link, and the way of `q` does
not lead through it. -/
def Steady (t : Tree) (cwd : Location) (q : Path) (name : String) : Prop :=
  ∀ l, t.Arrives cwd q l →
    t.Linkless (l ++ [name]) ∧
      (t.prune (l ++ [name]) (Location.child_ne_root l name)).Arrives cwd q l

theorem within_prune_of_outside {below : l ≠ []}
    (h : ∀ k e, ¬ l <+: k → t.get? k = some e → u.get? k = some e) :
    (t.prune l below).Within (u.prune l below) := by
  intro k e hk
  rw [get?_prune] at hk ⊢
  split
  · next hbelow =>
    rw [if_pos hbelow] at hk
    cases hk
  · next hoff =>
    rw [if_neg hoff] at hk
    exact h k e hoff hk

theorem within_prune_of_free {below : l ≠ []} (hfree : t.get? l = none) (hwithin : t.Within u) :
    t.Within (u.prune l below) := by
  intro k e hk
  rw [get?_prune, if_neg (not_below_of_free hfree hk), hwithin k e hk]

theorem prune_within {below : l ≠ []} : (t.prune l below).Within t := by
  intro k e hk
  rw [get?_prune] at hk
  split at hk
  · cases hk
  · exact hk

namespace Carries

theorem found (h : t.Carries cwd q name l) : t.Arrives cwd q l :=
  h.arrives.mono prune_within

theorem inside (h : t.Carries cwd q name l) (hname : Path.isName name = true)
    (htakes : q.Takes name) : t.Arrives cwd (q.child name) (l ++ [name]) :=
  h.found.child hname htakes h.directory

/-- Outside the directory it is enough that nothing goes missing. -/
theorem of_outside (h : t.Carries cwd q name l)
    (houtside : ∀ k e, ¬ l ++ [name] <+: k → t.get? k = some e → u.get? k = some e)
    (hdirectory : u.get? (l ++ [name]) = some .directory) : u.Carries cwd q name l :=
  ⟨h.arrives.mono (within_prune_of_outside houtside), hdirectory⟩

theorem mono (h : t.Carries cwd q name l) (hwithin : t.Within u) : u.Carries cwd q name l :=
  h.of_outside (fun k e _ he => hwithin k e he) (hwithin _ _ h.directory)

/-- What is done to an entry of the directory leaves the directory there. -/
theorem of_below (h : t.Carries cwd q name l) (last : String)
    (houtside : ∀ k, ¬ l ++ [name] ++ [last] <+: k → u.get? k = t.get? k) :
    u.Carries cwd q name l := by
  refine h.of_outside (fun k e hk he => ?_) ?_
  · rw [houtside k fun hbelow => hk ((List.prefix_append _ _).trans hbelow), he]
  · rw [houtside _ (Location.child_not_above _ last), h.directory]

theorem clear (h : t.Carries cwd q name l) (last : String) :
    (t.clear (l ++ [name] ++ [last])).Carries cwd q name l :=
  h.of_below last fun k hk => (get?_clear k).trans (if_neg fun hin => hk hin.1)

theorem made_self (h : t.Carries cwd q name l) (hname : Path.isName name = true)
    (htakes : q.Takes name) : t.made cwd (q.child name) = (.ok (), t) :=
  made_of_isDirectory hname ((h.inside hname htakes).isDirectory htakes.text rfl)

/-- Once removed, the directory is made again where it was. -/
theorem made_cleared (h : t.Carries cwd q name l) (hname : Path.isName name = true)
    (htakes : q.Takes name) :
    (t.cleared cwd (q.child name)).made cwd (q.child name) = (.ok (), t) := by
  rcases h.found.cleared_cases htakes h.directory with ⟨-, hsame⟩ | ⟨-, hput⟩
  · rw [hsame]
    exact h.made_self hname htakes
  generalize t.cleared cwd (q.child name) = left at hput
  have hwithin : (t.prune (l ++ [name]) (Location.child_ne_root l name)).Within left := by
    intro k e hk
    rw [get?_prune] at hk
    split at hk
    · cases hk
    · next hoff => rw [hput.outside hoff, hk]
  have hfree : left.get? (l ++ [name]) = none := (hput _).trans (if_pos rfl)
  obtain ⟨again, hmade, hput'⟩ := (h.arrives.mono hwithin).made_of_free htakes hfree
  rw [hmade]
  obtain rfl : again = t := by
    apply ext_get?
    intro k
    rw [hput']
    split
    · next heq => rw [heq, h.directory]
    · next hself => rw [hput, if_neg hself]
  rfl

end Carries

/-- Whatever has been made is a directory that the way to it does not lead through, unless that was
so from the start. -/
theorem Steady.carries_of_made (h : t.Steady cwd q name) (hq : (q.child name).Normal)
    (hdown : ".." ∉ (q.child name).names) (hmade : t.made cwd (q.child name) = (.ok (), u)) :
    q.Takes name ∧ ∃ l, u.Carries cwd q name l := by
  have hname := hq name (List.mem_append_right _ (List.mem_singleton_self _))
  have hup : name ≠ ".." := by
    rintro rfl
    exact hdown (List.mem_append_right _ (List.mem_singleton_self _))
  rcases @made_ok_inv t u cwd ⟨q.anchor, q.names, false⟩ name hq hdown rfl hmade with
    ⟨v, l, hgains⟩ | ⟨rfl, hthere⟩
  · have hwithin : v.Within (u.prune (l ++ [name]) (Location.child_ne_root l name)) :=
      within_prune_of_free hgains.free hgains.within
    have harrives := hgains.arrives.mono hwithin
    exact ⟨⟨hup, hgains.takes.short, hgains.takes.text⟩, l, ⟨harrives.walk, harrives.directory⟩,
      hgains.directory⟩
  · change u.isDirectory cwd (q.child name) = true at hthere
    obtain ⟨-, l, harrives, hentry⟩ := arrives_of_isDirectory_child hthere
    obtain ⟨htakes, -, hdirectory⟩ := hentry hname hup
    obtain ⟨hlinkless, hwithout⟩ := h l harrives
    exact ⟨htakes, l, hwithout, hdirectory hlinkless⟩

section

variable {p p' : Path} (hp : p.Normal) (hlinks : t.Unlinked cwd p)
include hp hlinks

/-- A way without symbolic links is found wherever all of it is there. -/
theorem Arrives.of_way (h : t.Arrives cwd p l) (hway : ∀ k ∈ p.way cwd, u.get? k = t.get? k) :
    l = p.location cwd ∧ u.Arrives cwd p l := by
  obtain ⟨rfl, hshort, hpass⟩ := (walk_directory_iff hp hlinks).1 ⟨h.walk, h.directory⟩
  have hlinks' : u.Unlinked cwd p := fun k hk target => by
    rw [hway k hk]
    exact hlinks k hk target
  obtain ⟨hwalk, hdirectory⟩ := (@walk_directory_iff u maxLinks _ _ _ hp hlinks').2
    ⟨rfl, hshort, fun k hk => (hway k hk).trans (hpass k hk)⟩
  exact ⟨rfl, hwalk, hdirectory⟩

/-- Making directories makes no symbolic links. -/
theorem unlinked_made (htrailing : p.trailing = false) {answer : Except Fault Unit}
    (hmade : t.made cwd p = (answer, u)) (hlinks' : t.Unlinked cwd p') : u.Unlinked cwd p' := by
  obtain ⟨-, hmakes⟩ :=
    @Procedure.createDirectories_makesWay Unit .inert p ⟨cwd, t, ()⟩ hp htrailing hlinks
  have hgrows := hmakes.grows.unlinked hlinks'
  rwa [Procedure.run_createDirectories, hmade] at hgrows

end

/-- If no symbolic link stands on the way of an entry then that way is as needed. -/
theorem steady_of_unlinked (hq : q.Normal) (hdown : ".." ∉ q.names) (hname : name ≠ "..")
    (h : t.Unlinked cwd (q.child name)) : t.Steady cwd q name := by
  intro l harrives
  have hway (k : Location) (hk : k ∈ q.way cwd) :
      (t.prune (q.location cwd ++ [name]) (by simp)).get? k = t.get? k := by
    rw [get?_prune, if_neg (Path.not_below_of_mem_way hdown hk (by simp))]
  obtain ⟨rfl, hwithout⟩ := harrives.of_way hq h.of_child hway
  exact ⟨h _ ((Path.mem_way_child hname).2 (.inr rfl)), hwithout⟩

end Tree
end NfsProvisioner
