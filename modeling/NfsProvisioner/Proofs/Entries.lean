import NfsProvisioner.Proofs.Arrival

/-!
# Operations on entries of a directory

What an operation on an entry of a directory does: when it succeeds, and what stands at each
location afterwards. To tell what it does it is enough that the path of the directory leads there.
To tell what must have been the case when it succeeds, no symbolic link may stand on the way.
-/
namespace NfsProvisioner.Tree

variable {t t' : Tree} {cwd l : Location} {q q' : Path} {name name' : String}

/-- Two trees differ at one location at most, where the second one holds what is given. -/
def Put (t t' : Tree) (l : Location) (e : Option Entry) : Prop :=
  ∀ k, t'.get? k = if k = l then e else t.get? k

/-- The second tree is the first one without a location and everything below it. -/
def Pruned (t t' : Tree) (l : Location) : Prop :=
  ∀ k, t'.get? k = if l <+: k then none else t.get? k

/-- The second tree is the first one with everything at and below a location moved. -/
structure Moved (t t' : Tree) (source target : Location) : Prop where
  at_target : ∀ r, t'.get? (target ++ r) = t.get? (source ++ r)
  at_source : ∀ k, source <+: k → ¬ target <+: k → t'.get? k = none
  elsewhere : ∀ k, ¬ source <+: k → ¬ target <+: k → t'.get? k = t.get? k

theorem Put.outside {e : Option Entry} (h : t.Put t' l e) {k : Location} (hk : ¬ l <+: k) :
    t'.get? k = t.get? k := by
  rw [h, if_neg]
  rintro rfl
  exact hk (List.prefix_refl _)

theorem create_child_ok {e : Entry} (hq : q.Normal) (hway : t.Unlinked cwd q)
    (h : t.create cwd (q.child name) e = .ok t') :
    name ≠ ".." ∧ (q.child name).Usable ∧ t.Passable cwd q ∧
      t.get? (q.location cwd ++ [name]) = none ∧ t.Put t' (q.location cwd ++ [name]) (some e) := by
  unfold create at h
  cases hslot : t.slot cwd (q.child name) with
  | error fault =>
    rw [hslot] at h
    cases h
  | ok s =>
    obtain ⟨husable, hpass, rfl⟩ := slot_child_inv hq hway hslot
    rw [hslot] at h
    by_cases hup : name = ".."
    · rw [if_pos hup] at h
      cases h
    · rw [if_neg hup] at h
      change (if free : _ then _ else _) = _ at h
      split at h
      · next hfree =>
        obtain rfl := Except.ok.inj h
        exact ⟨hup, husable, hpass, hfree, fun k => get?_add k⟩
      · cases h

theorem Arrives.create_of_free (h : t.Arrives cwd q l) (htakes : q.Takes name) (e : Entry)
    (hfree : t.get? (l ++ [name]) = none) :
    ∃ t', t.create cwd (q.child name) e = .ok t' ∧ t.Put t' (l ++ [name]) (some e) := by
  refine ⟨t.add l name e h.directory hfree, ?_, fun k => get?_add k⟩
  rw [create, h.slot htakes]
  exact dif_pos hfree

theorem Arrives.create_of_taken (h : t.Arrives cwd q l) (htakes : q.Takes name) (e : Entry)
    (htaken : t.get? (l ++ [name]) ≠ none) :
    t.create cwd (q.child name) e = .error .alreadyExists := by
  rw [create, h.slot htakes]
  exact dif_neg htaken

/-- An entry is made only where a path leads to its directory and nothing else stands. -/
theorem create_child_inv {e : Entry} (h : t.create cwd (q.child name) e = .ok t') :
    ∃ l, t.Arrives cwd q l ∧ q.Takes name ∧ t.get? (l ++ [name]) = none ∧
      t.Put t' (l ++ [name]) (some e) := by
  cases hslot : t.slot cwd (q.child name) with
  | error fault =>
    rw [create, hslot] at h
    cases h
  | ok s =>
    obtain ⟨htext, l, harrives⟩ := arrives_of_slot hslot
    have hup : name ≠ ".." := by
      rintro rfl
      rw [create, harrives.slot_up htext] at h
      cases h
    have htakes := takes_of_slot hup hslot
    refine ⟨l, harrives, htakes, ?_⟩
    cases hfree : t.get? (l ++ [name]) with
    | none =>
      obtain ⟨made, hmade, hput⟩ := harrives.create_of_free htakes e hfree
      obtain rfl := Except.ok.inj (hmade.symm.trans h)
      exact ⟨rfl, hput⟩
    | some other =>
      rw [harrives.create_of_taken htakes e (by rw [hfree]; exact Option.some_ne_none _)] at h
      cases h

theorem create_child_of_free (e : Entry) (hq : q.Normal) (hname : name ≠ "..")
    (husable : (q.child name).Usable) (hpass : t.Passable cwd q)
    (hfree : t.get? (q.location cwd ++ [name]) = none) :
    ∃ t', t.create cwd (q.child name) e = .ok t' ∧
      t.Put t' (q.location cwd ++ [name]) (some e) :=
  (hpass.arrives hq husable).create_of_free (husable.takes hname) e hfree

theorem create_child_of_taken (e : Entry) (hq : q.Normal) (hname : name ≠ "..")
    (husable : (q.child name).Usable) (hpass : t.Passable cwd q)
    (htaken : t.get? (q.location cwd ++ [name]) ≠ none) :
    t.create cwd (q.child name) e = .error .alreadyExists :=
  (hpass.arrives hq husable).create_of_taken (husable.takes hname) e htaken

theorem create_child_missing {p : Path} (e : Entry) (hp : p.Normal) (hclear : t.Clear cwd p)
    (hshort : ∀ m ∈ p.names, m.utf8ByteSize ≤ maxNameBytes) (hanchor : p.anchor = q.anchor)
    (hnames : p.names <+: q.names) (htext : checkOperand (q.child name).text = .ok ())
    (hstart : t.get? (p.start cwd) = some .directory) (hmissing : ¬ t.Passable cwd p) :
    t.create cwd (q.child name) e = .error .notFound := by
  rw [create, slot_child_missing hp hclear hshort hanchor hnames htext hstart hmissing]
  rfl

/-- A path without names leads to a directory that is there already. -/
theorem create_nameless (t : Tree) (cwd : Location) (anchor : Anchor) (trailing : Bool) (e : Entry)
    (t' : Tree) : t.create cwd ⟨anchor, [], trailing⟩ e ≠ .ok t' := by
  intro h
  unfold create slot at h
  simp only [bind, Except.bind, List.dropLast_nil, List.getLast?_nil] at h
  split at h
  · cases h
  · next s hs =>
    split at hs
    · cases hs
    split at hs
    · cases hs
    split at hs
    · cases hs
      cases h
    · cases hs

theorem removeDirectory_child_ok (hq : q.Normal) (hway : t.Unlinked cwd q)
    (h : t.removeDirectory cwd (q.child name) = .ok t') :
    name ≠ ".." ∧ (q.child name).Usable ∧ t.Passable cwd q ∧
      t.get? (q.location cwd ++ [name]) = some .directory ∧
      (∀ r, r ≠ [] → t.get? (q.location cwd ++ [name] ++ r) = none) ∧
      t.Put t' (q.location cwd ++ [name]) none := by
  unfold removeDirectory at h
  cases hslot : t.slot cwd (q.child name) with
  | error fault =>
    rw [hslot] at h
    cases h
  | ok s =>
    obtain ⟨husable, hpass, rfl⟩ := slot_child_inv hq hway hslot
    rw [hslot] at h
    by_cases hup : name = ".."
    · rw [if_pos hup] at h
      cases h
    · rw [if_neg hup] at h
      simp only [bind, Except.bind] at h
      split at h
      · cases h
      · next hdirectory =>
        split at h
        · next hbare =>
          obtain rfl := Except.ok.inj h
          rw [isBare_iff] at hbare
          refine ⟨hup, husable, hpass, hdirectory, hbare, fun k => ?_⟩
          rw [get?_prune]
          by_cases hk : q.location cwd ++ [name] <+: k
          · obtain ⟨r, rfl⟩ := hk
            rw [if_pos (List.prefix_append _ r)]
            by_cases hr : r = []
            · rw [hr, List.append_nil, if_pos rfl]
            · rw [hbare r hr]
              split <;> rfl
          · rw [if_neg hk, if_neg]
            rintro rfl
            exact hk (List.prefix_refl _)
        · cases h
      · cases h

theorem Arrives.removeDirectory_of_bare (h : t.Arrives cwd q l) (htakes : q.Takes name)
    (hdirectory : t.get? (l ++ [name]) = some .directory)
    (hbare : ∀ r, r ≠ [] → t.get? (l ++ [name] ++ r) = none) :
    ∃ t', t.removeDirectory cwd (q.child name) = .ok t' ∧ t.Pruned t' (l ++ [name]) := by
  refine ⟨t.prune (l ++ [name]) (Location.child_ne_root l name), ?_, fun k => get?_prune k⟩
  rw [removeDirectory, h.slot htakes]
  simp only [bind, Except.bind]
  rw [hdirectory]
  exact if_pos (isBare_iff.2 hbare)

theorem Arrives.removeDirectory_of_full (h : t.Arrives cwd q l) (htakes : q.Takes name)
    (hdirectory : t.get? (l ++ [name]) = some .directory) {r : Location} (hr : r ≠ [])
    (hfull : t.get? (l ++ [name] ++ r) ≠ none) :
    t.removeDirectory cwd (q.child name) = .error .notEmpty := by
  rw [removeDirectory, h.slot htakes]
  simp only [bind, Except.bind]
  rw [hdirectory]
  exact if_neg fun hbare => hfull (isBare_iff.1 hbare r hr)

theorem removeDirectory_child_of_bare (hq : q.Normal) (hname : name ≠ "..")
    (husable : (q.child name).Usable) (hpass : t.Passable cwd (q.child name))
    (hbare : ∀ r, r ≠ [] → t.get? (q.location cwd ++ [name] ++ r) = none) :
    ∃ t', t.removeDirectory cwd (q.child name) = .ok t' ∧
      t.Pruned t' (q.location cwd ++ [name]) := by
  obtain ⟨hpassAbove, hdirectory⟩ := (passable_child_iff hname).1 hpass
  exact (hpassAbove.arrives hq husable).removeDirectory_of_bare (husable.takes hname) hdirectory
    hbare

/-- A directory is removed with everything in it if its path still leads to it by then. -/
theorem Arrives.removeAll_of_directory (h : t.Arrives cwd q l) (htakes : q.Takes name)
    (hdirectory : t.get? (l ++ [name]) = some .directory)
    (hstays : (t.clear (l ++ [name])).Arrives cwd q l) :
    ∃ t', t.removeAll cwd (q.child name) = .ok t' ∧ t.Pruned t' (l ++ [name]) := by
  have hself : (t.clear (l ++ [name])).get? (l ++ [name]) = some .directory := by
    rw [get?_clear, if_neg fun h => h.2 rfl]
    exact hdirectory
  have hbare : ∀ r, r ≠ [] → (t.clear (l ++ [name])).get? (l ++ [name] ++ r) = none := by
    intro r hr
    rw [get?_clear, if_pos]
    refine ⟨List.prefix_append _ r, fun heq => hr ?_⟩
    exact List.append_right_eq_self.1 heq
  obtain ⟨t', ht', hpruned⟩ := hstays.removeDirectory_of_bare htakes hself hbare
  refine ⟨t', ?_, fun k => ?_⟩
  · rw [removeAll, h.slot htakes]
    simp only [bind, Except.bind]
    rw [hdirectory]
    simp only [sweep, ht']
  · rw [hpruned k, get?_clear]
    by_cases hbelow : l ++ [name] <+: k
    · rw [if_pos hbelow, if_pos hbelow]
    · rw [if_neg hbelow, if_neg fun h => hbelow h.1, if_neg hbelow]

/-- So is one that the way to it does not lead through. -/
theorem removeAll_child_of_directory (hq : q.Normal) (hname : name ≠ "..")
    (husable : (q.child name).Usable) (hpass : t.Passable cwd q)
    (hdirectory : t.get? (q.location cwd ++ [name]) = some .directory)
    (hway : ∀ l ∈ q.way cwd, ¬ q.location cwd ++ [name] <+: l) :
    ∃ t', t.removeAll cwd (q.child name) = .ok t' ∧ t.Pruned t' (q.location cwd ++ [name]) := by
  have hpass' : (t.clear (q.location cwd ++ [name])).Passable cwd q := by
    intro l hl
    rw [get?_clear, if_neg fun h => hway l hl h.1]
    exact hpass l hl
  exact (hpass.arrives hq husable).removeAll_of_directory (husable.takes hname) hdirectory
    (hpass'.arrives hq husable)

theorem Arrives.removeAll_of_missing (h : t.Arrives cwd q l) (htakes : q.Takes name)
    (hmissing : t.get? (l ++ [name]) = none) :
    t.removeAll cwd (q.child name) = .error .notFound := by
  rw [removeAll, h.slot htakes]
  simp only [bind, Except.bind]
  rw [hmissing]
  rfl

/-- A symbolic link is removed itself. -/
theorem Arrives.removeAll_of_link (h : t.Arrives cwd q l) (htakes : q.Takes name) {target : String}
    (hlink : t.get? (l ++ [name]) = some (.link target)) :
    ∃ t', t.removeAll cwd (q.child name) = .ok t' ∧ t.Pruned t' (l ++ [name]) := by
  refine ⟨t.prune (l ++ [name]) (Location.child_ne_root l name), ?_, fun k => get?_prune k⟩
  rw [removeAll, h.slot htakes]
  simp only [bind, Except.bind]
  rw [hlink]
  rfl

theorem Arrives.removeAll_of_file (h : t.Arrives cwd q l) (htakes : q.Takes name)
    {contents : String} (hfile : t.get? (l ++ [name]) = some (.file contents)) :
    t.removeAll cwd (q.child name) = .error .notDirectory := by
  rw [removeAll, h.slot htakes]
  simp only [bind, Except.bind]
  rw [hfile]
  rfl

/-- Where the way to it does not lead through an entry, it is removed with everything below it or
not at all. -/
theorem Arrives.removeAll_inv (h : t.Arrives cwd q l) (hname : name ≠ "..")
    (hstays : (t.clear (l ++ [name])).Arrives cwd q l)
    (hremoved : t.removeAll cwd (q.child name) = .ok t') :
    q.Takes name ∧ t.Pruned t' (l ++ [name]) := by
  cases hslot : t.slot cwd (q.child name) with
  | error fault =>
    rw [removeAll, hslot] at hremoved
    cases hremoved
  | ok s =>
    have htakes := takes_of_slot hname hslot
    refine ⟨htakes, ?_⟩
    cases hentry : t.get? (l ++ [name]) with
    | none =>
      rw [h.removeAll_of_missing htakes hentry] at hremoved
      cases hremoved
    | some e =>
      cases e with
      | directory =>
        obtain ⟨left, hleft, hpruned⟩ := h.removeAll_of_directory htakes hentry hstays
        obtain rfl := Except.ok.inj (hleft.symm.trans hremoved)
        exact hpruned
      | file contents =>
        rw [h.removeAll_of_file htakes hentry] at hremoved
        cases hremoved
      | link target =>
        obtain ⟨left, hleft, hpruned⟩ := h.removeAll_of_link htakes hentry
        obtain rfl := Except.ok.inj (hleft.symm.trans hremoved)
        exact hpruned

theorem removeAll_child_of_missing (hq : q.Normal) (hname : name ≠ "..")
    (husable : (q.child name).Usable) (hpass : t.Passable cwd q)
    (hmissing : t.get? (q.location cwd ++ [name]) = none) :
    t.removeAll cwd (q.child name) = .error .notFound :=
  (hpass.arrives hq husable).removeAll_of_missing (husable.takes hname) hmissing

theorem removeAll_child_usable (hq : q.Normal) (hway : t.Unlinked cwd q)
    (h : t.removeAll cwd (q.child name) = .ok t') : (q.child name).Usable := by
  unfold removeAll at h
  cases hslot : t.slot cwd (q.child name) with
  | error fault =>
    rw [hslot] at h
    cases h
  | ok s => exact (slot_child_inv hq hway hslot).1

/-- Whatever is removed by a path, nothing but what it leads to is changed. -/
theorem removeAll_child_outside (hq : q.Normal) (hname : name ≠ "..") (hway : t.Unlinked cwd q)
    (h : t.removeAll cwd (q.child name) = .ok t') {k : Location}
    (hk : ¬ q.location cwd ++ [name] <+: k) : t'.get? k = t.get? k := by
  have hclear : (t.clear (q.location cwd ++ [name])).get? k = t.get? k := by
    rw [get?_clear, if_neg fun hin => hk hin.1]
  unfold removeAll at h
  cases hslot : t.slot cwd (q.child name) with
  | error fault =>
    rw [hslot] at h
    cases h
  | ok s =>
    obtain ⟨_, _, rfl⟩ := slot_child_inv hq hway hslot
    rw [hslot, if_neg hname] at h
    simp only [bind, Except.bind] at h
    split at h
    · cases h
    · cases h
    · obtain rfl := Except.ok.inj h
      rw [get?_prune, if_neg hk]
    · unfold sweep at h
      split at h
      · obtain rfl := Except.ok.inj h
        exact hclear
      · have hlinks : (t.clear (q.location cwd ++ [name])).Unlinked cwd q := by
          intro l hl target heq
          rw [get?_clear] at heq
          split at heq
          · cases heq
          · exact hway l hl target heq
        have hput := (removeDirectory_child_ok hq hlinks h).2.2.2.2.2
        rw [hput.outside hk, hclear]

/-- Moving onto a free location. -/
theorem moved_replace {source l : Location} {directory : t.get? l = some .directory}
    {apart : ¬ source <+: l ++ [name]} (hfree : t.get? (l ++ [name]) = none) :
    t.Moved (t.replace source l name directory apart) source (l ++ [name]) := by
  have hbelow : ∀ r, t.get? (l ++ [name] ++ r) = none := get?_append_of_none hfree
  have hget : ∀ k e, (t.replace source l name directory apart).get? k = some e ↔
      ∃ j, t.get? j = some e ∧ rebase source (l ++ [name]) j = k := by
    intro k e
    rw [replace, get?_move]
    constructor
    · rintro ⟨j, hj, hk⟩
      rw [get?_prune] at hj
      split at hj
      · cases hj
      · exact ⟨j, hj, hk⟩
    · rintro ⟨j, hj, hk⟩
      refine ⟨j, ?_, hk⟩
      rw [get?_prune, if_neg]
      · exact hj
      · rintro ⟨r, rfl⟩
        rw [hbelow r] at hj
        cases hj
  refine ⟨fun r => ?_, fun k hs ht => ?_, fun k hs ht => ?_⟩
  · apply Option.ext
    intro e
    rw [hget]
    constructor
    · rintro ⟨j, hj, hk⟩
      by_cases hsource : source <+: j
      · obtain ⟨s, rfl⟩ := hsource
        rw [rebase_append] at hk
        rwa [List.append_cancel_left hk] at hj
      · rw [rebase_of_not_below hsource] at hk
        rw [hk, hbelow r] at hj
        cases hj
    · intro h
      exact ⟨source ++ r, h, rebase_append _ _ _⟩
  · apply Option.eq_none_iff_forall_ne_some.2
    intro e he
    obtain ⟨j, -, hk⟩ := (hget k e).1 he
    by_cases hsource : source <+: j
    · obtain ⟨s, rfl⟩ := hsource
      rw [rebase_append] at hk
      exact ht (hk ▸ List.prefix_append _ _)
    · rw [rebase_of_not_below hsource] at hk
      exact hsource (hk ▸ hs)
  · apply Option.ext
    intro e
    rw [hget]
    constructor
    · rintro ⟨j, hj, hk⟩
      by_cases hsource : source <+: j
      · obtain ⟨s, rfl⟩ := hsource
        rw [rebase_append] at hk
        exact absurd (hk ▸ List.prefix_append _ _) ht
      · rw [rebase_of_not_below hsource] at hk
        rwa [← hk]
    · intro h
      exact ⟨k, h, rebase_of_not_below hs _⟩

theorem rename_child_ok (hq : q.Normal) (hq' : q'.Normal) (hway : t.Unlinked cwd q)
    (hway' : t.Unlinked cwd q') (hfree : t.get? (q'.location cwd ++ [name']) = none)
    (h : t.rename cwd (q.child name) (q'.child name') = .ok t') :
    (q.child name).Usable ∧ (q'.child name').Usable ∧ t.Passable cwd q ∧ t.Passable cwd q' ∧
      t.Moved t' (q.location cwd ++ [name]) (q'.location cwd ++ [name']) := by
  unfold rename at h
  cases hslot : t.slot cwd (q.child name) with
  | error fault =>
    rw [hslot] at h
    cases h
  | ok s =>
    cases hslot' : t.slot cwd (q'.child name') with
    | error fault =>
      rw [hslot, hslot'] at h
      cases h
    | ok s' =>
      obtain ⟨husable, hpass, rfl⟩ := slot_child_inv hq hway hslot
      obtain ⟨husable', hpass', rfl⟩ := slot_child_inv hq' hway' hslot'
      rw [hslot, hslot'] at h
      simp only [bind, Except.bind] at h
      split at h
      · next hholder hl =>
        split at hholder
        · cases hholder
        split at hl
        · cases hl
        cases hholder
        cases hl
        split at h
        · cases h
        · next e he =>
          split at h
          · next heq =>
            rw [heq, hfree] at he
            cases he
          split at h
          · cases h
          rw [checkReplaceable, hfree] at h
          obtain rfl := Except.ok.inj h
          exact ⟨husable, husable', hpass, hpass', moved_replace hfree⟩
      · cases h

/-- Moving an entry onto a free location, where paths lead to both directories. -/
theorem Arrives.rename_of_free {l' : Location} (h : t.Arrives cwd q l) (h' : t.Arrives cwd q' l')
    (htakes : q.Takes name) (htakes' : q'.Takes name') (hthere : t.get? (l ++ [name]) ≠ none)
    (hfree : t.get? (l' ++ [name']) = none) (hapart : ¬ l ++ [name] <+: l' ++ [name']) :
    ∃ t', t.rename cwd (q.child name) (q'.child name') = .ok t' ∧
      t.Moved t' (l ++ [name]) (l' ++ [name']) := by
  obtain ⟨e, he⟩ := Option.ne_none_iff_exists'.1 hthere
  have hne : l ++ [name] ≠ l' ++ [name'] := fun heq => hapart (heq ▸ List.prefix_refl _)
  refine ⟨t.replace (l ++ [name]) l' name' h'.directory hapart, ?_, moved_replace hfree⟩
  rw [rename, h.slot htakes, h'.slot htakes']
  simp only [bind, Except.bind]
  rw [he]
  simp only [if_neg hne, dif_neg hapart, checkReplaceable, hfree]
  rfl

theorem rename_child_of_free (hq : q.Normal) (hq' : q'.Normal) (hname : name ≠ "..")
    (hname' : name' ≠ "..") (husable : (q.child name).Usable) (husable' : (q'.child name').Usable)
    (hpass : t.Passable cwd q) (hpass' : t.Passable cwd q')
    (hthere : t.get? (q.location cwd ++ [name]) ≠ none)
    (hfree : t.get? (q'.location cwd ++ [name']) = none)
    (hapart : ¬ q.location cwd ++ [name] <+: q'.location cwd ++ [name']) :
    ∃ t', t.rename cwd (q.child name) (q'.child name') = .ok t' := by
  obtain ⟨t', hmoved, -⟩ := (hpass.arrives hq husable).rename_of_free
    (hpass'.arrives hq' husable') (husable.takes hname) (husable'.takes hname') hthere hfree hapart
  exact ⟨t', hmoved⟩

end NfsProvisioner.Tree
