import NfsProvisioner.Proofs.Way

/-!
# Ways along symbolic links

A walk that finds its way in a tree finds the same way in every tree that holds the same entries and
perhaps more, also when symbolic links are followed on it. And a walk that ends in a directory goes
on along further pieces that need no links of their own. So once a path leads to a directory, what
its entries are operated on does not depend on how it leads there.
-/
namespace NfsProvisioner

/-- The host takes the path of an entry called `name` for an operation, once the directory that the
entry is in is found. -/
structure Path.Takes (q : Path) (name : String) : Prop where
  ne_up : name ≠ ".."
  short : name.utf8ByteSize ≤ Tree.maxNameBytes
  text : Tree.checkOperand (q.child name).text = .ok ()

theorem Path.Usable.takes {q : Path} {name : String} (h : (q.child name).Usable)
    (hname : name ≠ "..") : q.Takes name :=
  ⟨hname, (usable_child_iff.1 h).2.2, h.text⟩

namespace Tree

/-- Whatever stands in the first tree stands in the second one. -/
def Within (t t' : Tree) : Prop :=
  ∀ l e, t.get? l = some e → t'.get? l = some e

/-- A path leads to the directory at a location, whatever symbolic links it follows. -/
structure Arrives (t : Tree) (cwd : Location) (p : Path) (l : Location) : Prop where
  walk : t.walk .present maxLinks (p.start cwd) p.names = .ok l
  directory : t.get? l = some .directory

variable {t t' t'' : Tree} {cwd : Location} {p q : Path} {name : String} {l k k' : Location}

theorem Within.refl : t.Within t :=
  fun _ _ h => h

theorem Within.trans (h : t.Within t') (h' : t'.Within t'') : t.Within t'' :=
  fun l e hl => h' l e (h l e hl)

/-- Nothing stands below a location where nothing stands. -/
theorem not_below_of_free {e : Entry} (hfree : t.get? l = none) (hk : t.get? k = some e) :
    ¬ l <+: k := by
  rintro ⟨r, rfl⟩
  rw [get?_append_of_none hfree r] at hk
  cases hk

/-- A tree that differs only where the first one is empty. -/
theorem within_of_outside (hfree : t.get? l = none) (h : ∀ k, ¬ l <+: k → t'.get? k = t.get? k) :
    t.Within t' := by
  intro k e hk
  rw [h k (not_below_of_free hfree hk), hk]

/-- What the first piece of a walk that succeeds can be, and where it leads. -/
theorem walkWith_cons_ok_iff {follow : Location → List String → Except Fault Location}
    {piece : String} {rest : List String} :
    walkWith t .present follow l (piece :: rest) = .ok k ↔
      t.get? l = some .directory ∧
        ((piece = "" ∨ piece = ".") ∧ walkWith t .present follow l rest = .ok k ∨
          piece = ".." ∧ walkWith t .present follow l.dropLast rest = .ok k ∨
          (Path.isName piece = true ∧ piece ≠ ".." ∧ piece.utf8ByteSize ≤ maxNameBytes) ∧
            ((∃ target, t.get? (l ++ [piece]) = some (.link target) ∧
                follow (linkStart l target) (Text.splitText '/' target ++ rest) = .ok k) ∨
              (∃ e, t.get? (l ++ [piece]) = some e ∧ (∀ target, e ≠ .link target) ∧
                walkWith t .present follow (l ++ [piece]) rest = .ok k))) := by
  have hname : Path.isName piece = true ↔ ¬ (piece = "" ∨ piece = ".") := by
    simp [Path.isName]
  rw [walkWith, hname, ← Nat.not_lt]
  by_cases hl : t.get? l = some .directory
  · by_cases hdot : piece = "" ∨ piece = "."
    · have hup : piece ≠ ".." := by rcases hdot with rfl | rfl <;> decide
      simp [hl, hdot, hup]
    · by_cases hup : piece = ".."
      · simp [hl, hup]
      · by_cases hlong : maxNameBytes < piece.utf8ByteSize
        · simp [hl, hdot, hup, hlong]
        · rcases hthere : t.get? (l ++ [piece]) with _ | (_ | contents | target) <;>
            simp [hl, hdot, hup, hlong]
  · simp [hl]

/-- A walk in a larger tree that goes on where a walk in the smaller one ended. -/
theorem walkWith_extend {follow follow' : Location → List String → Except Fault Location}
    {pieces more : List String} (hwithin : t.Within t')
    (hfollow : ∀ l pieces, follow l pieces = .ok k → follow' l (pieces ++ more) = .ok k')
    (hend : walkWith t' .present follow' k more = .ok k')
    (h : walkWith t .present follow l pieces = .ok k) :
    walkWith t' .present follow' l (pieces ++ more) = .ok k' := by
  induction pieces generalizing l with
  | nil =>
    obtain rfl := Except.ok.inj h
    exact hend
  | cons piece rest ih =>
    obtain ⟨hl, hpiece⟩ := walkWith_cons_ok_iff.1 h
    rw [List.cons_append]
    refine walkWith_cons_ok_iff.2 ⟨hwithin _ _ hl, ?_⟩
    rcases hpiece with ⟨hdot, hrest⟩ | ⟨hup, hrest⟩ | ⟨hname, hentry⟩
    · exact .inl ⟨hdot, ih hrest⟩
    · exact .inr (.inl ⟨hup, ih hrest⟩)
    · refine .inr (.inr ⟨hname, ?_⟩)
      rcases hentry with ⟨target, hlink, hrest⟩ | ⟨e, hthere, hnotLink, hrest⟩
      · refine .inl ⟨target, hwithin _ _ hlink, ?_⟩
        rw [← List.append_assoc]
        exact hfollow _ _ hrest
      · exact .inr ⟨e, hwithin _ _ hthere, hnotLink, ih hrest⟩

/-- The same for walks that follow as many links. -/
theorem walk_extend {links : Nat} {pieces more : List String} (hwithin : t.Within t')
    (hend : ∀ follow, walkWith t' .present follow k more = .ok k')
    (h : t.walk .present links l pieces = .ok k) :
    t'.walk .present links l (pieces ++ more) = .ok k' := by
  induction links generalizing l pieces with
  | zero =>
    refine walkWith_extend hwithin (fun l pieces hl => ?_) (hend _) h
    cases hl
  | succ links ih => exact walkWith_extend hwithin (fun l pieces hl => ih hl) (hend _) h

/-- A walk that succeeds got as far as some piece of it first, and went on from there. -/
theorem walkWith_split {follow follow' : Location → List String → Except Fault Location}
    {pieces more : List String}
    (hfollow : ∀ l pieces, follow l (pieces ++ more) = .ok k →
      ∃ j onward, follow' l pieces = .ok j ∧ walkWith t .present onward j more = .ok k)
    (h : walkWith t .present follow l (pieces ++ more) = .ok k) :
    ∃ j onward, walkWith t .present follow' l pieces = .ok j ∧
      walkWith t .present onward j more = .ok k := by
  induction pieces generalizing l with
  | nil => exact ⟨l, follow, rfl, h⟩
  | cons piece rest ih =>
    rw [List.cons_append] at h
    obtain ⟨hl, hpiece⟩ := walkWith_cons_ok_iff.1 h
    rcases hpiece with ⟨hdot, hrest⟩ | ⟨hup, hrest⟩ | ⟨hname, ⟨target, hlink, hrest⟩ | hentry⟩
    · obtain ⟨j, onward, hj, hmore⟩ := ih hrest
      exact ⟨j, onward, walkWith_cons_ok_iff.2 ⟨hl, .inl ⟨hdot, hj⟩⟩, hmore⟩
    · obtain ⟨j, onward, hj, hmore⟩ := ih hrest
      exact ⟨j, onward, walkWith_cons_ok_iff.2 ⟨hl, .inr (.inl ⟨hup, hj⟩)⟩, hmore⟩
    · rw [← List.append_assoc] at hrest
      obtain ⟨j, onward, hj, hmore⟩ := hfollow _ _ hrest
      exact ⟨j, onward, walkWith_cons_ok_iff.2 ⟨hl, .inr (.inr ⟨hname,
        .inl ⟨target, hlink, hj⟩⟩)⟩, hmore⟩
    · obtain ⟨e, hthere, hnotLink, hrest⟩ := hentry
      obtain ⟨j, onward, hj, hmore⟩ := ih hrest
      exact ⟨j, onward, walkWith_cons_ok_iff.2 ⟨hl, .inr (.inr ⟨hname,
        .inr ⟨e, hthere, hnotLink, hj⟩⟩)⟩, hmore⟩

theorem walk_split {links : Nat} {pieces more : List String}
    (h : t.walk .present links l (pieces ++ more) = .ok k) :
    ∃ j onward, t.walk .present links l pieces = .ok j ∧
      walkWith t .present onward j more = .ok k := by
  induction links generalizing l pieces with
  | zero =>
    refine walkWith_split (fun l pieces hl => ?_) h
    cases hl
  | succ links ih => exact walkWith_split (fun l pieces hl => ih hl) h

theorem takes_of_slot (hname : name ≠ "..") {s : Slot t} (h : t.slot cwd (q.child name) = .ok s) :
    q.Takes name := by
  rw [slot_child] at h
  cases htext : checkOperand (q.child name).text with
  | error fault =>
    rw [htext] at h
    cases h
  | ok =>
    rw [htext] at h
    simp only [bind, Except.bind, if_neg hname] at h
    split at h
    · cases h
    split at h
    · split at h
      · cases h
      · next hshort => exact ⟨hname, Nat.not_lt.1 hshort, htext⟩
    · cases h

theorem arrives_of_resolve (h : t.resolve cwd p = .ok l) (hdirectory : t.get? l = some .directory) :
    t.Arrives cwd p l := by
  unfold resolve at h
  cases htext : checkOperand p.text with
  | error fault =>
    rw [htext] at h
    cases h
  | ok =>
    rw [htext] at h
    have hwalk : t.walk .present maxLinks (p.start cwd) p.pieces = .ok l := h
    refine ⟨?_, hdirectory⟩
    obtain ⟨j, onward, hj, hend⟩ := walk_split hwalk
    obtain rfl : j = l := by
      split at hend
      · -- An empty piece at the end asks for a directory and leads nowhere else.
        obtain ⟨-, ⟨-, hend⟩ | ⟨hup, -⟩ | ⟨⟨hname, -⟩, -⟩⟩ := walkWith_cons_ok_iff.1 hend
        · exact Except.ok.inj hend
        · exact absurd hup (by decide)
        · exact absurd hname (by decide)
      · exact Except.ok.inj hend
    exact hj

theorem arrives_of_isDirectory (h : t.isDirectory cwd p = true) : ∃ l, t.Arrives cwd p l := by
  unfold isDirectory at h
  split at h
  · next l hresolve => exact ⟨l, arrives_of_resolve hresolve (beq_iff_eq.1 h)⟩
  · cases h

/-- An entry is operated on only where a path leads to its directory. -/
theorem arrives_of_slot {s : Slot t} (h : t.slot cwd (q.child name) = .ok s) :
    checkOperand (q.child name).text = .ok () ∧ ∃ l, t.Arrives cwd q l := by
  rw [slot_child] at h
  cases htext : checkOperand (q.child name).text with
  | error fault =>
    rw [htext] at h
    cases h
  | ok =>
    cases hwalk : t.walk .present maxLinks (q.start cwd) q.names with
    | error fault =>
      rw [htext, hwalk] at h
      cases h
    | ok l =>
      rw [htext, hwalk] at h
      simp only [bind, Except.bind] at h
      split at h
      · next hdirectory => exact ⟨rfl, l, hwalk, hdirectory⟩
      · cases h

/-- A way without links leads where its names say. -/
theorem Passable.arrives (hq : q.Normal) (husable : (q.child name).Usable)
    (h : t.Passable cwd q) : t.Arrives cwd q (q.location cwd) := by
  obtain ⟨-, hshort, -⟩ := Path.usable_child_iff.1 husable
  exact ⟨((walk_directory_iff hq h.unlinked).2 ⟨rfl, hshort, h⟩).1, h _ Path.location_mem_way⟩

namespace Arrives

theorem unique (h : t.Arrives cwd p l) (h' : t.Arrives cwd p k) : l = k :=
  Except.ok.inj (h.walk.symm.trans h'.walk)

theorem mono (h : t.Arrives cwd q l) (hwithin : t.Within t') : t'.Arrives cwd q l := by
  refine ⟨?_, hwithin _ _ h.directory⟩
  rw [← List.append_nil q.names]
  exact walk_extend hwithin (fun _ => rfl) h.walk

/-- Further down to an entry of the directory that is a directory, too. -/
theorem child (h : t.Arrives cwd q l) (hname : Path.isName name = true) (htakes : q.Takes name)
    (hthere : t.get? (l ++ [name]) = some .directory) :
    t.Arrives cwd (q.child name) (l ++ [name]) := by
  refine ⟨walk_extend Within.refl (fun follow => ?_) h.walk, hthere⟩
  have hnotLink : ∀ target, Entry.directory ≠ .link target := fun target heq => by
    cases heq
  exact walkWith_cons_ok_iff.2 ⟨h.directory, .inr (.inr ⟨⟨hname, htakes.ne_up, htakes.short⟩,
    .inr ⟨.directory, hthere, hnotLink, rfl⟩⟩)⟩

/-- The directory that a path leads to is where its entries are operated on. -/
theorem slot (h : t.Arrives cwd q l) (htakes : q.Takes name) :
    t.slot cwd (q.child name) = .ok (.entry l h.directory name) := by
  rw [slot_child, htakes.text, h.walk]
  simp only [bind, Except.bind, dif_pos h.directory, if_neg htakes.ne_up,
    if_neg (Nat.not_lt.2 htakes.short)]
  rfl

theorem slot_up (h : t.Arrives cwd q l) (htext : checkOperand (q.child "..").text = .ok ()) :
    t.slot cwd (q.child "..") = .ok (.ancestor l.dropLast) := by
  rw [slot_child, htext, h.walk]
  simp only [bind, Except.bind, dif_pos h.directory]
  rfl

theorem isDirectory (h : t.Arrives cwd p l) (htext : checkOperand p.text = .ok ())
    (htrailing : p.trailing = false) : t.isDirectory cwd p = true := by
  have hpieces : p.pieces = p.names := by
    rw [Path.pieces, htrailing]
    exact List.append_nil _
  have hresolve : t.resolve cwd p = .ok l := by
    rw [resolve, htext, hpieces]
    exact h.walk
  rw [Tree.isDirectory, hresolve]
  exact beq_iff_eq.2 h.directory

end Arrives
end Tree
end NfsProvisioner
