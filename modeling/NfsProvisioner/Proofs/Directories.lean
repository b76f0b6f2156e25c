import NfsProvisioner.Proofs.Entries
import NfsProvisioner.Proofs.Requests

/-!
# Making a directory and those above it

On a way without symbolic links, directories that are missing are made, each at a location of the
way, and nothing else changes. If the way is open and the path usable then all of the way is there
afterwards. What is removed by its path is an empty directory
(`Host.losesEmpty_of_removeDirectory`).
-/
namespace NfsProvisioner

namespace Tree

/-- At a location the second tree holds the same as the first one, or a directory where nothing
was. -/
def GrownAt (t t' : Tree) (l : Location) : Prop :=
  t'.get? l = t.get? l ∨ t.get? l = none ∧ t'.get? l = some .directory

/-- The second tree is the first one with some missing directories made at given locations. -/
def Grows (t t' : Tree) (places : List Location) : Prop :=
  ∀ l, t'.get? l = t.get? l ∨ l ∈ places ∧ t.get? l = none ∧ t'.get? l = some .directory

variable {t t' t'' : Tree} {places more : List Location} {cwd l : Location} {p : Path}

theorem GrownAt.open_iff (h : t.GrownAt t' l) : t'.Open l ↔ t.Open l := by
  rcases h with heq | ⟨hnone, hthere⟩
  · rw [Open, Open, heq]
  · exact ⟨fun _ => .inl hnone, fun _ => .inr hthere⟩

theorem GrownAt.linkless (h : t.GrownAt t' l) (hl : t.Linkless l) : t'.Linkless l := by
  rcases h with heq | ⟨-, hthere⟩
  · intro target
    rw [heq]
    exact hl target
  · exact Open.linkless (.inr hthere)

theorem GrownAt.directory (h : t.GrownAt t' l) (hl : t.get? l = some .directory) :
    t'.get? l = some .directory := by
  rcases h with heq | ⟨-, hthere⟩
  · rw [heq, hl]
  · exact hthere

theorem GrownAt.missing (h : t.GrownAt t' l) (hl : t'.get? l = none) : t.get? l = none := by
  rcases h with heq | ⟨hnone, -⟩
  · rw [← heq, hl]
  · exact hnone

theorem Grows.refl : t.Grows t places :=
  fun _ => .inl rfl

theorem Grows.grownAt (h : t.Grows t' places) (l : Location) : t.GrownAt t' l :=
  (h l).imp_right And.right

theorem Grows.mono (h : t.Grows t' places) (hsub : places ⊆ more) : t.Grows t' more := by
  intro l
  rcases h l with heq | ⟨hl, hnone, hthere⟩
  · exact .inl heq
  · exact .inr ⟨hsub hl, hnone, hthere⟩

theorem Grows.trans (h : t.Grows t' places) (h' : t'.Grows t'' places) : t.Grows t'' places := by
  intro l
  rcases h' l with heq' | ⟨hl, hnone', hthere'⟩
  · rw [heq']
    exact h l
  · exact .inr ⟨hl, (h.grownAt l).missing hnone', hthere'⟩

theorem Grows.of_put {l : Location} (hfree : t.get? l = none) (hl : l ∈ places)
    (h : t.Put t' l (some .directory)) : t.Grows t' places := by
  intro k
  by_cases hk : k = l
  · subst hk
    exact .inr ⟨hl, hfree, (h k).trans (if_pos rfl)⟩
  · exact .inl ((h k).trans (if_neg hk))

theorem Grows.outside (h : t.Grows t' places) {l : Location} (hl : l ∉ places) :
    t'.get? l = t.get? l := by
  rcases h l with heq | ⟨hmem, -, -⟩
  · exact heq
  · exact absurd hmem hl

theorem Grows.clear (h : t.Grows t' places) (hp : t.Clear cwd p) : t'.Clear cwd p :=
  fun l hl => (h.grownAt l).open_iff.2 (hp l hl)

theorem Grows.unlinked (h : t.Grows t' places) (hp : t.Unlinked cwd p) : t'.Unlinked cwd p :=
  fun l hl => (h.grownAt l).linkless (hp l hl)

theorem Grows.passable (h : t.Grows t' places) (hp : t.Passable cwd p) : t'.Passable cwd p :=
  fun l hl => (h.grownAt l).directory (hp l hl)

/-- Which texts of paths the host takes for an operation. -/
theorem checkOperand_iff {text : String} :
    checkOperand text = .ok () ↔
      '\x00' ∉ text.toList ∧ text ≠ "" ∧ text.utf8ByteSize < maxPathBytes := by
  unfold checkOperand checkText
  by_cases hnul : '\x00' ∈ text.toList
  · rw [if_pos hnul]
    constructor
    · intro h
      cases h
    · intro h
      exact absurd hnul h.1
  · rw [if_neg hnul]
    by_cases hempty : text = ""
    · rw [if_pos hempty]
      constructor
      · intro h
        cases h
      · intro h
        exact absurd hempty h.2.1
    · rw [if_neg hempty]
      by_cases hlong : maxPathBytes ≤ text.utf8ByteSize
      · simp only [bind, Except.bind, if_pos hlong]
        constructor
        · intro h
          cases h
        · intro h
          exact absurd h.2.2 (Nat.not_lt.2 hlong)
      · simp only [bind, Except.bind, if_neg hlong]
        exact ⟨fun _ => ⟨hnul, hempty, Nat.lt_of_not_le hlong⟩, fun _ => rfl⟩

theorem eq_empty_of_checkOperand {text : String} (h : checkOperand text = .error .notFound) :
    text = "" := by
  unfold checkOperand checkText at h
  split at h
  · cases h
  · by_cases hempty : text = ""
    · exact hempty
    · rw [if_neg hempty] at h
      simp only [bind, Except.bind] at h
      split at h <;> cases h

end Tree

namespace Path

variable {q : Path} {name : String}

/-- The text of a path is the start of that of an entry of its directory. -/
theorem text_child (htrailing : q.trailing = false) :
    ∃ rest, (q.child name).text = q.text ++ rest := by
  have htext : q.text = q.anchor.text ++ "/".intercalate q.names := by
    simp [text, htrailing]
  have hchild : (q.child name).text = q.anchor.text ++ "/".intercalate (q.names ++ [name]) := by
    simp [text, child]
  rw [htext, hchild]
  by_cases hnames : q.names = []
  · rw [hnames]
    exact ⟨name, by simp⟩
  · rw [String.intercalate_append_of_ne_nil hnames (by simp)]
    exact ⟨"/" ++ "/".intercalate [name], by simp [String.append_assoc]⟩

theorem text_child_ne_empty (hname : name ≠ "") : (q.child name).text ≠ "" := by
  intro hempty
  apply hname
  have hsize := congrArg String.utf8ByteSize hempty
  have hle : name.utf8ByteSize ≤ ("/".intercalate (q.names ++ [name])).utf8ByteSize := by
    by_cases hnames : q.names = []
    · simp [hnames]
    · rw [String.intercalate_append_of_ne_nil hnames (by simp)]
      simp [String.utf8ByteSize_append]
  simp only [text, child, String.utf8ByteSize_append] at hsize
  have hzero : "".utf8ByteSize = 0 := rfl
  exact String.utf8ByteSize_eq_zero_iff.1 (by omega)

/-- The text of a directory is taken wherever that of an entry is. -/
theorem checkOperand_of_child (h : Tree.checkOperand (q.child name).text = .ok ())
    (htrailing : q.trailing = false) (hne : q.text ≠ "") : Tree.checkOperand q.text = .ok () := by
  obtain ⟨rest, hrest⟩ := @text_child _ name htrailing
  obtain ⟨hnul, -, hlong⟩ := Tree.checkOperand_iff.1 h
  rw [hrest] at hnul hlong
  rw [String.utf8ByteSize_append] at hlong
  rw [String.toList_append, List.mem_append, not_or] at hnul
  exact Tree.checkOperand_iff.2 ⟨hnul.1, hne, by omega⟩

theorem Takes.above {last : String} (h : (q.child name).Takes last) (hne : name ≠ "")
    (hup : name ≠ "..") (hshort : name.utf8ByteSize ≤ Tree.maxNameBytes) : q.Takes name :=
  ⟨hup, hshort, checkOperand_of_child h.text rfl (text_child_ne_empty hne)⟩

/-- A directory can be named wherever its entries can. -/
theorem Usable.of_child (h : (q.child name).Usable) (htrailing : q.trailing = false)
    (hne : q.text ≠ "") : q.Usable :=
  ⟨checkOperand_of_child h.text htrailing hne, fun m hm =>
    h.names m (List.mem_append_left _ hm)⟩

end Path

namespace Procedure

open NfsProvisioner.Tree

/-- What making a directory and those above it comes to. -/
structure MakesWay (t : Tree) (cwd : Location) (p : Path) (answer : Except Fault Unit)
    (t' : Tree) : Prop where
  grows : t.Grows t' (p.way cwd)
  passable : t.get? (p.start cwd) = some .directory → answer = .ok () → t'.Passable cwd p
  usable : answer = .ok () → p.names ≠ [] → p.Usable
  made : t.get? (p.start cwd) = some .directory → t.Clear cwd p → (p.text ≠ "" → p.Usable) →
    answer = .ok ()

variable {σ : Type} {m : Mounter σ} {cwd : Location} {p q : Path} {name : String}

/-- An attempt to make one directory is as good as its presence. -/
theorem run_makeDirectory (host : Host σ) :
    (makeDirectory p (acceptExisting p)).run m host =
      match host.tree.makeDirectory host.cwd p with
      | .ok tree => ⟨.ok (), { host with tree }, []⟩
      | .error fault =>
        ⟨if host.tree.isDirectory host.cwd p then .ok () else .error fault, host, []⟩ := by
  unfold run Host.makeDirectory Host.change
  cases host.tree.makeDirectory host.cwd p with
  | ok tree => rfl
  | error fault => rfl

/-- An attempt to make one directory. It succeeds if the way to the directory above is there. -/
theorem attempt_makesWay {host : Host σ} (hp : (q.child name).Normal)
    (hlinks : host.tree.Unlinked host.cwd (q.child name)) :
    let o := (makeDirectory (q.child name) (acceptExisting (q.child name))).run m host
    host.tree.Grows o.host.tree ((q.child name).way host.cwd) ∧
      (o.answer = .ok () →
        o.host.tree.Passable host.cwd (q.child name) ∧ (q.child name).Usable) ∧
      (host.tree.Clear host.cwd (q.child name) → host.tree.Passable host.cwd q →
        (q.child name).Usable → o.answer = .ok ()) := by
  intro o
  have hq : q.Normal := fun n hn => hp n (List.mem_append_left _ hn)
  have hway := hlinks.of_child
  have hrun := run_makeDirectory (m := m) (p := q.child name) host
  cases hmade : host.tree.makeDirectory host.cwd (q.child name) with
  | ok tree =>
    rw [hmade] at hrun
    have ho : o = ⟨.ok (), { host with tree }, []⟩ := hrun
    obtain ⟨hname, husable, hpass, hfree, hput⟩ := create_child_ok hq hway hmade
    have hself := (@Path.mem_way_child host.cwd q _ hname _).2 (.inr rfl)
    have hgrows : host.tree.Grows tree ((q.child name).way host.cwd) :=
      Grows.of_put hfree hself hput
    rw [ho]
    refine ⟨hgrows, fun _ => ⟨(passable_child_iff hname).2 ⟨hgrows.passable hpass, ?_⟩, husable⟩,
      fun _ _ _ => rfl⟩
    exact (hput _).trans (if_pos rfl)
  | error fault =>
    rw [hmade] at hrun
    have ho : o = ⟨if host.tree.isDirectory host.cwd (q.child name) then .ok ()
        else .error fault, host, []⟩ := hrun
    have hdirectory := isDirectory_iff hp rfl hlinks
    rw [ho]
    refine ⟨Grows.refl, fun h => ?_, fun hclear hpass husable => ?_⟩
    · dsimp only at h
      split at h
      · next hthere =>
        obtain ⟨husable, hpass⟩ := hdirectory.1 hthere
        exact ⟨hpass, husable⟩
      · cases h
    · refine if_pos (hdirectory.2 ⟨husable, fun l hl => ?_⟩)
      rw [Path.way_child, List.mem_append, List.mem_singleton] at hl
      rcases hl with hl | rfl
      · exact hpass l hl
      by_cases hname : name = ".."
      · rw [Path.enter, if_pos hname]
        exact get?_dropLast (hpass _ Path.location_mem_way)
      · have hself := (@Path.mem_way_child host.cwd q _ hname _).2 (.inr rfl)
        rw [Path.enter, if_neg hname]
        rcases hclear _ hself with hfree | hthere
        · obtain ⟨tree, hok, -⟩ :=
            create_child_of_free .directory hq hname husable hpass hfree
          rw [Tree.makeDirectory, hok] at hmade
          cases hmade
        · exact hthere

/-- The directories above are made only if the first attempt misses one of them. -/
theorem run_createDirectoriesFrom_of_ne {anchor : Anchor} {above : List String} {host : Host σ}
    {trailing : Bool}
    (h : host.tree.makeDirectory host.cwd ⟨anchor, (name :: above).reverse, trailing⟩ ≠
      .error .notFound) :
    (createDirectoriesFrom anchor trailing (name :: above)).run m host =
      (makeDirectory ⟨anchor, (name :: above).reverse, trailing⟩
        (acceptExisting ⟨anchor, (name :: above).reverse, trailing⟩)).run m host := by
  rw [createDirectoriesFrom]
  simp only [run, Host.makeDirectory, Host.change]
  cases hmade : host.tree.makeDirectory host.cwd ⟨anchor, (name :: above).reverse, trailing⟩ with
  | ok tree => rfl
  | error fault =>
    cases fault
    case notFound => exact absurd hmade h
    all_goals rfl

theorem run_createDirectoriesFrom_of_missing {anchor : Anchor} {above : List String}
    {host : Host σ} {trailing : Bool}
    (h : host.tree.makeDirectory host.cwd ⟨anchor, (name :: above).reverse, trailing⟩ =
      .error .notFound) :
    (createDirectoriesFrom anchor trailing (name :: above)).run m host =
      let upper := (createDirectoriesFrom anchor false above).run m host
      match upper.answer with
      | .ok () => (makeDirectory ⟨anchor, (name :: above).reverse, trailing⟩
          (acceptExisting ⟨anchor, (name :: above).reverse, trailing⟩)).run m upper.host
      | .error fault => ⟨.error fault, upper.host, []⟩ := by
  have htrace := trace_of_filesOnly (filesOnly_createDirectoriesFrom anchor false above) m host
  rw [createDirectoriesFrom]
  simp only [run, Host.makeDirectory, Host.change, h]
  show ((createDirectoriesFrom anchor false above) >>= _).run m host = _
  rw [run_bind, htrace]
  cases ((createDirectoriesFrom anchor false above).run m host).answer <;> rfl

/-- The end of the recursion: a path without names is there from the start. -/
theorem createDirectoriesFrom_nil_makesWay (anchor : Anchor) (host : Host σ)
    (hlinks : host.tree.Unlinked host.cwd ⟨anchor, [], false⟩) :
    let o := (createDirectoriesFrom anchor false []).run m host
    MakesWay host.tree host.cwd ⟨anchor, [], false⟩ o.answer o.host.tree := by
  intro o
  have hpass : host.tree.get? (Path.start host.cwd ⟨anchor, [], false⟩) = some .directory →
      host.tree.Passable host.cwd ⟨anchor, [], false⟩ := by
    intro hstart l hl
    rw [List.mem_singleton.1 hl]
    exact hstart
  by_cases hhere : anchor = .here
  · have ho : o = ⟨.ok (), host, []⟩ := by
      simp only [o, createDirectoriesFrom, if_pos hhere, run]
    rw [ho]
    exact ⟨Grows.refl, fun hstart _ => hpass hstart, fun _ h => absurd rfl h, fun _ _ _ => rfl⟩
  · have hp : Path.Normal ⟨anchor, [], false⟩ := fun name hname => by cases hname
    have hdirectory := isDirectory_iff hp rfl hlinks
    have ho : o = ⟨if host.tree.isDirectory host.cwd ⟨anchor, [], false⟩ then .ok () else
        o.answer, host, []⟩ := by
      have hrun := run_makeDirectory (m := m) (p := ⟨anchor, [], false⟩) host
      have hnever := create_nameless host.tree host.cwd anchor false .directory
      simp only [o, createDirectoriesFrom, if_neg hhere]
      rw [hrun]
      cases hmade : host.tree.makeDirectory host.cwd ⟨anchor, [], false⟩ with
      | ok tree => exact absurd hmade (hnever tree)
      | error fault =>
        dsimp only
        split <;> rfl
    rw [ho]
    refine ⟨Grows.refl, fun hstart _ => hpass hstart, fun _ h => absurd rfl h,
      fun hstart _ husable => ?_⟩
    have hne : (⟨anchor, [], false⟩ : Path).text ≠ "" := by
      cases anchor with
      | here => exact absurd rfl hhere
      | root => decide
      | doubleRoot => decide
    exact if_pos (hdirectory.2 ⟨husable hne, hpass hstart⟩)

/-- The step back: below a directory that has been made with those above it. -/
theorem MakesWay.child {host : Host σ} {upper : Outcome σ (Except Fault Unit)}
    (hp : (q.child name).Normal) (htrailing : q.trailing = false)
    (hlinks : host.tree.Unlinked host.cwd (q.child name)) (hcwd : upper.host.cwd = host.cwd)
    (hupper : MakesWay host.tree host.cwd q upper.answer upper.host.tree) :
    let o := match upper.answer with
      | .ok () =>
        (makeDirectory (q.child name) (acceptExisting (q.child name))).run m upper.host
      | .error fault => ⟨.error fault, upper.host, []⟩
    MakesWay host.tree host.cwd (q.child name) o.answer o.host.tree := by
  have hne : (q.child name).text ≠ "" := Path.text_child_ne_empty hp.last_ne_empty
  have hgrows : host.tree.Grows upper.host.tree ((q.child name).way host.cwd) := by
    apply hupper.grows.mono
    intro l hl
    rw [Path.way_child]
    exact List.mem_append_left _ hl
  cases hanswer : upper.answer with
  | ok =>
    have hattempt := @attempt_makesWay _ m _ _ upper.host hp (hcwd ▸ hgrows.unlinked hlinks)
    rw [hcwd] at hattempt
    obtain ⟨hmore, hok, hmade⟩ := hattempt
    exact ⟨hgrows.trans hmore, fun _ h => (hok h).1, fun h _ => (hok h).2,
      fun hstart hclear husable =>
        hmade (hgrows.clear hclear) (hupper.passable hstart hanswer) (husable hne)⟩
  | error fault =>
    refine ⟨hgrows, fun _ h => ?_, fun h => ?_, fun hstart hclear husable => ?_⟩
    · cases h
    · cases h
    · have hmade := hupper.made hstart hclear.of_child fun hne' =>
        (husable hne).of_child htrailing hne'
      rw [hanswer] at hmade
      cases hmade

/-- Making a directory and those above it makes missing directories on its way and nothing
else. -/
theorem createDirectoriesFrom_makesWay (anchor : Anchor) (above : List String) (host : Host σ)
    (hp : Path.Normal ⟨anchor, above.reverse, false⟩)
    (hlinks : host.tree.Unlinked host.cwd ⟨anchor, above.reverse, false⟩) :
    let o := (createDirectoriesFrom anchor false above).run m host
    MakesWay host.tree host.cwd ⟨anchor, above.reverse, false⟩ o.answer o.host.tree := by
  -- The induction is on the names, last one first, as the recursion takes them.
  induction above with
  | nil => exact createDirectoriesFrom_nil_makesWay anchor host hlinks
  | cons name above ih =>
    have hchild : (⟨anchor, (name :: above).reverse, false⟩ : Path) =
        Path.child ⟨anchor, above.reverse, false⟩ name := by
      simp [Path.child]
    intro o
    rw [hchild] at hp hlinks ⊢
    have hq : Path.Normal ⟨anchor, above.reverse, false⟩ :=
      fun n hn => hp n (List.mem_append_left _ hn)
    by_cases hmissing : host.tree.makeDirectory host.cwd
        ⟨anchor, (name :: above).reverse, false⟩ = .error .notFound
    · have ho : o = _ := run_createDirectoriesFrom_of_missing hmissing
      have hcwd : ((createDirectoriesFrom anchor false above).run m host).host.cwd = host.cwd :=
        cwd_of_filesOnly (filesOnly_createDirectoriesFrom anchor false above) m host
      rw [hchild] at ho
      rw [ho]
      exact (ih hq hlinks.of_child).child hp rfl hlinks hcwd
    · have ho : o = _ := run_createDirectoriesFrom_of_ne hmissing
      rw [hchild] at ho hmissing
      obtain ⟨hgrows, hok, hmade⟩ := attempt_makesWay (m := m) hp hlinks
      have hne := @Path.text_child_ne_empty ⟨anchor, above.reverse, false⟩ _ hp.last_ne_empty
      rw [ho]
      refine ⟨hgrows, fun _ h => (hok h).1, fun h _ => (hok h).2,
        fun hstart hclear husable => ?_⟩
      apply hmade hclear _ (husable hne)
      apply Classical.byContradiction
      intro hpass
      exact hmissing (create_child_missing .directory hq hclear.of_child
        (fun m hm => (husable hne).names m (List.mem_append_left _ hm)) rfl (List.prefix_refl _)
        (husable hne).text hstart hpass)

/-- Making a directory by its path, and those above it. -/
theorem createDirectories_makesWay {host : Host σ} (hp : p.Normal) (htrailing : p.trailing = false)
    (hlinks : host.tree.Unlinked host.cwd p) :
    let o := (createDirectories p).run m host
    o.host = ⟨host.cwd, o.host.tree, host.mounts⟩ ∧
      MakesWay host.tree host.cwd p o.answer o.host.tree := by
  intro o
  have hhost := run_of_filesOnly (filesOnly_createDirectories p) m m host host.mounts
  have hp' : (⟨p.anchor, p.names.reverse.reverse, false⟩ : Path) = p := by
    rw [List.reverse_reverse, ← htrailing]
  constructor
  · show ((createDirectories p).run m host).host = _
    rw [hhost]
  · have hway := createDirectoriesFrom_makesWay (m := m) p.anchor p.names.reverse host
      (by rw [hp']; exact hp) (by rw [hp']; exact hlinks)
    rw [hp'] at hway
    have ho : o = (createDirectoriesFrom p.anchor false p.names.reverse).run m host := by
      rw [← htrailing]
      rfl
    rw [ho]
    exact hway

end Procedure

namespace Tree

/-- The empty directory at the end of a path is removed. -/
def LosesEmpty (t t' : Tree) (cwd : Location) (p : Path) : Prop :=
  ∃ l directory name, t.slot cwd p = .ok (.entry l directory name) ∧
    t.get? (l ++ [name]) = some .directory ∧ t.isBare (l ++ [name]) = true ∧
    t' = t.prune (l ++ [name]) (Location.child_ne_root l name)

theorem losesEmpty_of_removeDirectory {t t' : Tree} {cwd : Location} {p : Path}
    (h : t.removeDirectory cwd p = .ok t') : t.LosesEmpty t' cwd p := by
  unfold removeDirectory at h
  cases hslot : t.slot cwd p with
  | error fault =>
    rw [hslot] at h
    cases h
  | ok s =>
    rw [hslot] at h
    cases s with
    | ancestor l => cases h
    | entry l directory name =>
      simp only [bind, Except.bind] at h
      split at h
      · cases h
      · next hget =>
        split at h
        · next hbare =>
          cases h
          exact ⟨l, directory, name, hslot, hget, hbare, rfl⟩
        · cases h
      · cases h

end Tree

/-- A directory that is not empty is not removed, and neither is anything else. -/
theorem Host.losesEmpty_of_removeDirectory {host : Host σ} {p : Path}
    (h : (host.removeDirectory p).2 ≠ host) :
    host.tree.LosesEmpty (host.removeDirectory p).2.tree host.cwd p := by
  rw [removeDirectory] at h ⊢
  cases hremoved : host.tree.removeDirectory host.cwd p with
  | error fault =>
    rw [hremoved] at h
    exact absurd rfl h
  | ok tree => exact Tree.losesEmpty_of_removeDirectory hremoved

end NfsProvisioner
