import NfsProvisioner.Proofs.Deletion

/-!
# Removing what is not there

Removing a volume that does not exist changes nothing, also where symbolic links lead to the working
directory. It is meant to succeed, and it does for every id that names no volume. For one that does,
a mount point is made before anything is looked for, so that the answer depends on whether the host
takes the name: `Controller.deletion_of_nothing` says when it does. A name that it does not take is
the name of nothing, and yet its removal fails.
-/
namespace NfsProvisioner

variable {σ : Type}

namespace Tree

variable {t u : Tree} {cwd l : Location} {q : Path} {name : String}

/-- An entry whose path the host does not take is not even looked for. -/
theorem Arrives.slot_of_not_taken (h : t.Arrives cwd q l) (hname : PlainName name)
    (hnot : ¬ q.Takes name) :
    ∃ fault, fault ≠ .notFound ∧ t.slot cwd (q.child name) = .error fault := by
  rw [slot_child]
  cases htext : checkOperand (q.child name).text with
  | error fault =>
    refine ⟨fault, ?_, rfl⟩
    rintro rfl
    exact Path.text_child_ne_empty hname.nonempty (eq_empty_of_checkOperand htext)
  | ok =>
    have hlong : maxNameBytes < name.utf8ByteSize :=
      Nat.lt_of_not_le fun hshort => hnot ⟨hname.ne_up, hshort, htext⟩
    refine ⟨.nameTooLong, by decide, ?_⟩
    rw [h.walk]
    simp only [bind, Except.bind, dif_pos h.directory, if_neg hname.ne_up, if_pos hlong]
    rfl

/-- Where the host does not take its path, a directory cannot be made. -/
theorem Arrives.made_of_not_taken (h : t.Arrives cwd q l) (hname : PlainName name)
    (hnot : ¬ q.Takes name) : ∃ fault, t.made cwd (q.child name) = (.error fault, t) := by
  obtain ⟨fault, hne, hslot⟩ := h.slot_of_not_taken hname hnot
  have hmaking : t.makeDirectory cwd (q.child name) = .error fault := by
    rw [makeDirectory, create, hslot]
    rfl
  have hthere : ¬ t.isDirectory cwd (q.child name) = true := by
    intro hfound
    obtain ⟨-, k, -, hentry⟩ := arrives_of_isDirectory_child hfound
    exact hnot (hentry hname.isName hname.ne_up).1
  refine ⟨fault, ?_⟩
  rw [made_child_of_found (makeDirectory_ne_notFound h.walk hname.nonempty), attempt, hmaking]
  dsimp only
  rw [if_neg hthere]

/-- Where nothing stands, a directory is made, and removing it again gives back the first tree. -/
theorem Arrives.made_and_cleared_of_free (h : t.Arrives cwd q l) (hname : PlainName name)
    (htakes : q.Takes name) (hfree : t.get? (l ++ [name]) = none) :
    ∃ u, t.made cwd (q.child name) = (.ok (), u) ∧ u.Arrives cwd (q.child name) (l ++ [name]) ∧
      u.get? (l ++ [name] ++ [name]) = none ∧ u.cleared cwd (q.child name) = t := by
  obtain ⟨u, hmade, hput⟩ := h.made_of_free htakes hfree
  have hgains : t.Gains u cwd q name l := ⟨h, htakes, hfree, hput⟩
  have hfound := h.mono hgains.within
  have hbare : ∀ r, r ≠ [] → u.get? (l ++ [name] ++ r) = none := by
    intro r hr
    rw [hput, if_neg fun heq => hr (List.append_right_eq_self.1 heq)]
    exact get?_append_of_none hfree r
  refine ⟨u, hmade, hfound.child hname.isName htakes hgains.directory,
    hbare _ (List.cons_ne_nil _ _), ?_⟩
  rcases hfound.cleared_cases htakes hgains.directory with ⟨⟨r, hr, hfull⟩, -⟩ | ⟨-, hcleared⟩
  · exact absurd (hbare r hr) hfull
  · apply ext_get?
    intro k
    rw [hcleared, hput]
    split
    · next heq => rw [heq, hfree]
    · rfl

end Tree

namespace Controller

variable {c : Controller} {m : Mounter σ} {p : Placement} {id : VolumeId} {host : Host σ}
  {working : Location}

theorem conclusion_delete_of_ne {fault : Fault} (hne : fault ≠ .notFound) :
    c.conclusion p (.delete id) (.error fault) =
      .error (.internal
        ("failed to delete subdirectory " ++ (c.volumePath p).text ++ ": " ++ fault.message)) := by
  cases fault
  case notFound => exact absurd rfl hne
  all_goals rfl

/-- Removing a volume whose mount point is not there leaves the tree as it was, and succeeds exactly
if the host takes the path of the volume. -/
theorem serve_delete_of_absent (hm : m.KeepsFiles) (hworks : m.NeverFails)
    (hscreen : c.screen (.delete id) = .ok p)
    (harrives : host.tree.Arrives host.cwd c.working working)
    (hfree : host.tree.get? (working ++ [p.name]) = none) :
    let o := (c.serve (.delete id)).run m host
    o.host.tree = host.tree ∧ (o.answer = .ok none ↔ (c.mountPoint p).Takes p.name) ∧
      ∀ e, o.answer = .error e → e.code = .internal := by
  have hname := (plain_of_screen hscreen).name
  by_cases htakes : c.working.Takes p.name
  · obtain ⟨u, hmade, hpoint, hmissing, hcleared⟩ :=
      harrives.made_and_cleared_of_free hname htakes hfree
    obtain ⟨hanswer, mounts, hhost⟩ := serve_delete_of_made hm hworks hscreen hmade
    rw [VolumeRequest.result_delete] at hanswer
    rw [VolumeRequest.effect_delete] at hhost
    by_cases hvolume : (c.mountPoint p).Takes p.name
    · have hremoval : u.removeAll host.cwd (c.volumePath p) = .error .notFound :=
        hpoint.removeAll_of_missing hvolume hmissing
      rw [hremoval] at hanswer hhost
      dsimp only
      rw [hanswer, hhost]
      exact ⟨hcleared, iff_of_true rfl hvolume, fun e he => by cases he⟩
    · obtain ⟨fault, hne, hslot⟩ := hpoint.slot_of_not_taken hname hvolume
      have hremoval : u.removeAll host.cwd (c.volumePath p) = .error fault := by
        change u.slot host.cwd (c.volumePath p) = .error fault at hslot
        rw [Tree.removeAll, hslot]
        rfl
      rw [hremoval] at hanswer hhost
      dsimp only at hanswer ⊢
      rw [hanswer, hhost, conclusion_delete_of_ne hne]
      refine ⟨hcleared, iff_of_false (fun h => by cases h) hvolume, fun e he => ?_⟩
      cases he
      rfl
  · obtain ⟨fault, hmade⟩ := harrives.made_of_not_taken hname htakes
    have hvolume : ¬ (c.mountPoint p).Takes p.name := fun h =>
      htakes (h.above hname.nonempty hname.ne_up h.short)
    dsimp only
    rw [run_serve_of_not_made hscreen hmade]
    refine ⟨rfl, iff_of_false (fun h => by cases h) hvolume, fun e he => ?_⟩
    cases he
    rfl

/-- Removing a volume that is not there changes nothing. Suppose that the mounter leaves files alone
and never fails, that the path of the working directory leads to a directory, be it along symbolic
links, and that there is nothing in it called like the volume, if the id names one. Then the tree is
left as it was. The removal succeeds for every id that names no volume, the empty one apart, and for
any other exactly if the host takes the path of the volume: its name is not too long, and the text
of its path neither holds U+0000 nor is too long. Otherwise it fails, and the failure is not the
caller's fault. -/
theorem deletion_of_nothing (hm : m.KeepsFiles) (hworks : m.NeverFails) (hid : id.text ≠ "")
    (harrives : host.tree.Arrives host.cwd c.working working)
    (hfree : ∀ p, id.placement = .ok p → host.tree.get? (working ++ [p.name]) = none) :
    let o := (c.deleteVolume id).run m host
    o.host.tree = host.tree ∧
      (o.answer = .ok () ↔ ∀ p, id.placement = .ok p → (c.working.child p.name).Takes p.name) ∧
      ∀ e, o.answer = .error e → e.code = .internal := by
  cases hplacement : id.placement with
  | error e =>
    rw [run_deleteVolume_of_unreadable c m hplacement, if_neg hid]
    refine ⟨rfl, iff_of_true rfl fun p hp => ?_, fun e he => ?_⟩
    · cases hp
    · cases he
  | ok p =>
    obtain ⟨hhost, -, hok, herror⟩ := run_deleteVolume c m id host
    obtain ⟨htree, hanswer, hcode⟩ := serve_delete_of_absent hm hworks
      (screen_delete_ok_iff.2 hplacement) harrives (hfree p hplacement)
    dsimp only
    rw [hhost, hok, hanswer]
    refine ⟨htree, ⟨fun htakes q hq => ?_, fun htakes => htakes p rfl⟩,
      fun e he => hcode e ((herror e).1 he)⟩
    obtain rfl := Except.ok.inj hq
    exact htakes

namespace Sample

/-- Nothing is called `vol1` in `/work`, so removing that volume succeeds and changes nothing. -/
theorem deletion_of_unmade_volume :
    let o := (controller.deleteVolume ⟨"s1/base/vol1"⟩).run .inert ready
    o.answer = .ok () ∧ o.host.tree = ready.tree := by
  have hresolve : ready.tree.resolve ready.cwd controller.working = .ok ["work"] := by
    rfl
  have hdirectory : ready.tree.get? ["work"] = some .directory := by decide +kernel
  have hplacement : (⟨"s1/base/vol1"⟩ : VolumeId).placement = .ok ⟨"s1", "base", "vol1"⟩ := by
    rfl
  have hfree : ready.tree.get? ["work", "vol1"] = none := by decide +kernel
  have htakes : (controller.working.child "vol1").Takes "vol1" :=
    ⟨by decide, by decide +kernel, Tree.checkOperand_iff.2 (by decide +kernel)⟩
  generalize ready = host at *
  obtain ⟨htree, hanswer, -⟩ := @deletion_of_nothing Unit controller .inert ⟨"s1/base/vol1"⟩ host
    ["work"] Mounter.keepsFiles_inert Mounter.neverFails_inert (by decide)
    (Tree.arrives_of_resolve hresolve hdirectory) fun p hp => by
      obtain rfl := Except.ok.inj (hp.symm.trans hplacement)
      exact hfree
  refine ⟨hanswer.2 fun p hp => ?_, htree⟩
  obtain rfl := Except.ok.inj (hp.symm.trans hplacement)
  exact htakes

theorem size_replicate (n : Nat) : (String.ofList (List.replicate n 'a')).utf8ByteSize = n := by
  induction n with
  | zero => rfl
  | succ n ih =>
    rw [List.replicate_succ', String.ofList_append, String.utf8ByteSize_append, ih]
    rfl

/-- A name of 256 bytes, which is too long for an entry of a directory. -/
def overlong : String :=
  String.ofList (List.replicate 256 'a')

theorem size_overlong : overlong.utf8ByteSize = 256 :=
  size_replicate 256

theorem plain_overlong : (Placement.mk "s1" "base" overlong).Plain := by
  have hne (name : String) (h : name.utf8ByteSize < 256) : overlong ≠ name := by
    rintro rfl
    exact absurd size_overlong (Nat.ne_of_lt h)
  refine ⟨⟨by decide, by decide, by decide⟩, ⟨by decide, by decide, by decide⟩,
    ⟨hne _ (by decide), ?_, ?_⟩⟩
  · intro hmem
    have hchars : overlong.toList = List.replicate 256 'a' := String.toList_ofList
    have hslash : '/' = 'a' := List.eq_of_mem_replicate (hchars ▸ hmem)
    exact absurd hslash (by decide)
  · simp [isRelativeName, hne "." (by decide), hne ".." (by decide)]

/-- No volume can have been made under that name, and there is none, yet its removal fails. -/
theorem deletion_of_overlong_name_fails :
    let id := (Placement.mk "s1" "base" overlong).id
    id.text ≠ "" ∧ (Mounter.inert : Mounter Unit).KeepsFiles ∧
      (Mounter.inert : Mounter Unit).NeverFails ∧
      ready.tree.Arrives ready.cwd controller.working ["work"] ∧
      (∀ p, id.placement = .ok p → ready.tree.get? (["work"] ++ [p.name]) = none) ∧
      ∃ path reason, ((controller.deleteVolume id).run .inert ready).answer =
        .error (.mountFailed path reason) := by
  intro id
  have hplacement : id.placement = .ok ⟨"s1", "base", overlong⟩ :=
    VolumeId.placement_eq_ok_iff.2 (Placement.read_id plain_overlong)
  have harrives : ready.tree.Arrives ready.cwd controller.working ["work"] :=
    Tree.arrives_of_resolve (by rfl) (by decide +kernel)
  have hbare : ready.tree.isBare ["work"] = true := by decide +kernel
  have hnot : ¬ controller.working.Takes overlong := fun h => by
    have hshort := h.short
    rw [size_overlong] at hshort
    exact absurd hshort (by decide)
  obtain ⟨fault, hmade⟩ := harrives.made_of_not_taken plain_overlong.name hnot
  obtain ⟨-, -, -, herror⟩ := run_deleteVolume controller .inert id ready
  have hrun := @run_serve_of_not_made Unit controller .inert _ _ ready
    (screen_delete_ok_iff.2 hplacement) _ _ hmade
  exact ⟨VolumeId.text_ne_empty hplacement, Mounter.keepsFiles_inert, Mounter.neverFails_inert,
    harrives, fun p _ => Tree.isBare_iff.1 hbare [p.name] (List.cons_ne_nil _ _), _, _,
    (herror _).2 (congrArg Outcome.answer hrun)⟩

end Sample
end Controller
end NfsProvisioner
