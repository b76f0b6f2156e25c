import NfsProvisioner.Proofs.Creation

/-!
# What removing a volume leaves

On a way without symbolic links, removing a volume takes away the volume with everything in it, and
its mount point if there is nothing else in that. Whatever else stood in the mount point stays, and
missing directories of the working directory, which are made on the way, stay as well
(`Tree.WithoutVolume`). Removing it again finds all of this done.
-/
namespace NfsProvisioner

variable {σ : Type}

namespace Tree

/-- Something that is not the entry called `name`, nor in it, stands below a location. -/
def HasOthers (t : Tree) (l : Location) (name : String) : Prop :=
  ∃ r, r ≠ [] ∧ ¬ [name] <+: r ∧ t.get? (l ++ r) ≠ none

/-- The second tree is the first one without a volume called `name`, without its mount point unless
something else is in it, and with all directories on the way to the working directory. -/
structure WithoutVolume (t u : Tree) (cwd : Location) (working : Path) (name : String) : Prop where
  volume : ∀ k, working.location cwd ++ [name, name] <+: k → u.get? k = none
  point_removed : ¬ t.HasOthers (working.location cwd ++ [name]) name →
    u.get? (working.location cwd ++ [name]) = none
  point_kept : t.HasOthers (working.location cwd ++ [name]) name →
    u.get? (working.location cwd ++ [name]) = t.get? (working.location cwd ++ [name])
  elsewhere : ∀ k, ¬ working.location cwd ++ [name, name] <+: k →
    k ≠ working.location cwd ++ [name] →
    u.get? k = if k ∈ working.way cwd ∧ t.get? k = none then some .directory else t.get? k

variable {t u v left : Tree} {cwd l : Location} {working p : Path} {name : String}

theorem HasOthers.directory (h : t.HasOthers l name) : t.get? l = some .directory := by
  obtain ⟨r, hr, -, hfull⟩ := h
  obtain ⟨e, he⟩ := Option.ne_none_iff_exists'.1 hfull
  exact get?_of_append hr he

theorem hasOthers_congr (h : ∀ r, r ≠ [] → ¬ [name] <+: r → u.get? (l ++ r) = t.get? (l ++ r)) :
    u.HasOthers l name ↔ t.HasOthers l name := by
  refine exists_congr fun r => and_congr_right fun hr => and_congr_right fun hbeside => ?_
  rw [h r hr hbeside]

/-- Below a location without the entry called `name`, what is left are the others. -/
theorem Pruned.occupied_iff (h : t.Pruned u (l ++ [name])) :
    (∃ r, r ≠ [] ∧ u.get? (l ++ r) ≠ none) ↔ t.HasOthers l name := by
  have hbelow (r : Location) : l ++ [name] <+: l ++ r ↔ [name] <+: r :=
    List.prefix_append_right_inj l
  constructor
  · rintro ⟨r, hr, hfull⟩
    rw [h] at hfull
    split at hfull
    · exact absurd rfl hfull
    · next hbeside => exact ⟨r, hr, fun hin => hbeside ((hbelow r).2 hin), hfull⟩
  · rintro ⟨r, hr, hbeside, hfull⟩
    refine ⟨r, hr, ?_⟩
    rwa [h, if_neg fun hin => hbeside ((hbelow r).1 hin)]

/-- A tree in which the way to the mount point has been made, the volume removed, and then the mount
point if that was empty. -/
theorem WithoutVolume.of_removed (hdown : ".." ∉ working.names) (hname : name ≠ "..")
    (hcompleted : t.Completed u ((working.child name).way cwd))
    (hpruned : u.Pruned v ((working.child name).location cwd ++ [name]))
    (hleft : (∃ r, r ≠ [] ∧ v.get? ((working.child name).location cwd ++ r) ≠ none) ∧ left = v ∨
      (∀ r, r ≠ [] → v.get? ((working.child name).location cwd ++ r) = none) ∧
        v.Put left ((working.child name).location cwd) none) :
    t.WithoutVolume left cwd working name := by
  have hbeyond (r : Location) (hr : r ≠ []) :=
    hcompleted.beyond (Path.not_up_mem_child hdown hname) hr
  have hothers : (∃ r, r ≠ [] ∧ v.get? ((working.child name).location cwd ++ r) ≠ none) ↔
      t.HasOthers (working.location cwd ++ [name]) name := by
    rw [hpruned.occupied_iff, hasOthers_congr fun r hr _ => hbeyond r hr, Path.location_child hname]
  have hself : working.location cwd ++ [name] ++ [name] = working.location cwd ++ [name, name] := by
    simp
  rw [Path.location_child hname] at hpruned hleft hothers
  rw [hself] at hpruned
  have hpoint : ¬ working.location cwd ++ [name, name] <+: working.location cwd ++ [name] := by
    rw [← hself]
    exact Location.child_not_above _ name
  -- What an empty mount point takes away is nothing but itself.
  have hkept (k : Location) (hk : k ≠ working.location cwd ++ [name]) :
      left.get? k = v.get? k := by
    rcases hleft with ⟨-, rfl⟩ | ⟨-, hput⟩
    · rfl
    · rw [hput, if_neg hk]
  refine ⟨fun k hk => ?_, fun hnone => ?_, fun hsome => ?_, fun k hk hother => ?_⟩
  · have hne : k ≠ working.location cwd ++ [name] := by
      rintro rfl
      exact hpoint hk
    rw [hkept k hne, hpruned, if_pos hk]
  · rcases hleft with ⟨hfull, -⟩ | ⟨-, hput⟩
    · exact absurd (hothers.1 hfull) hnone
    · rw [hput, if_pos rfl]
  · rcases hleft with ⟨-, rfl⟩ | ⟨hbare, -⟩
    · rw [hpruned, if_neg hpoint, hcompleted, hsome.directory]
      simp
    · obtain ⟨r, hr, hfull⟩ := hothers.2 hsome
      exact absurd (hbare r hr) hfull
  · rw [hkept k hother, hpruned, if_neg hk, hcompleted]
    simp only [Path.mem_way_child hname, hother, or_false]

namespace WithoutVolume

/-- Where all of the way was open, all of it is there down to the working directory. -/
theorem passable_working (h : t.WithoutVolume u cwd working name) (hdown : ".." ∉ working.names)
    (hclear : t.Clear cwd working) : u.Passable cwd working := by
  intro k hk
  have hvolume : ¬ working.location cwd ++ [name, name] <+: k :=
    Path.not_below_of_mem_way hdown hk (by simp)
  have hpoint : k ≠ working.location cwd ++ [name] := by
    rintro rfl
    exact Path.not_below_of_mem_way hdown hk (by simp) (List.prefix_refl _)
  rw [h.elsewhere k hvolume hpoint]
  rcases hclear k hk with hnone | hthere
  · rw [if_pos ⟨hk, hnone⟩]
  · rw [if_neg fun hmissing => ?_, hthere]
    rw [hthere] at hmissing
    cases hmissing.2

theorem clear_point (h : t.WithoutVolume u cwd working name) (hdown : ".." ∉ working.names)
    (hname : name ≠ "..") (hclear : t.Clear cwd (working.child name)) :
    u.Clear cwd (working.child name) := by
  intro k hk
  rcases (Path.mem_way_child hname).1 hk with hway | rfl
  · exact .inr (h.passable_working hdown hclear.of_child k hway)
  by_cases hothers : t.HasOthers (working.location cwd ++ [name]) name
  · rw [Open, h.point_kept hothers]
    exact .inr hothers.directory
  · exact .inl (h.point_removed hothers)

theorem hasOthers_iff (h : t.WithoutVolume u cwd working name) (hdown : ".." ∉ working.names) :
    u.HasOthers (working.location cwd ++ [name]) name ↔
      t.HasOthers (working.location cwd ++ [name]) name := by
  refine hasOthers_congr fun r hr hbeside => ?_
  rw [h.elsewhere, if_neg]
  · rintro ⟨hmem, -⟩
    rw [List.append_assoc] at hmem
    exact Path.not_below_of_mem_way hdown hmem (by simp) (List.prefix_refl _)
  · intro hin
    rw [List.append_assoc, List.prefix_append_right_inj] at hin
    exact hbeside ((List.prefix_append_right_inj [name]).1 hin)
  · exact fun heq => hr (List.append_right_eq_self.1 heq)

/-- Without the volume there is nothing left to be removed. -/
theorem again (h : t.WithoutVolume u cwd working name) (hdown : ".." ∉ working.names)
    (hclear : t.Clear cwd working) (h' : u.WithoutVolume v cwd working name) : v = u := by
  apply ext_get?
  intro k
  by_cases hvolume : working.location cwd ++ [name, name] <+: k
  · rw [h'.volume k hvolume, h.volume k hvolume]
  by_cases hpoint : k = working.location cwd ++ [name]
  · subst hpoint
    by_cases hothers : t.HasOthers (working.location cwd ++ [name]) name
    · exact h'.point_kept ((h.hasOthers_iff hdown).2 hothers)
    · rw [h'.point_removed fun hothers' => hothers ((h.hasOthers_iff hdown).1 hothers'),
        h.point_removed hothers]
  · rw [h'.elsewhere k hvolume hpoint, if_neg]
    rintro ⟨hmem, hnone⟩
    rw [h.passable_working hdown hclear k hmem] at hnone
    cases hnone

end WithoutVolume
end Tree

namespace Controller

variable {c : Controller} {m : Mounter σ} {p : Placement} {id : VolumeId} {host : Host σ}

namespace Straight

variable {t u : Tree} {cwd : Location} (h : c.Straight p t cwd)
include h

theorem clear_of_made (hmade : t.made cwd (c.mountPoint p) = (.ok (), u)) :
    t.Clear cwd (c.mountPoint p) := by
  intro l hl
  have hgrows := Tree.grows_of_made h.normal_point h.unlinked hmade
  rw [← (hgrows.grownAt l).open_iff]
  exact .inr ((Tree.passable_of_made h.normal_point h.unlinked hmade).2 l hl)

/-- An attempt to remove the mount point takes it away if it is empty, and nothing else. -/
theorem cleared_cases (hpass : t.Passable cwd (c.mountPoint p)) :
    (∃ r, r ≠ [] ∧ t.get? ((c.mountPoint p).location cwd ++ r) ≠ none) ∧
        t.cleared cwd (c.mountPoint p) = t ∨
      (∀ r, r ≠ [] → t.get? ((c.mountPoint p).location cwd ++ r) = none) ∧
        t.Put (t.cleared cwd (c.mountPoint p)) ((c.mountPoint p).location cwd) none := by
  obtain ⟨habove, hdirectory⟩ := (Tree.passable_child_iff h.name.ne_up).1 hpass
  rw [mountPoint, Path.location_child h.name.ne_up]
  exact (habove.arrives h.normal h.usable_point).cleared_cases (h.usable_point.takes h.name.ne_up)
    hdirectory

/-- Removing what is no file takes it away with everything in it, and is no failure if it was
missing. -/
theorem work_of_delete (id : VolumeId) (hpass : t.Passable cwd (c.mountPoint p))
    (hfile : ∀ contents, t.get? ((c.volumePath p).location cwd) ≠ some (.file contents)) :
    c.conclusion p (.delete id) ((VolumeRequest.delete id).result t cwd (c.volumePath p)) =
        .ok none ∧
      t.Pruned ((VolumeRequest.delete id).effect t cwd (c.volumePath p))
        ((c.volumePath p).location cwd) := by
  have harrives := hpass.arrives h.normal_point h.usable
  have htakes := h.usable.takes h.name.ne_up
  rw [VolumeRequest.result_delete, VolumeRequest.effect_delete]
  rw [h.location_volume] at hfile ⊢
  cases hentry : t.get? ((c.mountPoint p).location cwd ++ [p.name]) with
  | none =>
    rw [volumePath, harrives.removeAll_of_missing htakes hentry]
    refine ⟨rfl, fun k => ?_⟩
    dsimp only
    split
    · next hbelow =>
      obtain ⟨r, rfl⟩ := hbelow
      exact Tree.get?_append_of_none hentry r
    · rfl
  | some e =>
    cases e with
    | file contents => exact absurd hentry (hfile contents)
    | link target =>
      obtain ⟨left, hleft, hpruned⟩ := harrives.removeAll_of_link htakes hentry
      rw [volumePath, hleft]
      exact ⟨rfl, hpruned⟩
    | directory =>
      obtain ⟨left, hleft, hpruned⟩ := Tree.removeAll_child_of_directory h.normal_point
        h.name.ne_up h.usable hpass hentry
        fun l hl => Path.not_below_of_mem_way h.down_point hl (List.cons_ne_nil p.name [])
      rw [volumePath, hleft]
      exact ⟨rfl, hpruned⟩

end Straight

section

variable (hm : m.KeepsFiles) (hworks : m.NeverFails) (hscreen : c.screen (.delete id) = .ok p)
include hm hworks hscreen

/-- Once the mount point is there, nothing can happen but the work, and after it the mount point is
removed if it is empty. -/
theorem serve_delete_of_made {u : Tree}
    (hmade : host.tree.made host.cwd (c.mountPoint p) = (.ok (), u)) :
    let o := (c.serve (.delete id)).run m host
    let r := VolumeRequest.delete id
    o.answer = c.conclusion p r (r.result u host.cwd (c.volumePath p)) ∧
      ∃ mounts : σ, o.host =
        ⟨host.cwd, (r.effect u host.cwd (c.volumePath p)).cleared host.cwd (c.mountPoint p),
          mounts⟩ := by
  obtain ⟨hanswer, held, hhost⟩ := run_serve_of_made hm hworks.attach hscreen hmade
  dsimp only at hhost
  rw [hworks.detach] at hhost
  exact ⟨hanswer, _, hhost⟩

variable (h : c.Straight p host.tree host.cwd)
include h

/-- What is no file is removed. -/
theorem serve_delete_of_removable {u : Tree}
    (hmade : host.tree.made host.cwd (c.mountPoint p) = (.ok (), u))
    (hfile : ∀ contents,
      host.tree.get? ((c.volumePath p).location host.cwd) ≠ some (.file contents)) :
    let o := (c.serve (.delete id)).run m host
    o.answer = .ok none ∧ host.tree.WithoutVolume o.host.tree host.cwd c.working p.name ∧
      ∃ mounts : σ, o.host = ⟨host.cwd, o.host.tree, mounts⟩ := by
  have hcompleted : host.tree.Completed u ((c.mountPoint p).way host.cwd) :=
    Tree.completed_of_made h.normal_point h.unlinked hmade
  have hpass : u.Passable host.cwd (c.mountPoint p) :=
    (Tree.passable_of_made h.normal_point h.unlinked hmade).2
  have hu : c.Straight p u host.cwd := { h with unlinked := hpass.unlinked }
  have hfile' : ∀ contents,
      u.get? ((c.volumePath p).location host.cwd) ≠ some (.file contents) := by
    rw [h.location_volume] at hfile ⊢
    rwa [hcompleted.beyond h.down_point (List.cons_ne_nil p.name [])]
  obtain ⟨hconclusion, hpruned⟩ := hu.work_of_delete id hpass hfile'
  obtain ⟨hanswer, mounts, hhost⟩ := serve_delete_of_made hm hworks hscreen hmade
  generalize (VolumeRequest.delete id).effect u host.cwd (c.volumePath p) = done at hpruned hhost
  have hdone : done.Passable host.cwd (c.mountPoint p) := by
    intro l hl
    rw [hpruned, if_neg, hpass l hl]
    rw [h.location_volume]
    exact Path.not_below_of_mem_way h.down_point hl (List.cons_ne_nil p.name [])
  have hu' : c.Straight p done host.cwd := { h with unlinked := hdone.unlinked }
  have hleft := hu'.cleared_cases hdone
  rw [h.location_volume] at hpruned
  refine ⟨hanswer.trans hconclusion, ?_, ?_⟩
  · rw [hhost]
    exact .of_removed h.down h.name.ne_up hcompleted hpruned hleft
  · rw [hhost]
    exact ⟨_, rfl⟩

/-- A file is not removed, and then nothing is. -/
theorem serve_delete_of_file {contents : String}
    (hfile : host.tree.get? ((c.volumePath p).location host.cwd) = some (.file contents)) :
    let o := (c.serve (.delete id)).run m host
    o.answer = .error (.internal ("failed to delete subdirectory " ++ (c.volumePath p).text ++
        ": " ++ Fault.notDirectory.message)) ∧ o.host.tree = host.tree := by
  rw [h.location_volume] at hfile
  have htaken : host.tree.get? ((c.mountPoint p).location host.cwd ++ [p.name]) ≠ none := by
    rw [hfile]
    exact Option.some_ne_none _
  have hpass : host.tree.Passable host.cwd (c.mountPoint p) :=
    Tree.passable_of_below h.down_point (List.cons_ne_nil p.name []) htaken
  have hremoval : host.tree.removeAll host.cwd (c.volumePath p) = .error .notDirectory :=
    (hpass.arrives h.normal_point h.usable).removeAll_of_file (h.usable.takes h.name.ne_up) hfile
  obtain ⟨hanswer, mounts, hhost⟩ :=
    serve_delete_of_made hm hworks hscreen (h.made_of_passable hpass)
  rw [VolumeRequest.result_delete, hremoval] at hanswer
  rw [VolumeRequest.effect_delete, hremoval] at hhost
  dsimp only at hhost
  rw [h.cleared_of_occupied hpass (List.cons_ne_nil p.name []) htaken] at hhost
  refine ⟨hanswer, ?_⟩
  rw [hhost]

/-- What a removal leaves is what it leaves once more. -/
theorem serve_delete_again {u : Tree}
    (hmade : host.tree.made host.cwd (c.mountPoint p) = (.ok (), u)) {later : Host σ}
    (hcwd : later.cwd = host.cwd)
    (hwithout : host.tree.WithoutVolume later.tree host.cwd c.working p.name) :
    let o := (c.serve (.delete id)).run m later
    o.answer = .ok none ∧ o.host.tree = later.tree ∧ o.host.cwd = host.cwd := by
  obtain ⟨cwd, tree, mounts⟩ := later
  obtain rfl : cwd = host.cwd := hcwd
  have hclear := h.clear_of_made hmade
  have hclear' : tree.Clear host.cwd (c.mountPoint p) :=
    hwithout.clear_point h.down h.name.ne_up hclear
  have hpass : tree.Passable host.cwd c.working :=
    hwithout.passable_working h.down hclear.of_child
  have h' : c.Straight p tree host.cwd := { h with unlinked := hclear'.unlinked }
  obtain ⟨v, hmade'⟩ := Tree.made_of_clear h.normal_point h'.unlinked (hpass _ Path.start_mem_way)
    hclear' h.usable_point
  have hgone : tree.get? ((c.volumePath p).location host.cwd) = none := by
    apply hwithout.volume
    rw [h.location_volume, mountPoint, Path.location_child h.name.ne_up, List.append_assoc]
    exact List.prefix_refl _
  obtain ⟨hanswer, hwithout', mounts', hhost⟩ :=
    @serve_delete_of_removable σ c m p id ⟨host.cwd, tree, mounts⟩ hm hworks hscreen h' v hmade'
      fun contents hfile => by cases hgone.symm.trans hfile
  refine ⟨hanswer, hwithout.again h.down hclear.of_child hwithout', ?_⟩
  rw [hhost]

/-- However often it is sent again, a removal finds the files as the first one has left them. -/
theorem serve_delete_repeated {u : Tree}
    (hmade : host.tree.made host.cwd (c.mountPoint p) = (.ok (), u)) {later : Host σ}
    (hcwd : later.cwd = host.cwd)
    (hwithout : host.tree.WithoutVolume later.tree host.cwd c.working p.name) (n : Nat) :
    let last := Nat.repeat (fun host => ((c.serve (.delete id)).run m host).host) n later
    last.tree = later.tree ∧ last.cwd = host.cwd := by
  induction n with
  | zero => exact ⟨rfl, hcwd⟩
  | succ n ih =>
    obtain ⟨-, htree, hcwd'⟩ := serve_delete_again hm hworks hscreen h hmade ih.2
      (by rw [ih.1]; exact hwithout)
    exact ⟨htree.trans ih.1, hcwd'⟩

end

/-- Removing a volume removes exactly the volume. Suppose that the mounter leaves files alone and
never fails; that the path of the working directory holds no `..`, and no symbolic link stands on
the way to the mount point; and that the mount point can be made and the host takes the path of the
volume. Whatever is in the place of the volume, a file apart, the removal succeeds, and what it
leaves is what was there before without the volume, without the mount point if nothing else was in
it, and with all directories on the way to the working directory. A symbolic link is removed itself,
also inside the volume, and what it leads to stays unless it is inside as well. A file in the place
of the volume is not removed, and then nothing is. After a removal that has succeeded, any number of
further ones succeed as well and change nothing. -/
theorem deletion_is_exact (hm : m.KeepsFiles) (hworks : m.NeverFails) (hnormal : c.working.Normal)
    (hdown : ".." ∉ c.working.names) (hplacement : id.placement = .ok p)
    (hlinks : host.tree.Unlinked host.cwd (c.working.child p.name))
    (husable : ((c.working.child p.name).child p.name).Usable)
    (hmade : ((Procedure.createDirectories (c.working.child p.name)).run m host).answer = .ok ()) :
    let volume := (c.working.child p.name).child p.name
    let remove (host : Host σ) := (c.deleteVolume id).run m host
    let o := remove host
    ((∀ contents, host.tree.get? (volume.location host.cwd) ≠ some (.file contents)) →
      o.answer = .ok () ∧ host.tree.WithoutVolume o.host.tree host.cwd c.working p.name) ∧
    (∀ contents, host.tree.get? (volume.location host.cwd) = some (.file contents) →
      o.answer = .error (.internal ("failed to delete subdirectory " ++ volume.text ++ ": " ++
          Fault.notDirectory.message)) ∧ o.host.tree = host.tree) ∧
    (o.answer = .ok () → ∀ n,
      let last := remove (Nat.repeat (fun host => (remove host).host) n o.host)
      last.answer = .ok () ∧ last.host.tree = o.host.tree) := by
  have hscreen : c.screen (.delete id) = .ok p := screen_delete_ok_iff.2 hplacement
  have h : c.Straight p host.tree host.cwd :=
    ⟨hnormal, hdown, (plain_of_screen hscreen).name, hlinks, husable⟩
  rw [Procedure.run_createDirectories] at hmade
  obtain ⟨u, hmade⟩ : ∃ u, host.tree.made host.cwd (c.mountPoint p) = (.ok (), u) :=
    ⟨_, Prod.ext hmade rfl⟩
  have hserved (host : Host σ) := run_deleteVolume c m id host
  have hremoved := serve_delete_of_removable hm hworks hscreen h hmade
  have hrefused (contents : String) :=
    @serve_delete_of_file σ c m p id host hm hworks hscreen h contents
  dsimp only at hserved hremoved hrefused ⊢
  simp only [(hserved _).1, (hserved _).2.2.1, (hserved _).2.2.2]
  refine ⟨fun hfile => ⟨(hremoved hfile).1, (hremoved hfile).2.1⟩, hrefused, fun hok n => ?_⟩
  have hfile : ∀ contents,
      host.tree.get? ((c.volumePath p).location host.cwd) ≠ some (.file contents) := by
    intro contents hfile
    rw [(hrefused contents hfile).1] at hok
    cases hok
  obtain ⟨-, hwithout, mounts, hhost⟩ := hremoved hfile
  have hsame := serve_delete_repeated hm hworks hscreen h hmade (by rw [hhost]) hwithout n
  obtain ⟨hanswer, htree, -⟩ := serve_delete_again hm hworks hscreen h hmade hsame.2
    (by rw [hsame.1]; exact hwithout)
  exact ⟨hanswer, htree.trans hsame.1⟩

namespace Sample

/-- A volume is removed with a link in it and with its mount point, and what the link leads to
stays. Removing it once more is no failure. -/
theorem deletion_removes_exactly_the_volume :
    let remove (host : Host Unit) := (controller.deleteVolume ⟨"s1/base/vol1"⟩).run .inert host
    let o := remove ⟨[], linked, ()⟩
    o.answer = .ok () ∧ o.host.tree.get? ["work", "vol1", "vol1", "out"] = none ∧
      o.host.tree.get? ["work", "vol1"] = none ∧ o.host.tree.get? ["work"] = some .directory ∧
      o.host.tree.get? ["etc", "kept"] = some (.file "here") ∧
      (remove o.host).answer = .ok () ∧ (remove o.host).host.tree = o.host.tree := by
  have hway : linked.Passable [] (controller.working.child "vol1") := by
    unfold Tree.Passable
    decide +kernel
  have hworking : linked.get? ["work"] = some .directory := by decide +kernel
  have hvolume : linked.get? ["work", "vol1", "vol1"] = some .directory := by decide +kernel
  have hkept : linked.get? ["etc", "kept"] = some (.file "here") := by decide +kernel
  have hpoint : ((controller.deleteVolume ⟨"s1/base/vol1"⟩).run .inert
      ⟨[], linked, ()⟩).host.tree.get? ["work", "vol1"] = none := by decide +kernel
  -- From here on it is any tree, so that nothing is evaluated before its time.
  generalize linked = t at *
  have hstraight : controller.Straight ⟨"s1", "base", "vol1"⟩ t [] :=
    ⟨normal_start (by simp), by decide, ⟨by decide, by decide, by decide⟩, hway.unlinked,
      Tree.checkOperand_iff.2 (by decide +kernel), by decide +kernel⟩
  have hmade : ((Procedure.createDirectories (controller.working.child "vol1")).run .inert
      ⟨[], t, ()⟩).answer = .ok () := by
    have hsame : t.made [] (controller.working.child "vol1") = (.ok (), t) :=
      hstraight.made_of_passable hway
    rw [Procedure.run_createDirectories, hsame]
  obtain ⟨hremoved, -, hagain⟩ := @deletion_is_exact Unit controller .inert ⟨"s1", "base", "vol1"⟩
    ⟨"s1/base/vol1"⟩ ⟨[], t, ()⟩ Mounter.keepsFiles_inert Mounter.neverFails_inert
    hstraight.normal hstraight.down (by rfl) hstraight.unlinked hstraight.usable hmade
  obtain ⟨hanswer, hwithout⟩ := hremoved fun contents hfile => by
    cases hvolume.symm.trans hfile
  have hagain' := hagain hanswer 0
  simp only [Nat.repeat] at hagain'
  dsimp only at hwithout
  have hlink := hwithout.volume ["work", "vol1", "vol1", "out"] (by decide +kernel)
  have hworking' := hwithout.elsewhere ["work"] (by decide +kernel) (by decide +kernel)
  have hkept' := hwithout.elsewhere ["etc", "kept"] (by decide +kernel) (by decide +kernel)
  rw [hworking] at hworking'
  rw [hkept] at hkept'
  simp only [reduceCtorEq, and_false, if_false] at hworking' hkept'
  dsimp only at hanswer ⊢
  exact ⟨hanswer, hlink, hpoint, hworking', hkept', hagain'⟩

end Sample
end Controller
end NfsProvisioner
