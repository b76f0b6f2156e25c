import NfsProvisioner.Proofs.Exposure

/-!
# What a request does to the volumes

On an orderly host a request for a volume works on the volume of that name on whatever export is at
the mount point, which is the one left attached there by an earlier request if there is one. It
makes or removes the directory of that volume or changes nothing at all, and the host stays orderly.
-/
namespace NfsProvisioner

namespace VolumeRequest

/-- What has to stand where the volume goes for the work on it to succeed. -/
def needs : VolumeRequest → Option Entry
  | create _ => none
  | delete _ => some .directory

/-- What stands there when the work has succeeded. -/
def leaves : VolumeRequest → Option Entry
  | create _ => some .directory
  | delete _ => none

/-- Why the work is refused if something else stands there. -/
def refusal : VolumeRequest → Fault
  | create _ => .alreadyExists
  | delete _ => .notFound

theorem needs_ne_leaves (r : VolumeRequest) : r.needs ≠ r.leaves := by
  cases r <;> exact fun h => by cases h

end VolumeRequest

namespace Exports

variable {exports : Exports} {working : Path}
  {host host' host'' : Host (List Attachment)} {p q : Placement} {r : VolumeRequest}

/-- The work of a request on one volume. Only that volume changes, and only if the work
succeeds. -/
structure Worked (exports : Exports) (r : VolumeRequest) (q : Placement) (path : Path)
    (host : Host (List Attachment)) (answer : Except Fault Unit)
    (host' : Host (List Attachment)) : Prop where
  ok_iff : answer = .ok () ↔
    path.Usable ∧ host.tree.get? (exports.backing host q) = r.needs
  refused : path.Usable → host.tree.get? (exports.backing host q) ≠ r.needs →
    answer = .error r.refusal
  leaves : answer = .ok () → ∀ s,
    host'.tree.get? (exports.backing host' q ++ s) = if s = [] then r.leaves else none
  others : ∀ w, w ≠ q → ∀ s, host'.tree.get? (exports.backing host' w ++ s) =
    host.tree.get? (exports.backing host w ++ s)
  kept : answer ≠ .ok () → exports.SameVolumes host host'

namespace Worked

variable {path : Path} {answer : Except Fault Unit}

theorem after (h : exports.Worked r q path host' answer host'')
    (hsame : exports.SameVolumes host host') : exports.Worked r q path host answer host'' := by
  have hq := hsame q []
  rw [List.append_nil, List.append_nil] at hq
  refine ⟨hq ▸ h.ok_iff, hq ▸ h.refused, h.leaves, fun w hw s => ?_, fun hne => ?_⟩
  · exact (h.others w hw s).trans (hsame w s)
  · exact hsame.trans (h.kept hne)

theorem before (h : exports.Worked r q path host answer host')
    (hsame : exports.SameVolumes host' host'') : exports.Worked r q path host answer host'' := by
  refine ⟨h.ok_iff, h.refused, fun hok s => ?_, fun w hw s => ?_, fun hne => ?_⟩
  · exact (hsame q s).trans (h.leaves hok s)
  · exact (hsame w s).trans (h.others w hw s)
  · exact (h.kept hne).trans hsame

end Worked

/-- What is left when the work on a volume at its mount point is over. -/
structure Finished (exports : Exports) (working : Path) (r : VolumeRequest) (q : Placement)
    (host : Host (List Attachment)) (o : Outcome (List Attachment) (Except Fault Unit)) : Prop where
  host_eq : o.host = { host with tree := o.host.tree }
  orderly : exports.Orderly working o.host
  passable : o.host.tree.Passable host.cwd (working.child q.name)
  aside : exports.Aside working q.name host o.host
  worked : exports.Worked r q ((working.child q.name).child q.name) host o.answer o.host

namespace Orderly

variable (hapart : exports.Apart working host.cwd)

/-- The directory of a volume whose export is attached at the volume's mount point. -/
theorem backing_of_mem (h : exports.Orderly working host)
    (hmem : exports.attachment working q ∈ host.mounts) :
    exports.backing host q =
      (working.child q.name).location host.cwd ++ [q.name] := by
  rw [backing, h.site_of_mem hmem rfl, location_target (h.holds hmem).plain]

include hapart in
/-- What a change of files inside a volume leaves of the way to its mount point. -/
theorem passable_inside (h : exports.Orderly working host) (hp : p.Plain)
    (hpass : host.tree.Passable host.cwd (working.child p.name)) {t' : Tree}
    (hsame : ∀ l, ¬ exports.backing host q <+: l → t'.get? l = host.tree.get? l) :
    t'.Passable host.cwd (working.child p.name) := by
  intro l hl
  rw [hsame]
  · exact hpass l hl
  · exact h.not_backing_of_mem_way_target hapart hp hl

/-- Refused work changes nothing. -/
theorem finished_refused (h : exports.Orderly working host)
    (hpass : host.tree.Passable host.cwd (working.child q.name)) {fault : Fault}
    (hwhy : ((working.child q.name).child q.name).Usable →
      host.tree.get? (exports.backing host q) ≠ r.needs ∧ fault = r.refusal) :
    exports.Finished working r q host ⟨.error fault, host, []⟩ := by
  refine ⟨rfl, h, hpass, .refl, ⟨?_, ?_, ?_, fun _ _ _ => rfl, fun _ => .refl⟩⟩
  · constructor
    · intro hok
      cases hok
    · rintro ⟨husable, hneeds⟩
      exact absurd hneeds (hwhy husable).1
  · intro husable _
    rw [(hwhy husable).2]
  · intro hok
    cases hok

include hapart

/-- Work that is not refused changes the volume alone. -/
theorem finished_done (h : exports.Orderly working host)
    (hmem : exports.attachment working q ∈ host.mounts)
    (hpass : host.tree.Passable host.cwd (working.child q.name))
    (husable : ((working.child q.name).child q.name).Usable)
    (hneeds : host.tree.get? (exports.backing host q) = r.needs) {tree : Tree}
    (hsame : ∀ l, ¬ exports.backing host q <+: l → tree.get? l = host.tree.get? l)
    (hleaves : ∀ s, tree.get? (exports.backing host q ++ s) = if s = [] then r.leaves else none) :
    exports.Finished working r q host ⟨.ok (), { host with tree }, []⟩ := by
  have hq := (h.holds hmem).plain
  have haside : exports.Aside working q.name host { host with tree := tree } := by
    refine ⟨rfl, fun l _ _ hpoint _ => hsame l fun hin => hpoint ?_⟩
    rw [backing, h.site_of_mem hmem rfl] at hin
    exact (List.prefix_append _ _).trans hin
  have hself := hleaves []
  rw [List.append_nil, if_pos rfl] at hself
  have hopen : tree.Open (exports.backing host q) := by
    unfold Tree.Open
    rw [hself]
    cases r
    · exact .inr rfl
    · exact .inl rfl
  obtain ⟨horderly, hothers⟩ := h.inside hapart q hsame hopen
  refine ⟨rfl, horderly, h.passable_inside hapart hq hpass hsame, haside,
    ⟨?_, ?_, ?_, hothers, ?_⟩⟩
  · exact ⟨fun _ => ⟨husable, hneeds⟩, fun _ => rfl⟩
  · intro _ hne
    exact absurd hneeds hne
  · exact fun _ => hleaves
  · intro hne
    exact absurd rfl hne

variable (m : Mounter (List Attachment))

/-- Making the directory of a volume. -/
theorem finished_create (h : exports.Orderly working host)
    (hmem : exports.attachment working q ∈ host.mounts)
    (hpass : host.tree.Passable host.cwd (working.child q.name))
    (request : CreateVolumeRequest) :
    exports.Finished working (.create request) q host
      ((VolumeRequest.work (.create request) ((working.child q.name).child q.name)).run m
        host) := by
  have hq := (h.holds hmem).plain
  have hbacking := h.backing_of_mem hmem
  have hnormal := normal_target hapart hq
  unfold VolumeRequest.work Procedure.run Host.makeDirectory Host.change
  cases hmade : host.tree.makeDirectory host.cwd ((working.child q.name).child q.name) with
  | ok tree =>
    obtain ⟨-, husable, -, hfree, hput⟩ :=
      Tree.create_child_ok hnormal (h.clear_target hq).unlinked hmade
    rw [← hbacking] at hfree hput
    have hneeds : host.tree.get? (exports.backing host q) =
        (VolumeRequest.create request).needs := hfree
    refine h.finished_done hapart hmem hpass husable hneeds (fun l hl => ?_) fun s => ?_
    · refine (hput l).trans (if_neg ?_)
      rintro rfl
      exact hl (List.prefix_refl _)
    · rw [hput]
      by_cases hs : s = []
      · rw [hs, List.append_nil, if_pos rfl, if_pos rfl]
        rfl
      · rw [if_neg fun heq => hs (List.append_right_eq_self.1 heq), if_neg hs]
        exact Tree.get?_append_of_none hfree s
  | error fault =>
    refine h.finished_refused hpass fun husable => ?_
    have htaken : host.tree.get? ((working.child q.name).location host.cwd ++ [q.name]) ≠ none := by
      intro hfree
      obtain ⟨tree, hok, -⟩ := Tree.create_child_of_free .directory hnormal hq.name.ne_up husable
        hpass hfree
      rw [Tree.makeDirectory, hok] at hmade
      cases hmade
    have herror := Tree.create_child_of_taken .directory hnormal hq.name.ne_up husable hpass htaken
    rw [Tree.makeDirectory, herror] at hmade
    rw [hbacking]
    exact ⟨htaken, (Except.error.inj hmade).symm⟩

/-- Removing the directory of a volume. -/
theorem finished_delete (h : exports.Orderly working host)
    (hmem : exports.attachment working q ∈ host.mounts)
    (hpass : host.tree.Passable host.cwd (working.child q.name)) (id : VolumeId) :
    exports.Finished working (.delete id) q host
      ((VolumeRequest.work (.delete id) ((working.child q.name).child q.name)).run m host) := by
  have hq := (h.holds hmem).plain
  have hbacking := h.backing_of_mem hmem
  have hnormal := normal_target hapart hq
  have hway : ∀ l ∈ (working.child q.name).way host.cwd,
      ¬ (working.child q.name).location host.cwd ++ [q.name] <+: l := by
    intro l hl
    rw [← hbacking]
    exact h.not_backing_of_mem_way_target hapart hq hl
  have hvolume := h.volumes q
  unfold VolumeRequest.work Procedure.run Host.removeAll Host.change
  cases hremoved : host.tree.removeAll host.cwd ((working.child q.name).child q.name) with
  | ok tree =>
    have husable := Tree.removeAll_child_usable hnormal (h.clear_target hq).unlinked hremoved
    rcases hvolume with hmissing | hthere
    · rw [hbacking] at hmissing
      rw [Tree.removeAll_child_of_missing hnormal hq.name.ne_up husable hpass hmissing] at hremoved
      cases hremoved
    · have hthere' := hthere
      rw [hbacking] at hthere'
      obtain ⟨tree', hok, hpruned⟩ :=
        Tree.removeAll_child_of_directory hnormal hq.name.ne_up husable hpass hthere' hway
      obtain rfl : tree' = tree := Except.ok.inj (hok.symm.trans hremoved)
      rw [← hbacking] at hpruned
      have hneeds : host.tree.get? (exports.backing host q) =
          (VolumeRequest.delete id).needs := hthere
      refine h.finished_done hapart hmem hpass husable hneeds
        (fun l hl => (hpruned l).trans (if_neg hl)) fun s => ?_
      rw [hpruned, if_pos (List.prefix_append _ s)]
      split <;> rfl
  | error fault =>
    refine h.finished_refused hpass fun husable => ?_
    rw [hbacking] at hvolume ⊢
    rcases hvolume with hmissing | hthere
    · rw [Tree.removeAll_child_of_missing hnormal hq.name.ne_up husable hpass hmissing] at hremoved
      rw [hmissing]
      refine ⟨fun heq => ?_, (Except.error.inj hremoved).symm⟩
      cases heq
    · obtain ⟨tree, hok, -⟩ :=
        Tree.removeAll_child_of_directory hnormal hq.name.ne_up husable hpass hthere hway
      rw [hok] at hremoved
      cases hremoved

/-- Work on the directory of a volume at its mount point. -/
theorem finished_work (h : exports.Orderly working host)
    (hmem : exports.attachment working q ∈ host.mounts)
    (hpass : host.tree.Passable host.cwd (working.child q.name)) (r : VolumeRequest) :
    exports.Finished working r q host
      ((r.work ((working.child q.name).child q.name)).run m host) := by
  cases r with
  | create request => exact h.finished_create hapart m hmem hpass request
  | delete id => exact h.finished_delete hapart m hmem hpass id

/-- Removing a mount point, if that can be done. -/
theorem remove_mount_point (h : exports.Orderly working host) (hp : p.Plain) :
    let o := (Procedure.removeMountPoint (working.child p.name)).run m host
    o.host = { host with tree := o.host.tree } ∧ exports.Orderly working o.host ∧
      exports.SameVolumes host o.host ∧ exports.Aside working p.name host o.host ∧
      ((working.child p.name).Usable → host.tree.Passable host.cwd (working.child p.name) →
        (∀ r, r ≠ [] → host.tree.get? (working.location host.cwd ++ [p.name] ++ r) = none) →
        o.host.tree.get? (working.location host.cwd ++ [p.name]) = none) := by
  intro o
  have ho : o = ⟨(), (host.removeDirectory (working.child p.name)).2, []⟩ := rfl
  unfold Host.removeDirectory Host.change at ho
  cases hremoved : host.tree.removeDirectory host.cwd (working.child p.name) with
  | ok tree =>
    rw [hremoved] at ho
    have hput :=
      (Tree.removeDirectory_child_ok hapart.working_normal h.way.unlinked hremoved).2.2.2.2.2
    obtain ⟨horderly, hsame, haside⟩ := h.remove_point hapart hput
    rw [ho]
    exact ⟨rfl, horderly, hsame, haside, fun _ _ _ => (hput _).trans (if_pos rfl)⟩
  | error fault =>
    rw [hremoved] at ho
    rw [ho]
    refine ⟨rfl, h, .refl, .refl, fun husable hpass hbare => ?_⟩
    obtain ⟨tree, hok, -⟩ := Tree.removeDirectory_child_of_bare hapart.working_normal hp.name.ne_up
      husable hpass hbare
    rw [hok] at hremoved
    cases hremoved

omit m in
/-- Attaching before the work, which may fail. -/
theorem attach_failing_spec (h : exports.Orderly working host) (hp : p.Plain)
    (hpass : host.tree.Passable host.cwd (working.child p.name))
    (attachError detachError : Option Error) :
    let reply := (exports.mounter.failing attachError detachError).attach (working.child p.name)
      p.server p.baseSharePath host
    let host' := host.after reply
    exports.Orderly working host' ∧ exports.SameVolumes host host' ∧
      exports.Aside working p.name host host' ∧
      (reply.result ≠ .ok () → host'.mounts = host.mounts) ∧
      (reply.result = .ok () → attachError = none ∧
        host'.tree.Passable host.cwd (working.child p.name) ∧
        ∃ q, q.name = p.name ∧ exports.attachment working q ∈ host'.mounts ∧
          (exports.attachment working q ∈ host.mounts ∧ host' = host ∨
            q = p ∧ host'.mounts = host.mounts ++ [exports.attachment working p] ∧
              ∀ a ∈ host.mounts, a.target ≠ working.child p.name)) := by
  intro reply host'
  cases attachError with
  | some e => exact ⟨h, .refl, .refl, fun _ => rfl, fun hok => by cases hok⟩
  | none =>
    obtain ⟨horderly, hsame, haside, herror, hok⟩ := h.attach_spec hapart hp hpass
    refine ⟨horderly, hsame, haside, fun hne => ?_, fun hresult => ⟨rfl, hok hresult⟩⟩
    cases hresult :
      (exports.attach (working.child p.name) p.server p.baseSharePath host).result with
    | error e => exact herror e hresult
    | ok => exact absurd hresult hne

/-- Detaching after the work, which may fail, and removing the mount point. -/
theorem release_spec (h : exports.Orderly working host)
    (hmem : exports.attachment working q ∈ host.mounts)
    (hpass : host.tree.Passable host.cwd (working.child q.name))
    (attachError detachError : Option Error) :
    let o := (Procedure.release (working.child q.name)).run
      (exports.mounter.failing attachError detachError) host
    exports.Orderly working o.host ∧ exports.SameVolumes host o.host ∧
      exports.Aside working q.name host o.host ∧
      (detachError ≠ none → o.host.mounts = host.mounts) ∧
      (detachError = none →
        o.host.mounts = host.mounts.filter (·.target != working.child q.name) ∧
        o.host.tree.get? (working.location host.cwd ++ [q.name]) = none) := by
  intro o
  cases detachError with
  | some e =>
    have ho : o.host = host := rfl
    rw [ho]
    exact ⟨h, .refl, .refl, fun _ => rfl, fun hnone => by cases hnone⟩
  | none =>
    have hq := h.holds hmem
    obtain ⟨hok, horderly, hsame, haside, hmounts, hpass', hbare⟩ :=
      h.detach_spec hapart hmem hpass
    have ho : o.host = ((Procedure.removeMountPoint (working.child q.name)).run
        (exports.mounter.failing attachError none)
        (host.after (detach (working.child q.name) host))).host := by
      show ((Procedure.release (working.child q.name)).run
        (exports.mounter.failing attachError none) host).host = _
      rw [Procedure.run_release]
      unfold Mounter.failing mounter
      dsimp only
      rw [hok]
      rfl
    obtain ⟨hhost, horderly', hsame', haside', hgone⟩ := remove_mount_point (by exact hapart)
      (exports.mounter.failing attachError none) horderly hq.plain
    rw [ho]
    refine ⟨horderly', hsame.trans hsame', haside.trans haside', fun hne => absurd rfl hne,
      fun _ => ⟨?_, hgone hq.target_usable hpass' hbare⟩⟩
    rw [hhost]
    exact hmounts

end Orderly
end Exports
end NfsProvisioner
