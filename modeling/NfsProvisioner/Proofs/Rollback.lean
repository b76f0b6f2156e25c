import NfsProvisioner.Proofs.Creation

/-!
# An export that cannot be attached

The mount point is made before an export is attached at it, with all that is missing above it. If
the export cannot be attached then the mount point alone is removed again, and only if nothing is in
it. So what a failed attachment leaves can be told from the tree before (`Tree.RolledBack`): the
directories down to the working directory are there, and below that nothing has changed but a mount
point that was empty, which is gone.
-/
namespace NfsProvisioner

variable {σ : Type}

namespace Tree

/-- The second tree is the first one with all directories on the way to the working directory, and
without the entry `name` of that directory unless something is in it. -/
structure RolledBack (t u : Tree) (cwd : Location) (working : Path) (name : String) : Prop where
  removed : (∀ r, r ≠ [] → t.get? (working.location cwd ++ [name] ++ r) = none) →
    u.get? (working.location cwd ++ [name]) = none
  kept : (∃ r, r ≠ [] ∧ t.get? (working.location cwd ++ [name] ++ r) ≠ none) →
    u.get? (working.location cwd ++ [name]) = t.get? (working.location cwd ++ [name])
  elsewhere : ∀ k, k ≠ working.location cwd ++ [name] →
    u.get? k = if k ∈ working.way cwd ∧ t.get? k = none then some .directory else t.get? k

variable {t u : Tree} {cwd : Location} {working p : Path} {name : String}

/-- Above a directory, everything is a directory. -/
theorem passable_of_directory (hdown : ".." ∉ p.names)
    (h : t.get? (p.location cwd) = some .directory) : t.Passable cwd p := by
  intro l hl
  obtain ⟨r, hr⟩ := Path.prefix_of_mem_way hdown hl
  rw [← hr] at h
  by_cases hnil : r = []
  · rwa [hnil, List.append_nil] at h
  · exact get?_of_append hnil h

/-- Making a mount point and removing it again. -/
theorem rolledBack_of_made (hnormal : working.Normal) (hdown : ".." ∉ working.names)
    (hname : PlainName name) (hlinks : t.Unlinked cwd (working.child name))
    (hmade : t.made cwd (working.child name) = (.ok (), u)) :
    t.RolledBack (u.cleared cwd (working.child name)) cwd working name := by
  have hpoint : (working.child name).location cwd = working.location cwd ++ [name] :=
    Path.location_child hname.ne_up
  have hnormal' : (working.child name).Normal := hnormal.child hname.isName
  have hcompleted : t.Completed u ((working.child name).way cwd) :=
    completed_of_made hnormal' hlinks hmade
  -- Nothing is made in the mount point, so it is empty after it has been made if it was before.
  have hbelow (r : Location) (hr : r ≠ []) : u.get? (working.location cwd ++ [name] ++ r) =
      t.get? (working.location cwd ++ [name] ++ r) := by
    rw [← hpoint]
    exact hcompleted.beyond (Path.not_up_mem_child hdown hname.ne_up) hr
  obtain ⟨husable, hpass⟩ := passable_of_made hnormal' hlinks hmade
  obtain ⟨habove, hdirectory⟩ := (passable_child_iff hname.ne_up).1 hpass
  have hcleared := (habove.arrives hnormal husable).cleared_cases (husable.takes hname.ne_up)
    hdirectory
  refine ⟨fun hbare => ?_, fun ⟨r, hr, hfull⟩ => ?_, fun k hk => ?_⟩
  · rcases hcleared with ⟨⟨r, hr, hfull⟩, -⟩ | ⟨-, hput⟩
    · rw [hbelow r hr, hbare r hr] at hfull
      exact absurd rfl hfull
    · rw [hput, if_pos rfl]
  · rcases hcleared with ⟨-, hsame⟩ | ⟨hbare, -⟩
    · obtain ⟨e, he⟩ := Option.ne_none_iff_exists'.1 hfull
      rw [hsame, hdirectory, get?_of_append hr he]
    · rw [← hbelow r hr, hbare r hr] at hfull
      exact absurd rfl hfull
  · have hkept : (u.cleared cwd (working.child name)).get? k = u.get? k := by
      rcases hcleared with ⟨-, hsame⟩ | ⟨-, hput⟩
      · rw [hsame]
      · rw [hput, if_neg hk]
    rw [hkept, hcompleted]
    simp only [Path.mem_way_child hname.ne_up, hk, or_false]

namespace RolledBack

variable (h : t.RolledBack u cwd working name)
include h

/-- Where all of the way to the working directory was there, nothing but the mount point can
differ. -/
theorem eq_of_passable (hpass : t.Passable cwd working)
    (hpoint : u.get? (working.location cwd ++ [name]) = t.get? (working.location cwd ++ [name])) :
    u = t := by
  apply ext_get?
  intro k
  by_cases hk : k = working.location cwd ++ [name]
  · rw [hk, hpoint]
  · rw [h.elsewhere k hk, if_neg]
    rintro ⟨hmem, hnone⟩
    rw [hpass k hmem] at hnone
    cases hnone

/-- What was in the mount point stays, and so does everything else. -/
theorem eq_of_occupied (hdown : ".." ∉ working.names)
    (hfull : ∃ r, r ≠ [] ∧ t.get? (working.location cwd ++ [name] ++ r) ≠ none) : u = t := by
  refine h.eq_of_passable ?_ (h.kept hfull)
  obtain ⟨r, -, hthere⟩ := hfull
  rw [List.append_assoc] at hthere
  exact passable_of_below hdown (by simp) hthere

/-- A mount point that was made for the attachment alone leaves no trace. -/
theorem eq_of_free (hdown : ".." ∉ working.names)
    (hworking : t.get? (working.location cwd) = some .directory)
    (hfree : t.get? (working.location cwd ++ [name]) = none) : u = t := by
  refine h.eq_of_passable (passable_of_directory hdown hworking) ?_
  rw [hfree]
  exact h.removed fun r _ => get?_append_of_none hfree r

end RolledBack
end Tree

namespace Controller

variable {c : Controller} {m : Mounter σ} {p : Placement} {r : VolumeRequest} {e : Error}
  {host : Host σ}

/-- A request whose export cannot be attached is answered with the error of the mounter. Nothing is
detached, and nothing is logged beside what the mounter logs itself. If the mounter has left the
files alone then those are as before, with the directories that were missing down to the working
directory, and without the mount point if that was empty. So nothing has changed at all if something
was in the mount point, or if there was a working directory and no mount point. -/
theorem failed_attachment_is_rolled_back (hnormal : c.working.Normal)
    (hdown : ".." ∉ c.working.names) (hscreen : c.screen r = .ok p)
    (hlinks : host.tree.Unlinked host.cwd (c.working.child p.name)) :
    let target := c.working.child p.name
    let made := (Procedure.createDirectories target).run m host
    let reply := m.attach target p.server p.baseSharePath made.host
    made.answer = .ok () → reply.result = .error e → reply.tree = made.host.tree →
    let o := (c.serve r).run m host
    let point := c.working.location host.cwd ++ [p.name]
    o.answer = .error e ∧ o.calls = [.attach target p.server p.baseSharePath] ∧
      o.log = reply.log ∧ host.tree.RolledBack o.host.tree host.cwd c.working p.name ∧
      ((∃ r, r ≠ [] ∧ host.tree.get? (point ++ r) ≠ none) → o.host.tree = host.tree) ∧
      (host.tree.get? (c.working.location host.cwd) = some .directory →
        host.tree.get? point = none → o.host.tree = host.tree) := by
  intro target made reply hmade hfailed hkept o point
  have hserve : o = ⟨.error e, ((made.host.after reply).removeDirectory target).2,
      .called (.attach target p.server p.baseSharePath) :: reply.log.map .logged⟩ := by
    have hcourse := run_serve_of_screen hscreen m host
    dsimp only [mountPoint] at hcourse
    rw [hmade] at hcourse
    dsimp only at hcourse
    rw [hfailed] at hcourse
    exact hcourse
  have hrun : made = ⟨(host.tree.made host.cwd target).1,
      { host with tree := (host.tree.made host.cwd target).2 }, []⟩ :=
    Procedure.run_createDirectories m target host
  have hmade' : host.tree.made host.cwd target = (.ok (), made.host.tree) := by
    rw [hrun] at hmade ⊢
    exact Prod.ext hmade rfl
  have hcwd : made.host.cwd = host.cwd := by rw [hrun]
  have htree : o.host.tree = made.host.tree.cleared host.cwd target := by
    rw [hserve, Host.removeDirectory_eq_cleared]
    change reply.tree.cleared made.host.cwd target = _
    rw [hkept, hcwd]
  have hback : host.tree.RolledBack o.host.tree host.cwd c.working p.name := by
    rw [htree]
    exact Tree.rolledBack_of_made hnormal hdown (plain_of_screen hscreen).name hlinks hmade'
  refine ⟨by rw [hserve], ?_, ?_, hback, hback.eq_of_occupied hdown, hback.eq_of_free hdown⟩
  · rw [hserve]
    simp [Outcome.calls, -List.filterMap_map]
  · rw [hserve]
    simp [Outcome.log, -List.filterMap_map]

namespace Sample

/-- A mounter that can attach nothing. -/
def refusing : Mounter Unit :=
  Mounter.inert.failing (some (.internal "no route to host")) none

/-- A volume that cannot be attached is asked for where there is a working directory and nothing in
it, and deleted where the working directory is missing. -/
theorem refused_attachment_is_undone :
    let create := (controller.serve (.create Sample.request)).run refusing ready
    let delete := (controller.serve (.delete ⟨"s1/base/vol1"⟩)).run refusing ⟨[], .bare, ()⟩
    create.answer = .error (.internal "no route to host") ∧
      create.calls = [.attach (controller.working.child "vol1") "s1" "/base"] ∧
      create.log = [] ∧ create.host.tree = ready.tree ∧
      delete.answer = .error (.internal "no route to host") ∧
      delete.host.tree.get? ["work"] = some .directory ∧
      delete.host.tree.get? ["work", "vol1"] = none := by
  dsimp only
  have hfailed (r : VolumeRequest) (host : Host Unit)
      (hscreen : controller.screen r = .ok ⟨"s1", "base", "vol1"⟩)
      (hlinks : host.tree.Unlinked host.cwd (controller.working.child "vol1")) :=
    @failed_attachment_is_rolled_back Unit controller refusing _ r (.internal "no route to host")
      host (normal_start (by simp)) (by decide) hscreen hlinks
  have hok (made : Except Fault Unit) (h : made.isOk = true) : made = .ok () := by
    cases made with
    | ok => rfl
    | error fault => cases h
  have hready : ready.tree.Unlinked ready.cwd (controller.working.child "vol1") := by
    have hlinkless : ∀ l ∈ (controller.working.child "vol1").way [],
        ready.tree.get? l ∈ [none, some .directory] := by
      decide +kernel
    intro l hl target hlink
    have hmem := hlinkless l hl
    rw [hlink] at hmem
    simp at hmem
  have hpoint : controller.working.location [] ++ ["vol1"] = ["work", "vol1"] := by
    decide +kernel
  obtain ⟨hanswer, hcalls, hlog, -, -, hrestored⟩ :=
    hfailed (.create Sample.request) ready (by rfl) hready (hok _ (by decide +kernel)) rfl rfl
  obtain ⟨hanswer', -, -, hback, -⟩ :=
    hfailed (.delete ⟨"s1/base/vol1"⟩) ⟨[], .bare, ()⟩ (by rfl)
      (fun l _ => (Tree.open_bare l).linkless) (hok _ (by decide +kernel)) rfl rfl
  refine ⟨hanswer, hcalls, hlog, hrestored (by decide +kernel) (by decide +kernel), hanswer', ?_,
    ?_⟩
  · have hwork := hback.elsewhere ["work"] (by decide +kernel)
    rw [if_pos (by decide +kernel)] at hwork
    exact hwork
  · have hgone := hback.removed fun r _ => Tree.get?_bare (by simp)
    dsimp only at hgone
    rw [hpoint] at hgone
    exact hgone

end Sample
end Controller
end NfsProvisioner
