import NfsProvisioner.Proofs.Visit

/-!
# Isolation of volumes

A mount point is named after a volume, and volumes of one name on different exports share it. That
is harmless as long as exports are detached. If detaching fails then the export stays attached, and
since attaching trusts a target where something is attached already, the next request for a volume
of that name works on that export, whichever export it is meant for. `isolated_iff_not_trespasses`
says exactly when a request does damage in this way, for every run of requests in which any call to
the mounter may fail. Nothing of the kind happens in a run in which detaching never fails.
-/
namespace NfsProvisioner

namespace Exports

/-- A host on which nothing has been done yet. -/
structure Untouched (exports : Exports) (working : Path) (host : Host (List Attachment)) :
    Prop where
  start : host.tree.get? (working.start host.cwd) = some .directory
  way : host.tree.Clear host.cwd working
  home : host.tree.Clear host.cwd exports.home
  working_bare : ∀ r, r ≠ [] → host.tree.get? (working.location host.cwd ++ r) = none
  home_bare : ∀ r, r ≠ [] → host.tree.get? (exports.home.location host.cwd ++ r) = none
  mounts : host.mounts = []

/-- Changes inside volumes that are there, as their users make them. -/
def Used (exports : Exports) (host : Host (List Attachment)) (tree : Tree) : Prop :=
  ∀ l, tree.get? l = host.tree.get? l ∨
    ∃ p r, r ≠ [] ∧ host.tree.get? (exports.backing host p) = some .directory ∧
      l = exports.backing host p ++ r

variable {exports : Exports} {working : Path} {host : Host (List Attachment)} {tree : Tree}

theorem Untouched.orderly (h : exports.Untouched working host) :
    exports.Orderly working host where
  start := h.start
  way := h.way
  points name := .inl (h.working_bare [name] (by simp))
  home := h.home
  servers server := .inl (h.home_bare [server] (by simp))
  vaults server baseDir := .inl (h.home_bare [server, baseDir] (by simp))
  volumes p := by
    have hsite : exports.site host p =
        exports.home.location host.cwd ++ [p.server, p.baseDir] := by
      unfold site
      rw [h.mounts]
      rfl
    rw [backing, hsite, List.append_assoc]
    exact .inl (h.home_bare _ (by simp))
  attached a ha := by
    rw [h.mounts] at ha
    cases ha
  distinct a ha := by
    rw [h.mounts] at ha
    cases ha

/-- Nothing has been done where there are no files. -/
theorem untouched_bare (exports : Exports) (working : Path) :
    exports.Untouched working ⟨[], Tree.bare, []⟩ := by
  have hstart : working.start [] = [] := by
    unfold Path.start
    cases working.anchor <;> rfl
  constructor
  · show Tree.bare.get? (working.start []) = _
    rw [hstart]
    exact Tree.get?_nil _
  · exact fun l _ => Tree.open_bare l
  · exact fun l _ => Tree.open_bare l
  · intro r hr
    exact Tree.get?_bare fun hnil => hr (List.append_eq_nil_iff.1 hnil).2
  · intro r hr
    exact Tree.get?_bare fun hnil => hr (List.append_eq_nil_iff.1 hnil).2
  · rfl

/-- The use of volumes keeps a host orderly. -/
theorem Orderly.used (h : exports.Orderly working host) (hapart : exports.Apart working host.cwd)
    (hused : exports.Used host tree) : exports.Orderly working { host with tree } := by
  have hsame : ∀ l, (∀ p, ¬ exports.backing host p <+: l) → tree.get? l = host.tree.get? l := by
    intro l hl
    rcases hused l with heq | ⟨p, r, -, -, rfl⟩
    · exact heq
    · exact absurd (List.prefix_append _ r) (hl p)
  apply h.with_tree hapart
  · intro l hl hopen
    rcases hused l with heq | ⟨p, r, hr, -, heq⟩
    · unfold Tree.Open
      rw [heq]
      exact hopen
    · exact absurd heq (hl p r hr)
  · rw [hsame _ fun p => h.not_backing_of_mem_way hapart Path.start_mem_way]
    exact h.start
  · intro p hp
    rw [hsame _ fun q => h.not_backing_home hapart (s := [p.server]) (Nat.le_succ 1)]
    exact (h.holds hp).server
  · intro p hp
    rw [hsame _ fun q => h.not_backing_home hapart (s := [p.server, p.baseDir]) (Nat.le_refl 2)]
    exact (h.holds hp).away

end Exports

namespace Controller

variable {c : Controller} {exports : Exports} {cwd : Location}
  {faults : Option Error → Option Error → Prop}

/-- The hosts that runs of requests lead to. With each request all attaching, or all detaching, may
fail as far as `faults` allows, and between requests volumes may be used. -/
inductive Reachable (exports : Exports) (c : Controller) (cwd : Location)
    (faults : Option Error → Option Error → Prop) : Host (List Attachment) → Prop where
  | start {host : Host (List Attachment)} :
    host.cwd = cwd → exports.Untouched c.working host → Reachable exports c cwd faults host
  | serve {host : Host (List Attachment)} (r : VolumeRequest)
    {attachError detachError : Option Error} :
    Reachable exports c cwd faults host → faults attachError detachError →
      Reachable exports c cwd faults
        ((c.serve r).run (exports.mounter.failing attachError detachError) host).host
  | use {host : Host (List Attachment)} {tree : Tree} :
    Reachable exports c cwd faults host → exports.Used host tree →
      Reachable exports c cwd faults { host with tree }

/-- A request that leaves every other volume alone, and that makes its own volume in its own export
if it is answered with a volume. -/
structure Isolated (exports : Exports) (v : Placement) (host : Host (List Attachment))
    (o : Outcome (List Attachment) VolumeAnswer) : Prop where
  others : ∀ w, w ≠ v → ∀ s, o.host.tree.get? (exports.backing o.host w ++ s) =
    host.tree.get? (exports.backing host w ++ s)
  made : ∀ volume, o.answer = .ok (some volume) →
    host.tree.get? (exports.backing host v) = none ∧
      o.host.tree.get? (exports.backing o.host v) = some .directory

/-- At the mount point of a volume another export is attached, and what a request would do to the
volume there that has the same name can be done. -/
def Trespasses (exports : Exports) (c : Controller) (r : VolumeRequest) (v : Placement)
    (attachError : Option Error) (host : Host (List Attachment)) : Prop :=
  attachError = none ∧ (c.volumePath v).Usable ∧
    ∃ w, w ≠ v ∧ w.name = v.name ∧ exports.attachment c.working w ∈ host.mounts ∧
      host.tree.get? (exports.backing host w) = r.needs

/-- What a request leaves of an orderly host. -/
theorem orderly_serve {host : Host (List Attachment)} (hapart : exports.Apart c.working host.cwd)
    (h : exports.Orderly c.working host) (r : VolumeRequest)
    (attachError detachError : Option Error) :
    let o := (c.serve r).run (exports.mounter.failing attachError detachError) host
    o.host.cwd = host.cwd ∧ exports.Orderly c.working o.host ∧
      (detachError = none → ∀ a ∈ o.host.mounts, a ∈ host.mounts) := by
  rw [run_serve]
  cases hscreen : c.screen r with
  | error answer => exact ⟨rfl, h, fun _ _ ha => ha⟩
  | ok p =>
    have hp := plain_of_screen hscreen
    by_cases hreach : c.Reaches (exports.mounter.failing attachError detachError) p host
    · obtain ⟨-, q, result, hanswer, hreached⟩ := onVolume_reached hapart h hp r hreach
      dsimp only
      rw [hanswer]
      exact ⟨hreached.aside.1, hreached.orderly, fun hnone => (hreached.detached hnone).1⟩
    · have hmissed := onVolume_missed hapart h hp r hreach
      obtain ⟨e, hanswer⟩ := hmissed.refused
      dsimp only
      rw [hanswer]
      refine ⟨hmissed.aside.1, hmissed.orderly, fun _ a ha => ?_⟩
      rw [hmissed.mounts] at ha
      exact ha

theorem Reachable.orderly (hapart : exports.Apart c.working cwd)
    {host : Host (List Attachment)} (h : Reachable exports c cwd faults host) :
    host.cwd = cwd ∧ exports.Orderly c.working host := by
  induction h with
  | start hcwd huntouched => exact ⟨hcwd, huntouched.orderly⟩
  | @serve host r attachError detachError _ _ ih =>
    obtain ⟨hcwd, horderly⟩ := ih
    obtain ⟨hcwd', horderly', -⟩ :=
      orderly_serve (hcwd ▸ hapart) horderly r attachError detachError
    exact ⟨hcwd'.trans hcwd, horderly'⟩
  | use _ hused ih =>
    obtain ⟨hcwd, horderly⟩ := ih
    exact ⟨hcwd, horderly.used (hcwd ▸ hapart) hused⟩

/-- If detaching never fails then nothing stays attached. -/
theorem Reachable.nothing_attached (hapart : exports.Apart c.working cwd)
    {host : Host (List Attachment)}
    (h : Reachable exports c cwd (fun _ detachError => detachError = none) host) :
    host.mounts = [] := by
  induction h with
  | start _ huntouched => exact huntouched.mounts
  | @serve host r attachError detachError hreachable hnone ih =>
    obtain ⟨hcwd, horderly⟩ := hreachable.orderly hapart
    have hsub := (orderly_serve (hcwd ▸ hapart) horderly r attachError detachError).2.2 hnone
    rw [ih] at hsub
    exact List.eq_nil_iff_forall_not_mem.2 fun a ha => List.not_mem_nil (hsub a ha)
  | use _ _ ih => exact ih

/-- A volume is answered only if its directory has been made. -/
theorem made_of_conclusion {p : Placement} {r : VolumeRequest} {result : Except Fault Unit}
    {volume : Volume} (h : c.conclusion p r result = .ok (some volume)) :
    result = .ok () ∧ r.needs = none ∧ r.leaves = some .directory := by
  cases r with
  | create request =>
    cases result with
    | ok => exact ⟨rfl, rfl, rfl⟩
    | error fault => cases h
  | delete id =>
    cases result with
    | ok => cases h
    | error fault => cases fault <;> cases h

variable {host : Host (List Attachment)} {v : Placement} {r : VolumeRequest}

/-- A request that trespasses changes another volume. -/
theorem Isolated.not_trespasses (hapart : exports.Apart c.working host.cwd)
    (h : exports.Orderly c.working host) (hscreen : c.screen r = .ok v)
    {attachError detachError : Option Error}
    (hisolated : Isolated exports v host
      ((c.serve r).run (exports.mounter.failing attachError detachError) host)) :
    ¬ Trespasses exports c r v attachError host := by
  rintro ⟨rfl, husable, w, hne, hname, hmem, hneeds⟩
  have hv := plain_of_screen hscreen
  have hreach := @reaches_of_attached c exports host v w hapart h hmem hname detachError
  obtain ⟨-, q, result, hanswer, hreached⟩ := onVolume_reached hapart h hv r hreach
  have htarget : (exports.attachment c.working w).target = c.mountPoint v := by
    rw [mountPoint, ← hname]
    rfl
  -- The work is done on the volume whose export is attached.
  obtain rfl : q = w := by
    rcases hreached.found with hfound | ⟨-, hnone⟩
    · have htarget' : (exports.attachment c.working q).target = c.mountPoint v := by
        rw [mountPoint, ← hreached.name_eq]
        rfl
      exact Exports.attachment_inj
        (h.distinct _ hfound _ hmem (.inl (htarget'.trans htarget.symm)))
    · exact absurd htarget (hnone _ hmem)
  have hok := hreached.worked.ok_iff.2 ⟨husable, hneeds⟩
  have hleaves := hreached.worked.leaves hok []
  have hothers := hisolated.others q hne []
  rw [run_serve, hscreen] at hothers
  dsimp only at hothers
  rw [hanswer] at hothers
  dsimp only at hothers
  rw [hleaves, List.append_nil, hneeds, if_pos rfl] at hothers
  exact r.needs_ne_leaves hothers.symm

/-- A request that does not trespass changes its own volume at most. -/
theorem isolated_of_not_trespasses (hapart : exports.Apart c.working host.cwd)
    (h : exports.Orderly c.working host) (hscreen : c.screen r = .ok v)
    {attachError detachError : Option Error}
    (hnot : ¬ Trespasses exports c r v attachError host) :
    Isolated exports v host
      ((c.serve r).run (exports.mounter.failing attachError detachError) host) := by
  have hv := plain_of_screen hscreen
  rw [run_serve, hscreen]
  dsimp only
  by_cases hreach : c.Reaches (exports.mounter.failing attachError detachError) v host
  · obtain ⟨hnone, q, result, hanswer, hreached⟩ := onVolume_reached hapart h hv r hreach
    rw [hanswer]
    by_cases hq : q = v
    · subst hq
      refine ⟨hreached.worked.others, fun volume hvolume => ?_⟩
      obtain ⟨hok, hneeds, hleaves⟩ := made_of_conclusion hvolume
      have hbefore := (hreached.worked.ok_iff.1 hok).2
      have hafter := hreached.worked.leaves hok []
      rw [List.append_nil, if_pos rfl] at hafter
      exact ⟨hbefore.trans hneeds, hafter.trans hleaves⟩
    · have hrefused : result ≠ .ok () := by
        intro hok
        obtain ⟨husable, hneeds⟩ := hreached.worked.ok_iff.1 hok
        rcases hreached.found with hfound | ⟨heq, -⟩
        · exact hnot ⟨hnone, husable, q, hq, hreached.name_eq, hfound, hneeds⟩
        · exact hq heq
      refine ⟨fun w _ => hreached.worked.kept hrefused w, fun volume hvolume => ?_⟩
      exact absurd (made_of_conclusion hvolume).1 hrefused
  · have hmissed := onVolume_missed hapart h hv r hreach
    obtain ⟨e, hanswer⟩ := hmissed.refused
    rw [hanswer]
    refine ⟨fun w _ => hmissed.same w, fun volume hvolume => ?_⟩
    cases hvolume

/-- When requests keep volumes apart. In any run in which calls to the mounter may fail, a request
that is not answered at once leaves the other volumes alone, and makes its own in its own export,
exactly if it does not find another export attached at its mount point, with a volume of its name to
work on. In a run in which detaching never fails, nothing is attached when a request comes, so that
all requests keep volumes apart. -/
theorem isolated_iff_not_trespasses (hapart : exports.Apart c.working cwd) :
    (∀ host, Reachable exports c cwd (fun _ _ => True) host →
      ∀ (r : VolumeRequest) (attachError detachError : Option Error),
        let o := (c.serve r).run (exports.mounter.failing attachError detachError) host
        match c.screen r with
        | .error answer => o.answer = answer ∧ o.host = host
        | .ok v => Isolated exports v host o ↔ ¬ Trespasses exports c r v attachError host) ∧
    ∀ host, Reachable exports c cwd (fun _ detachError => detachError = none) host →
      host.mounts = [] ∧
      ∀ (r : VolumeRequest) (attachError detachError : Option Error) (v : Placement),
        c.screen r = .ok v → Isolated exports v host
          ((c.serve r).run (exports.mounter.failing attachError detachError) host) := by
  constructor
  · intro host hreachable r attachError detachError o
    obtain ⟨hcwd, horderly⟩ := hreachable.orderly hapart
    cases hscreen : c.screen r with
    | error answer =>
      have ho : o = ⟨answer, host, []⟩ := by
        show (c.serve r).run (exports.mounter.failing attachError detachError) host = _
        rw [run_serve, hscreen]
      rw [ho]
      exact ⟨rfl, rfl⟩
    | ok v =>
      constructor
      · exact fun hisolated => hisolated.not_trespasses (hcwd ▸ hapart) horderly hscreen
      · exact fun hnot => isolated_of_not_trespasses (hcwd ▸ hapart) horderly hscreen hnot
  · intro host hreachable
    obtain ⟨hcwd, horderly⟩ := hreachable.orderly hapart
    have hnothing := hreachable.nothing_attached hapart
    refine ⟨hnothing, fun r attachError detachError v hscreen => ?_⟩
    apply isolated_of_not_trespasses (hcwd ▸ hapart) horderly hscreen
    rintro ⟨-, -, w, -, -, hmem, -⟩
    rw [hnothing] at hmem
    cases hmem

end Controller

/-! ## An export that stayed attached -/

namespace Controller.Sample

def exports : Exports :=
  ⟨⟨.root, ["export"], false⟩⟩

theorem apart : exports.Apart controller.working [] :=
  .of_start (by decide) (by unfold Path.Normal; decide) (by decide) (by decide) (by decide)
    (by decide)

/-- What the request makes of a host without files if the export cannot be detached. -/
def leftover : Host (List Attachment) :=
  ((controller.serve (.create request)).run
    (exports.mounter.failing none (some (.internal "busy"))) ⟨[], .bare, []⟩).host

theorem reachable_leftover : Reachable exports controller [] (fun _ _ => True) leftover :=
  .serve _ (.start rfl (Exports.untouched_bare exports controller.working)) trivial

theorem mounts_leftover :
    leftover.mounts = [exports.attachment controller.working ⟨"s1", "base", "vol1"⟩] := by
  decide +kernel

theorem get?_leftover :
    leftover.tree.get? (exports.backing leftover ⟨"s1", "base", "vol1"⟩) = some .directory := by
  decide +kernel

/-- While the export of the first volume is attached, removing the second one removes the first. -/
theorem delete_trespasses_on_leftover :
    let v : Placement := ⟨"s2", "base", "vol1"⟩
    let w : Placement := ⟨"s1", "base", "vol1"⟩
    let r : VolumeRequest := .delete ⟨"s2/base/vol1"⟩
    let o := (controller.serve r).run (exports.mounter.failing none none) leftover
    exports.Apart controller.working [] ∧
      Reachable exports controller [] (fun _ _ => True) leftover ∧
      controller.screen r = .ok v ∧ w ≠ v ∧
      leftover.tree.get? (exports.backing leftover w) = some .directory ∧
      o.answer.toOption = some none ∧ o.host.tree.get? (exports.backing o.host w) = none := by
  intro v w r o
  have hscreen : controller.screen r = .ok v := by rfl
  have hanswer : o.answer.toOption = some none := by decide +kernel
  have hafter : o.host.tree.get? (exports.backing o.host w) = none := by decide +kernel
  exact ⟨apart, reachable_leftover, hscreen, by decide, get?_leftover, hanswer, hafter⟩

/-- Removing the volume whose export stayed attached leaves all others alone, and removing another
one of its name does not. -/
theorem isolated_on_leftover :
    Isolated exports ⟨"s1", "base", "vol1"⟩ leftover
        ((controller.serve (.delete ⟨"s1/base/vol1"⟩)).run
          (exports.mounter.failing none none) leftover) ∧
      ¬ Isolated exports ⟨"s2", "base", "vol1"⟩ leftover
        ((controller.serve (.delete ⟨"s2/base/vol1"⟩)).run
          (exports.mounter.failing none none) leftover) := by
  have hiff := (isolated_iff_not_trespasses apart).1 leftover reachable_leftover
  constructor
  · refine (hiff (.delete ⟨"s1/base/vol1"⟩) none none).2 ?_
    rintro ⟨-, -, w, hne, -, hmem, -⟩
    rw [mounts_leftover, List.mem_singleton] at hmem
    exact hne (Exports.attachment_inj hmem)
  · intro hisolated
    refine (hiff (.delete ⟨"s2/base/vol1"⟩) none none).1 hisolated ?_
    refine ⟨rfl, ⟨by rfl, by decide⟩, ⟨"s1", "base", "vol1"⟩, by decide, rfl, ?_, get?_leftover⟩
    rw [mounts_leftover]
    exact List.mem_singleton_self _

end Controller.Sample
end NfsProvisioner
