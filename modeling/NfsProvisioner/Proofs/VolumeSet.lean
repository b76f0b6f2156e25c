import NfsProvisioner.Proofs.Isolation

/-!
# The set of volumes

As long as the mounter never fails, what requests do can be told without files: there is a set of
volumes, making one adds it, removing one takes it away, and everything else leaves the set as it
is. `volumes_refine` says that the files follow this set through every run: the directory of a
volume is there exactly if the volume is in the set, and between requests nothing is attached and no
mount point is left. The use of volumes between requests makes no difference.
-/
namespace NfsProvisioner.Controller

/-- What a request is answered with, and the volumes that there are afterwards, judged by the
volumes that there are. -/
def judge (c : Controller) (volumes : List Placement) (r : VolumeRequest) :
    VolumeAnswer × List Placement :=
  match c.screen r with
  | .error answer => (answer, volumes)
  | .ok p =>
    match r with
    | .create request =>
      if p ∈ volumes then
        (.error (.internal ("failed to make subdirectory " ++ (c.volumePath p).text ++ ": " ++
          Fault.alreadyExists.message)), volumes)
      else (.ok (some (p.toVolume request.requiredBytes)), p :: volumes)
    | .delete _ => (.ok none, volumes.filter (· ≠ p))

/-- The host takes the paths that a request for a volume works with. -/
structure Accepted (c : Controller) (exports : Exports) (p : Placement) : Prop where
  volume : (c.volumePath p).Usable
  directory : (exports.directory p.server p.baseSharePath).Usable

/-- Where the directory of a volume is as long as its export is not attached. -/
def rest (exports : Exports) (cwd : Location) (p : Placement) : Location :=
  exports.home.location cwd ++ [p.server, p.baseDir, p.name]

/-- Runs of requests with a mounter that never fails, each with the volumes that there should be
after it. Between requests volumes may be used. -/
inductive Runs (c : Controller) (exports : Exports) (cwd : Location) :
    Host (List Attachment) → List Placement → Prop where
  | start {host : Host (List Attachment)} :
    host.cwd = cwd → exports.Untouched c.working host → Runs c exports cwd host []
  | serve {host : Host (List Attachment)} {volumes : List Placement} (r : VolumeRequest) :
    Runs c exports cwd host volumes → (∀ p, c.screen r = .ok p → c.Accepted exports p) →
      Runs c exports cwd ((c.serve r).run exports.mounter host).host (c.judge volumes r).2
  | use {host : Host (List Attachment)} {volumes : List Placement} {tree : Tree} :
    Runs c exports cwd host volumes → exports.Used host tree →
      Runs c exports cwd { host with tree } volumes

/-- The volumes of a host between requests. -/
structure Represents (c : Controller) (exports : Exports) (host : Host (List Attachment))
    (volumes : List Placement) : Prop where
  detached : host.mounts = []
  points : ∀ name, host.tree.get? (c.working.location host.cwd ++ [name]) = none
  directories : ∀ p, host.tree.get? (rest exports host.cwd p) =
    if p ∈ volumes then some .directory else none

variable {c : Controller} {exports : Exports} {cwd : Location} {host : Host (List Attachment)}
  {volumes : List Placement} {p : Placement} {r : VolumeRequest}

theorem backing_eq_rest (h : host.mounts = []) :
    exports.backing host p = rest exports host.cwd p := by
  have hsite : exports.site host p =
      exports.home.location host.cwd ++ [p.server, p.baseDir] := by
    unfold Exports.site
    rw [h]
    rfl
  rw [Exports.backing, hsite, List.append_assoc]
  rfl

/-- The mount point is usable wherever the volume is. -/
theorem Accepted.mountPoint (h : c.Accepted exports p) (hp : p.Plain) :
    (c.mountPoint p).Usable :=
  h.volume.of_child rfl (Path.text_child_ne_empty hp.name.nonempty)

theorem Accepted.vault (h : c.Accepted exports p) (hp : p.Plain) : (exports.vault p).Usable := by
  rw [← Exports.directory_eq_vault hp]
  exact h.directory

/-- From a host where nothing is attached and no mount point is left the work is reached. -/
theorem reaches_of_clean (hapart : exports.Apart c.working host.cwd)
    (h : exports.Orderly c.working host) (hdown : ".." ∉ c.working.names)
    (hrepresents : Represents c exports host volumes) (hp : p.Plain)
    (haccepted : c.Accepted exports p) :
    c.Reaches (exports.mounter.failing none none) p host := by
  have hnormal : (c.mountPoint p).Normal := Exports.Orderly.normal_target hapart hp
  have husable := haccepted.mountPoint hp
  obtain ⟨hhost, hway⟩ := @Procedure.createDirectories_makesWay _
    (exports.mounter.failing none none) (c.mountPoint p) host hnormal rfl
    (h.clear_target hp).unlinked
  have horderly := (h.grows_target hapart hp hway.grows).1
  have hanswer := hway.made h.start (h.clear_target hp) fun _ => husable
  refine ⟨hanswer, ?_⟩
  rw [hhost]
  generalize (Procedure.createDirectories (c.mountPoint p)).run
    (exports.mounter.failing none none) host = made at *
  have hbare : ∀ r, r ≠ [] →
      made.host.tree.get? (c.working.location host.cwd ++ [p.name] ++ r) = none := by
    intro r hr
    rw [hway.grows.outside fun hl => ?_]
    · exact Tree.get?_append_of_none (hrepresents.points p.name) r
    · rcases (Path.mem_way_child hp.name.ne_up).1 hl with hl | heq
      · rw [List.append_assoc] at hl
        exact Path.not_below_of_mem_way hdown hl (by simp) (List.prefix_refl _)
      · exact hr (List.append_right_eq_self.1 heq)
  have hexpose := horderly.expose_ok (by exact hapart) hp husable (haccepted.vault hp)
    (hway.passable h.start hanswer) hbare
    (fun l hl => Path.not_below_of_mem_way hdown hl (List.cons_ne_nil p.name []))
    (fun a ha => by rw [hrepresents.detached] at ha; cases ha)
  show (exports.attach (c.working.child p.name) p.server p.baseSharePath _).result = .ok ()
  unfold Exports.attach
  rw [hrepresents.detached, Exports.directory_eq_vault hp]
  simp only [List.any_nil, Bool.false_eq_true, if_false]
  rw [hrepresents.detached] at hexpose
  split
  · rfl
  · next fault tree heq =>
    rw [heq] at hexpose
    cases hexpose

namespace Represents

/-- Nothing stands where a volume would be that is not in the set. -/
theorem absent (h : Represents c exports host volumes) (hp : p ∉ volumes) (s : Location) :
    host.tree.get? (rest exports host.cwd p ++ s) = none := by
  have hnone := h.directories p
  rw [if_neg hp] at hnone
  exact Tree.get?_append_of_none hnone s

theorem of_untouched (h : exports.Untouched c.working host) :
    Represents c exports host [] where
  detached := h.mounts
  points name := h.working_bare [name] (by simp)
  directories p := by
    rw [if_neg List.not_mem_nil]
    exact h.home_bare _ (by simp)

/-- The use of volumes adds none and removes none. -/
theorem used (hapart : exports.Apart c.working host.cwd) (h : exports.Orderly c.working host)
    (hrepresents : Represents c exports host volumes) {tree : Tree}
    (hused : exports.Used host tree) :
    Represents c exports { host with tree } volumes where
  detached := hrepresents.detached
  points name := by
    rcases hused (c.working.location host.cwd ++ [name]) with heq | ⟨p, s, -, -, heq⟩
    · exact heq.trans (hrepresents.points name)
    · exact absurd (heq ▸ List.prefix_append _ s) (h.not_backing_point hapart name)
  directories p := by
    have hp := hrepresents.directories p
    rcases hused (rest exports host.cwd p) with heq | ⟨q, s, hs, -, heq⟩
    · exact heq.trans hp
    · have hself : exports.backing host p ++ [] = exports.backing host q ++ s := by
        rw [List.append_nil, backing_eq_rest hrepresents.detached]
        exact heq
      exact absurd (h.backing_inj hapart hself).2.symm hs

/-- No mount point is left if the only one that was worked with is gone. -/
theorem points_of_aside (hrepresents : Represents c exports host volumes)
    (hapart : exports.Apart c.working host.cwd) (hdown : ".." ∉ c.working.names)
    {host' : Host (List Attachment)} {used : String}
    (haside : exports.Aside c.working used host host')
    (hgone : host'.tree.get? (c.working.location host.cwd ++ [used]) = none) (name : String) :
    host'.tree.get? (c.working.location host.cwd ++ [name]) = none := by
  by_cases hname : name = used
  · rw [hname]
    exact hgone
  · rw [haside.2]
    · exact hrepresents.points name
    · exact fun hl =>
        Path.not_below_of_mem_way hdown hl (List.cons_ne_nil name []) (List.prefix_refl _)
    · exact fun hl => hapart.home_outside
        ((List.prefix_append _ _).trans (Path.prefix_of_mem_way hapart.home_down hl))
    · intro hin
      obtain ⟨s, heq⟩ := (List.prefix_append_right_inj _).1 hin
      exact hname (List.cons.inj heq).1.symm
    · rintro ⟨s, heq⟩
      exact hapart.ne _ _ heq.symm

end Represents

/-- Which volumes there are after a request. -/
theorem mem_judge (hscreen : c.screen r = .ok p) {q : Placement} :
    q ∈ (c.judge volumes r).2 ↔ if q = p then r.leaves = some .directory else q ∈ volumes := by
  unfold judge
  rw [hscreen]
  by_cases hq : q = p
  · rw [if_pos hq, hq]
    cases r with
    | create request =>
      dsimp only
      split
      · next hmem => exact ⟨fun _ => rfl, fun _ => hmem⟩
      · exact ⟨fun _ => rfl, fun _ => List.mem_cons_self⟩
    | delete id =>
      constructor
      · intro hmem
        have hne := (List.mem_filter.1 hmem).2
        simp at hne
      · intro h
        cases h
  · rw [if_neg hq]
    cases r with
    | create request =>
      dsimp only
      split
      · exact Iff.rfl
      · rw [List.mem_cons]
        exact or_iff_right hq
    | delete id =>
      rw [List.mem_filter]
      simp [hq]

/-- What the work of a request on its own volume comes to, judged by the volumes that there are. -/
theorem conclusion_eq_judge (hscreen : c.screen r = .ok p) {result : Except Fault Unit}
    (hok : (if p ∈ volumes then some Entry.directory else none) = r.needs → result = .ok ())
    (hrefused : (if p ∈ volumes then some Entry.directory else none) ≠ r.needs →
      result = .error r.refusal) :
    c.conclusion p r result = (c.judge volumes r).1 := by
  unfold judge
  rw [hscreen]
  cases r with
  | create request =>
    by_cases hmem : p ∈ volumes
    · rw [if_pos hmem] at hrefused
      rw [hrefused (by intro heq; cases heq)]
      dsimp only
      rw [if_pos hmem]
      rfl
    · rw [if_neg hmem] at hok
      rw [hok rfl]
      dsimp only
      rw [if_neg hmem]
      rfl
  | delete id =>
    by_cases hmem : p ∈ volumes
    · rw [if_pos hmem] at hok
      rw [hok rfl]
      rfl
    · rw [if_neg hmem] at hrefused
      rw [hrefused (by intro heq; cases heq)]
      rfl

/-- What stands where a volume goes is not what a request needs exactly if it is what the request
would leave there. -/
theorem ne_needs_iff {there : Prop} [Decidable there] :
    (if there then some Entry.directory else none) ≠ r.needs ↔
      (there ↔ r.leaves = some .directory) := by
  by_cases h : there <;> cases r <;> simp [h, VolumeRequest.needs, VolumeRequest.leaves]

/-- What becomes of a volume: it is left as it was, or it is made or removed. -/
inductive Turn (exports : Exports) (cwd : Location) (t t' : Tree)
    (volumes volumes' : List Placement) (q : Placement) : Prop where
  | kept : (∀ s, t'.get? (rest exports cwd q ++ s) = t.get? (rest exports cwd q ++ s)) →
      (q ∈ volumes' ↔ q ∈ volumes) → Turn exports cwd t t' volumes volumes' q
  | turned : (∀ s, t'.get? (rest exports cwd q ++ s) =
        if s = [] ∧ q ∈ volumes' then some .directory else none) →
      (q ∈ volumes → q ∉ volumes') → Turn exports cwd t t' volumes volumes' q

/-- The work of a request turns its own volume, if it succeeds, and keeps all others. -/
theorem turn_of_worked (hrepresents : Represents c exports host volumes)
    {host' : Host (List Attachment)} (hcwd : host'.cwd = host.cwd) (hdetached : host'.mounts = [])
    (hscreen : c.screen r = .ok p) (husable : (c.volumePath p).Usable)
    {result : Except Fault Unit} (hworked : exports.Worked r p (c.volumePath p) host result host')
    (q : Placement) :
    Turn exports host.cwd host.tree host'.tree volumes (c.judge volumes r).2 q := by
  have hbefore : ∀ w, exports.backing host w = rest exports host.cwd w :=
    fun w => backing_eq_rest hrepresents.detached
  have hafter : ∀ w, exports.backing host' w = rest exports host.cwd w := by
    intro w
    rw [backing_eq_rest hdetached, hcwd]
  have hmem := @mem_judge c volumes p r hscreen q
  by_cases hq : q = p
  · subst hq
    rw [if_pos rfl] at hmem
    have hok := hworked.ok_iff
    rw [hbefore, hrepresents.directories q] at hok
    by_cases hneeds : (if q ∈ volumes then some Entry.directory else none) = r.needs
    · refine .turned (fun s => ?_) fun hin hin' => ?_
      · have hleaves := hworked.leaves (hok.2 ⟨husable, hneeds⟩) s
        rw [hafter] at hleaves
        rw [hleaves]
        simp only [hmem]
        by_cases hs : s = [] <;> cases r <;> simp [hs, VolumeRequest.leaves]
      · exact ne_needs_iff.2 ⟨fun _ => hmem.1 hin', fun _ => hin⟩ hneeds
    · refine .kept (fun s => ?_) (hmem.trans (ne_needs_iff.1 hneeds).symm)
      have hkept := hworked.kept (fun h => hneeds (hok.1 h).2) q s
      rw [hafter, hbefore] at hkept
      exact hkept
  · rw [if_neg hq] at hmem
    refine .kept (fun s => ?_) hmem
    have hothers := hworked.others q hq s
    rw [hafter, hbefore] at hothers
    exact hothers

namespace Turn

variable {t t' : Tree} {volumes' : List Placement} {q : Placement}

theorem directory (h : Turn exports cwd t t' volumes volumes' q)
    (hbefore : t.get? (rest exports cwd q) = if q ∈ volumes then some .directory else none) :
    t'.get? (rest exports cwd q) = if q ∈ volumes' then some .directory else none := by
  cases h with
  | kept hsame hiff =>
    have hself := hsame []
    rw [List.append_nil] at hself
    rw [hself, hbefore]
    simp only [hiff]
  | turned hself _ =>
    have hself := hself []
    rw [List.append_nil] at hself
    rw [hself]
    simp only [true_and]

theorem contents (h : Turn exports cwd t t' volumes volumes' q)
    (hbefore : q ∉ volumes → ∀ s, t.get? (rest exports cwd q ++ s) = none) {s : Location}
    (hs : s ≠ []) :
    t'.get? (rest exports cwd q ++ s) =
      if q ∈ volumes ∧ q ∈ volumes' then t.get? (rest exports cwd q ++ s) else none := by
  cases h with
  | kept hsame hiff =>
    rw [hsame]
    by_cases hq : q ∈ volumes
    · rw [if_pos ⟨hq, hiff.2 hq⟩]
    · rw [if_neg fun hboth => hq hboth.1]
      exact hbefore hq s
  | turned hself hnot =>
    rw [hself, if_neg fun h => hs h.1, if_neg fun hboth => hnot hboth.1 hboth.2]

end Turn

/-- One request, followed by the set of volumes. -/
theorem serve_refines (hapart : exports.Apart c.working host.cwd)
    (h : exports.Orderly c.working host) (hdown : ".." ∉ c.working.names)
    (hrepresents : Represents c exports host volumes)
    (haccepted : ∀ p, c.screen r = .ok p → c.Accepted exports p) :
    let o := (c.serve r).run exports.mounter host
    o.answer = (c.judge volumes r).1 ∧
      Represents c exports o.host (c.judge volumes r).2 ∧
      ∀ q s, s ≠ [] → o.host.tree.get? (rest exports host.cwd q ++ s) =
        if q ∈ volumes ∧ q ∈ (c.judge volumes r).2 then
          host.tree.get? (rest exports host.cwd q ++ s)
        else none := by
  have hmounter : exports.mounter = exports.mounter.failing none none := rfl
  rw [hmounter, run_serve]
  cases hscreen : c.screen r with
  | error answer =>
    have hjudge : c.judge volumes r = (answer, volumes) := by
      unfold judge
      rw [hscreen]
    rw [hjudge]
    refine ⟨rfl, hrepresents, fun q s _ => ?_⟩
    by_cases hq : q ∈ volumes
    · rw [if_pos ⟨hq, hq⟩]
    · rw [if_neg fun hboth => hq hboth.1]
      exact hrepresents.absent hq s
  | ok p =>
    have hp := plain_of_screen hscreen
    have haccept := haccepted p hscreen
    have hreach := reaches_of_clean hapart h hdown hrepresents hp haccept
    obtain ⟨-, q, result, hanswer, hreached⟩ := onVolume_reached hapart h hp r hreach
    obtain rfl : q = p := by
      rcases hreached.found with hfound | ⟨heq, -⟩
      · rw [hrepresents.detached] at hfound
        cases hfound
      · exact heq
    dsimp only
    rw [hanswer]
    dsimp only
    generalize ((c.onVolume q r.work).run (exports.mounter.failing none none) host).host = host'
      at *
    have hcwd := hreached.aside.1
    obtain ⟨hsub, hgone⟩ := hreached.detached rfl
    have hdetached : host'.mounts = [] := by
      rw [hrepresents.detached] at hsub
      exact List.eq_nil_iff_forall_not_mem.2 fun a ha => List.not_mem_nil (hsub a ha)
    have hpoints := hrepresents.points_of_aside hapart hdown hreached.aside hgone
    have hworked := hreached.worked
    have hturn := turn_of_worked hrepresents hcwd hdetached hscreen haccept.volume hworked
    have hrepresents' : Represents c exports host' (c.judge volumes r).2 := by
      refine ⟨hdetached, fun name => ?_, fun w => ?_⟩
      · rw [hcwd]
        exact hpoints name
      · rw [hcwd]
        exact (hturn w).directory (hrepresents.directories w)
    refine ⟨?_, hrepresents', fun w s hs => (hturn w).contents hrepresents.absent hs⟩
    have hbefore := hrepresents.directories q
    rw [← backing_eq_rest hrepresents.detached] at hbefore
    apply conclusion_eq_judge hscreen
    · intro hneeds
      exact hworked.ok_iff.2 ⟨haccept.volume, hbefore.trans hneeds⟩
    · intro hneeds
      exact hworked.refused haccept.volume fun heq => hneeds (hbefore.symm.trans heq)

theorem Runs.refines (hapart : exports.Apart c.working cwd) (hdown : ".." ∉ c.working.names)
    (h : Runs c exports cwd host volumes) :
    host.cwd = cwd ∧ exports.Orderly c.working host ∧ Represents c exports host volumes := by
  induction h with
  | start hcwd huntouched =>
    exact ⟨hcwd, huntouched.orderly, .of_untouched huntouched⟩
  | @serve host volumes r _ haccepted ih =>
    obtain ⟨hcwd, horderly, hrepresents⟩ := ih
    have hmounter : exports.mounter = exports.mounter.failing none none := rfl
    obtain ⟨-, hrepresents', -⟩ :=
      serve_refines (hcwd ▸ hapart) horderly hdown hrepresents haccepted
    obtain ⟨hcwd', horderly', -⟩ := orderly_serve (hcwd ▸ hapart) horderly r none none
    rw [← hmounter] at hcwd' horderly'
    exact ⟨hcwd'.trans hcwd, horderly', hrepresents'⟩
  | use _ hused ih =>
    obtain ⟨hcwd, horderly, hrepresents⟩ := ih
    exact ⟨hcwd, horderly.used (hcwd ▸ hapart) hused,
      hrepresents.used (hcwd ▸ hapart) horderly hused⟩

/-- The set of volumes is refined. In every run, the next request is answered as the set says. After
it the directories of volumes are those that the set says, nothing is attached and no mount point is
left, and each volume that was there before holds what it held, while a new one is empty. -/
theorem volumes_refine (hapart : exports.Apart c.working cwd) (hdown : ".." ∉ c.working.names)
    (hruns : Runs c exports cwd host volumes)
    (haccepted : ∀ p, c.screen r = .ok p → c.Accepted exports p) :
    let o := (c.serve r).run exports.mounter host
    o.answer = (c.judge volumes r).1 ∧
      Represents c exports host volumes ∧
      Represents c exports o.host (c.judge volumes r).2 ∧
      ∀ q s, s ≠ [] → o.host.tree.get? (rest exports cwd q ++ s) =
        if q ∈ volumes ∧ q ∈ (c.judge volumes r).2 then
          host.tree.get? (rest exports cwd q ++ s)
        else none := by
  obtain ⟨hcwd, horderly, hrepresents⟩ := hruns.refines hapart hdown
  obtain ⟨hanswer, hrepresents', hcontents⟩ :=
    serve_refines (hcwd ▸ hapart) horderly hdown hrepresents haccepted
  rw [hcwd] at hcontents
  exact ⟨hanswer, hrepresents, hrepresents', hcontents⟩

end NfsProvisioner.Controller

namespace NfsProvisioner.Controller.Sample

/-- The first volume is made and removed again. -/
theorem volumes_refine_of_one_volume :
    let p : Placement := ⟨"s1", "base", "vol1"⟩
    let made := ((controller.serve (.create request)).run exports.mounter ⟨[], .bare, []⟩).host
    let o := (controller.serve (.delete ⟨"s1/base/vol1"⟩)).run exports.mounter made
    Runs controller exports [] made [p] ∧ Represents controller exports made [p] ∧
      o.answer = .ok none ∧ Represents controller exports o.host [] := by
  intro p made o
  have hcreate : (controller.screen (.create request)).toOption = some p := by decide +kernel
  have hdelete : controller.screen (.delete ⟨"s1/base/vol1"⟩) = .ok p := by rfl
  have hscreen : controller.screen (.create request) = .ok p := by
    cases h : controller.screen (.create request) with
    | error answer =>
      rw [h] at hcreate
      cases hcreate
    | ok q =>
      rw [h] at hcreate
      rw [Option.some.inj hcreate]
  have haccepted : controller.Accepted exports ⟨"s1", "base", "vol1"⟩ :=
    ⟨⟨by rfl, by decide⟩, ⟨by rfl, by decide⟩⟩
  have hstart : Runs controller exports [] ⟨[], .bare, []⟩ [] :=
    .start rfl (Exports.untouched_bare exports controller.working)
  have hjudge : controller.judge [] (.create request) = (.ok (some (p.toVolume 0)), [p]) := by
    unfold judge
    rw [hscreen]
    rfl
  have hjudge' : controller.judge [p] (.delete ⟨"s1/base/vol1"⟩) = (.ok none, []) := by
    unfold judge
    rw [hdelete]
    rfl
  have hmade := hstart.serve (.create request) fun q hq => by
    rw [hscreen] at hq
    rw [← Except.ok.inj hq]
    exact haccepted
  rw [hjudge] at hmade
  have hrefine := @volumes_refine controller exports [] made [p] (.delete ⟨"s1/base/vol1"⟩) apart
    (by decide) hmade fun q hq => by
      rw [hdelete] at hq
      rw [← Except.ok.inj hq]
      exact haccepted
  rw [hjudge'] at hrefine
  obtain ⟨hanswer, hbefore, hafter, -⟩ := hrefine
  exact ⟨hmade, hbefore, hanswer, hafter⟩

end NfsProvisioner.Controller.Sample
