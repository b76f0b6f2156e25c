import NfsProvisioner.Proofs.VolumeWork

/-!
# A request from its first action to its last

The phases of a request put together: either the work on a volume is not reached, and then every
volume is as before, or it is done on one volume, and everything else is as before. Which volume
that is depends on what was attached at the mount point when the request came.
-/
namespace NfsProvisioner.Controller

variable {σ : Type}

/-- The mount point can be made and something can be attached at it, so that the work of a request
is reached. -/
def Reaches (c : Controller) (m : Mounter σ) (p : Placement) (host : Host σ) : Prop :=
  let made := (Procedure.createDirectories (c.mountPoint p)).run m host
  made.answer = .ok () ∧
    (m.attach (c.mountPoint p) p.server p.baseSharePath made.host).result = .ok ()

variable {c : Controller} {exports : Exports} {host : Host (List Attachment)} {p q : Placement}

/-- A request of which the work is not reached. -/
structure Missed (exports : Exports) (c : Controller) (p : Placement)
    (host : Host (List Attachment)) {α : Type}
    (o : Outcome (List Attachment) (Except Error α)) : Prop where
  refused : ∃ e, o.answer = .error e
  orderly : exports.Orderly c.working o.host
  same : exports.SameVolumes host o.host
  aside : exports.Aside c.working p.name host o.host
  mounts : o.host.mounts = host.mounts

/-- A request of which the work is done on the volume `q`. -/
structure Reached (exports : Exports) (c : Controller) (r : VolumeRequest) (p q : Placement)
    (detachError : Option Error) (host : Host (List Attachment)) (result : Except Fault Unit)
    (host' : Host (List Attachment)) : Prop where
  name_eq : q.name = p.name
  found : exports.attachment c.working q ∈ host.mounts ∨
    q = p ∧ ∀ a ∈ host.mounts, a.target ≠ c.mountPoint p
  orderly : exports.Orderly c.working host'
  aside : exports.Aside c.working p.name host host'
  worked : exports.Worked r q (c.volumePath p) host result host'
  detached : detachError = none → (∀ a ∈ host'.mounts, a ∈ host.mounts) ∧
    host'.tree.get? (c.working.location host.cwd ++ [p.name]) = none

variable (hapart : exports.Apart c.working host.cwd) (h : exports.Orderly c.working host)
  (hp : p.Plain)
include hapart h hp

/-- Making the mount point. -/
theorem made_spec (m : Mounter (List Attachment)) :
    let made := (Procedure.createDirectories (c.mountPoint p)).run m host
    made.host = { host with tree := made.host.tree } ∧
      exports.Orderly c.working made.host ∧ exports.SameVolumes host made.host ∧
      exports.Aside c.working p.name host made.host ∧
      (made.answer = .ok () → made.host.tree.Passable host.cwd (c.mountPoint p)) ∧
      ((c.mountPoint p).Usable → made.answer = .ok ()) := by
  intro made
  obtain ⟨hhost, hway⟩ := @Procedure.createDirectories_makesWay _ m (c.mountPoint p) host
    (Exports.Orderly.normal_target hapart hp) rfl (h.clear_target hp).unlinked
  obtain ⟨horderly, hsame, haside⟩ := h.grows_target hapart hp hway.grows
  rw [hhost]
  exact ⟨rfl, horderly, hsame, haside, hway.passable h.start,
    fun husable => hway.made h.start (h.clear_target hp) fun _ => husable⟩

/-- If the work is not reached then no volume changes. -/
theorem onVolume_missed {attachError detachError : Option Error} (r : VolumeRequest)
    (hmissed : ¬ c.Reaches (exports.mounter.failing attachError detachError) p host) :
    Missed exports c p host
      ((c.onVolume p r.work).run (exports.mounter.failing attachError detachError) host) := by
  obtain ⟨hhost, horderly, hsame, haside, hpass, -⟩ :=
    made_spec hapart h hp (exports.mounter.failing attachError detachError)
  have hcwd := congrArg Host.cwd hhost
  have hmounts := congrArg Host.mounts hhost
  unfold Reaches at hmissed
  unfold onVolume
  rw [Procedure.run_whileAttached]
  dsimp only at hmissed hcwd hmounts ⊢
  generalize (Procedure.createDirectories (c.mountPoint p)).run
    (exports.mounter.failing attachError detachError) host = made at *
  cases hanswer : made.answer with
  | error fault => exact ⟨⟨_, rfl⟩, horderly, hsame, haside, hmounts⟩
  | ok =>
    have hpass' := hpass hanswer
    rw [← hcwd] at hapart hpass'
    obtain ⟨horderly', hsame', haside', hmounts', -⟩ :=
      horderly.attach_failing_spec hapart hp hpass' attachError detachError
    dsimp only [mountPoint] at hmissed ⊢
    cases hresult : ((exports.mounter.failing attachError detachError).attach
        (c.working.child p.name) p.server p.baseSharePath made.host).result with
    | ok => exact absurd ⟨hanswer, hresult⟩ hmissed
    | error e =>
      have hne : ((exports.mounter.failing attachError detachError).attach
          (c.working.child p.name) p.server p.baseSharePath made.host).result ≠ .ok () := by
        rw [hresult]
        exact fun heq => by cases heq
      have hapart' : exports.Apart c.working (made.host.after
          ((exports.mounter.failing attachError detachError).attach
            (c.working.child p.name) p.server p.baseSharePath made.host)).cwd := hapart
      obtain ⟨hleft, horderly'', hsame'', haside'', -⟩ := Exports.Orderly.remove_mount_point hapart'
        (exports.mounter.failing attachError detachError) horderly' hp
      refine ⟨⟨e, rfl⟩, horderly'', (hsame.trans hsame').trans hsame'',
        (haside.trans haside').trans haside'', ?_⟩
      exact (congrArg Host.mounts hleft).trans ((hmounts' hne).trans hmounts)

/-- If the work is reached then it is done on one volume, and no other one changes. -/
theorem onVolume_reached {attachError detachError : Option Error} (r : VolumeRequest)
    (hreached : c.Reaches (exports.mounter.failing attachError detachError) p host) :
    let o := (c.onVolume p r.work).run (exports.mounter.failing attachError detachError) host
    attachError = none ∧ ∃ q result, o.answer = .ok result ∧
      Reached exports c r p q detachError host result o.host := by
  obtain ⟨hhost, horderly, hsame, haside, hpass, -⟩ :=
    made_spec hapart h hp (exports.mounter.failing attachError detachError)
  have hcwd := congrArg Host.cwd hhost
  have hmounts := congrArg Host.mounts hhost
  unfold Reaches at hreached
  unfold onVolume
  rw [Procedure.run_whileAttached]
  dsimp only at hreached hcwd hmounts ⊢
  generalize (Procedure.createDirectories (c.mountPoint p)).run
    (exports.mounter.failing attachError detachError) host = made at *
  obtain ⟨hanswer, hresult⟩ := hreached
  have hpass' := hpass hanswer
  rw [← hcwd] at hapart hpass'
  have hattach := horderly.attach_failing_spec hapart hp hpass' attachError detachError
  rw [hanswer]
  dsimp only [mountPoint] at hresult hattach ⊢
  generalize (exports.mounter.failing attachError detachError).attach
    (c.working.child p.name) p.server p.baseSharePath made.host = reply at *
  obtain ⟨horderly', hsame', haside', -, hok⟩ := hattach
  obtain ⟨hnone, hpass'', q, hname, hmem, hfound⟩ := hok hresult
  rw [hresult]
  rw [← hname] at hpass''
  have hfinished := horderly'.finished_work (by exact hapart)
    (exports.mounter.failing attachError detachError) hmem hpass'' r
  dsimp only at hfinished ⊢
  have hvolumePath : c.volumePath p = (c.working.child q.name).child q.name := by
    rw [hname]
    rfl
  rw [hvolumePath, ← hname]
  generalize (r.work ((c.working.child q.name).child q.name)).run
    (exports.mounter.failing attachError detachError) (made.host.after reply) = worked at *
  have hcwd' := congrArg Host.cwd hfinished.host_eq
  have hmounts' := congrArg Host.mounts hfinished.host_eq
  change worked.host.cwd = made.host.cwd at hcwd'
  dsimp only at hmounts'
  have hmem' : exports.attachment c.working q ∈ worked.host.mounts := by
    rw [hmounts']
    exact hmem
  obtain ⟨horderly'', hsame'', haside'', -, hdetached⟩ := hfinished.orderly.release_spec
    (by rw [hcwd']; exact hapart) hmem' (by rw [hcwd']; exact hfinished.passable)
    attachError detachError
  refine ⟨hnone, q, worked.answer, rfl, hname, ?_, horderly'', ?_, ?_, ?_⟩
  · rw [← hmounts]
    rcases hfound with ⟨hin, -⟩ | ⟨hq, -, htarget⟩
    · exact .inl hin
    · exact .inr ⟨hq, htarget⟩
  · rw [← hname] at haside haside' ⊢
    exact ((haside.trans haside').trans hfinished.aside).trans haside''
  · rw [hvolumePath]
    exact (hfinished.worked.after (hsame.trans hsame')).before hsame''
  · intro hdetach
    obtain ⟨hleft, hgone⟩ := hdetached hdetach
    constructor
    · intro a ha
      rw [hleft] at ha
      obtain ⟨ha, htarget⟩ := List.mem_filter.1 ha
      rw [hmounts'] at ha
      rcases hfound with ⟨-, hsameHost⟩ | ⟨-, hadded, -⟩
      · rw [hsameHost, hmounts] at ha
        exact ha
      · rw [hadded, List.mem_append, List.mem_singleton, hmounts] at ha
        rcases ha with ha | rfl
        · exact ha
        · rw [hname] at htarget
          exact absurd rfl (bne_iff_ne.1 htarget)
    · rw [hcwd', hcwd] at hgone
      rw [← hname]
      exact hgone

omit hapart h hp in
/-- Where something is attached already, any request that attaching is not failed for reaches its
work. -/
theorem reaches_of_attached (hapart : exports.Apart c.working host.cwd)
    (h : exports.Orderly c.working host)
    (hmem : exports.attachment c.working q ∈ host.mounts) (hname : q.name = p.name)
    (detachError : Option Error) :
    c.Reaches (exports.mounter.failing none detachError) p host := by
  have hq := h.holds hmem
  have hpoint : c.mountPoint p = c.working.child q.name := by
    rw [hname]
    rfl
  obtain ⟨hhost, -, -, -, -, hanswer⟩ :=
    @made_spec c exports host q hapart h hq.plain (exports.mounter.failing none detachError)
  unfold Reaches
  rw [hpoint]
  refine ⟨hanswer hq.target_usable, ?_⟩
  have hmounts := congrArg Host.mounts hhost
  change ((Procedure.createDirectories (c.working.child q.name)).run
    (exports.mounter.failing none detachError) host).host.mounts = host.mounts at hmounts
  have hany : host.mounts.any (·.target == c.working.child q.name) = true :=
    List.any_eq_true.2 ⟨_, hmem, beq_iff_eq.2 rfl⟩
  show (exports.attach (c.working.child q.name) p.server p.baseSharePath _).result = .ok ()
  unfold Exports.attach
  rw [hmounts, if_pos hany]

end NfsProvisioner.Controller
