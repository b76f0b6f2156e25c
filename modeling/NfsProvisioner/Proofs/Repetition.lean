import NfsProvisioner.Proofs.Remaking

/-!
# Sending a request again

A request that has been carried out, as a whole or up to the point where a call to the mounter
failed, is sent again. `Controller.Retries` says that this comes to the same as if it had been
carried out once, with no call failing.

Where the first attempt left off is one of few places. The mount point is there, or has been removed
because it was empty and is made where it was; the export is attached, or is attached again; and the
work on the directory of the volume, if done already, changes nothing when it is done once more
(`VolumeRequest.effect_effect`).
-/
namespace NfsProvisioner

variable {σ : Type}

/-- The tree after the work on the directory of a volume. -/
def VolumeRequest.effect (r : VolumeRequest) (t : Tree) (cwd : Location) (path : Path) : Tree :=
  ((r.work path).run .inert ⟨cwd, t, ()⟩).host.tree

/-- The host after an attempt to remove a directory. -/
def Host.cleared (host : Host σ) (p : Path) : Host σ :=
  { host with tree := host.tree.cleared host.cwd p }

theorem Host.removeDirectory_eq_cleared (host : Host σ) (p : Path) :
    (host.removeDirectory p).2 = host.cleared p := by
  unfold removeDirectory change cleared Tree.cleared
  cases host.tree.removeDirectory host.cwd p <;> rfl

/-- A mounter whose memory tells what is attached: attaching concerns its target only, and what has
been detached is attached no longer. -/
structure Mounter.Tracks (m : Mounter σ) (attached : σ → Path → Prop) : Prop where
  attach : ∀ target server share host p, p ≠ target →
    (attached (m.attach target server share host).mounts p ↔ attached host.mounts p)
  detach : ∀ target host p,
    attached (m.detach target host).mounts p ↔ p ≠ target ∧ attached host.mounts p

/-- If no calls fail then the mounter does what it always does. -/
theorem Mounter.failing_none (m : Mounter σ) : m.failing none none = m :=
  rfl

namespace VolumeRequest

variable {t : Tree} {cwd l : Location} {q : Path} {name : String}

theorem effect_create (request : CreateVolumeRequest) (t : Tree) (cwd : Location) (path : Path) :
    (create request).effect t cwd path =
      match t.makeDirectory cwd path with
      | .ok made => made
      | .error _ => t := by
  simp only [effect, work, Procedure.run, Host.makeDirectory, Host.change]
  cases t.makeDirectory cwd path <;> rfl

theorem effect_delete (id : VolumeId) (t : Tree) (cwd : Location) (path : Path) :
    (delete id).effect t cwd path =
      match t.removeAll cwd path with
      | .ok left => left
      | .error _ => t := by
  simp only [effect, work, Procedure.run, Host.removeAll, Host.change]
  cases t.removeAll cwd path <;> rfl

/-- Where the mount point is not on the way to itself, the work changes nothing outside the
directory of the volume. -/
theorem effect_outside (r : VolumeRequest) (h : t.Carries cwd q name l)
    (hname : PlainName name) (htakes : q.Takes name) {k : Location}
    (hk : ¬ l ++ [name] ++ [name] <+: k) :
    (r.effect t cwd ((q.child name).child name)).get? k = t.get? k := by
  have hinside := h.inside hname.isName htakes
  cases r with
  | create request =>
    rw [effect_create]
    cases hmade : t.makeDirectory cwd ((q.child name).child name) with
    | error fault => rfl
    | ok made =>
      obtain ⟨l', harrives, -, -, hput⟩ := Tree.create_child_inv hmade
      obtain rfl := hinside.unique harrives
      exact hput.outside hk
  | delete id =>
    rw [effect_delete]
    cases hremoved : t.removeAll cwd ((q.child name).child name) with
    | error fault => rfl
    | ok left =>
      have hstays := (h.clear name).inside hname.isName htakes
      exact ((hinside.removeAll_inv hname.ne_up hstays hremoved).2 k).trans (if_neg hk)

theorem carries_effect (r : VolumeRequest) (h : t.Carries cwd q name l) (hname : PlainName name)
    (htakes : q.Takes name) :
    (r.effect t cwd ((q.child name).child name)).Carries cwd q name l :=
  h.of_below name fun _ hk => r.effect_outside h hname htakes hk

/-- Work that has been done is not done again. -/
theorem effect_effect (r : VolumeRequest) (h : t.Carries cwd q name l) (hname : PlainName name)
    (htakes : q.Takes name) :
    r.effect (r.effect t cwd ((q.child name).child name)) cwd ((q.child name).child name) =
      r.effect t cwd ((q.child name).child name) := by
  have hinside := h.inside hname.isName htakes
  have hagain := (r.carries_effect h hname htakes).inside hname.isName htakes
  cases r with
  | create request =>
    simp only [effect_create] at hagain ⊢
    cases hmade : t.makeDirectory cwd ((q.child name).child name) with
    | error fault =>
      dsimp only
      rw [hmade]
    | ok made =>
      rw [hmade] at hagain
      obtain ⟨l', harrives, htakes', -, hput⟩ := Tree.create_child_inv hmade
      obtain rfl := hinside.unique harrives
      have htaken : made.makeDirectory cwd ((q.child name).child name) = .error .alreadyExists := by
        refine hagain.create_of_taken htakes' .directory ?_
        rw [hput, if_pos rfl]
        exact Option.some_ne_none _
      dsimp only
      rw [htaken]
  | delete id =>
    simp only [effect_delete] at hagain ⊢
    cases hremoved : t.removeAll cwd ((q.child name).child name) with
    | error fault =>
      dsimp only
      rw [hremoved]
    | ok left =>
      rw [hremoved] at hagain
      have hstays := (h.clear name).inside hname.isName htakes
      obtain ⟨htakes', hpruned⟩ := hinside.removeAll_inv hname.ne_up hstays hremoved
      have hmissing : left.removeAll cwd ((q.child name).child name) = .error .notFound :=
        hagain.removeAll_of_missing htakes' ((hpruned _).trans (if_pos (List.prefix_refl _)))
      dsimp only
      rw [hmissing]

end VolumeRequest

namespace Controller

variable {c : Controller} {m : Mounter σ} {p : Placement} {r : VolumeRequest} {host : Host σ}

/-- The host after the work on the directory of a volume. -/
def worked (c : Controller) (p : Placement) (r : VolumeRequest) (host : Host σ) : Host σ :=
  { host with tree := r.effect host.tree host.cwd (c.volumePath p) }

/-- The host after a visit to the export that holds a volume, whose mount point is there. -/
def visited (c : Controller) (m : Mounter σ) (p : Placement) (r : VolumeRequest) (host : Host σ) :
    Host σ :=
  let reply := m.attach (c.mountPoint p) p.server p.baseSharePath host
  match reply.result with
  | .error _ => (host.after reply).cleared (c.mountPoint p)
  | .ok () =>
    let busy := c.worked p r (host.after reply)
    let reply := m.detach (c.mountPoint p) busy
    match reply.result with
    | .ok () => (busy.after reply).cleared (c.mountPoint p)
    | .error _ => busy.after reply

/-- The host after a request, up to the mount point and on from there. -/
theorem host_serve (hscreen : c.screen r = .ok p) (m : Mounter σ) (host : Host σ) :
    ((c.serve r).run m host).host =
      match host.tree.made host.cwd (c.mountPoint p) with
      | (.error _, tree) => { host with tree }
      | (.ok (), tree) => c.visited m p r { host with tree } := by
  rw [run_serve_of_screen hscreen]
  dsimp only
  rw [Procedure.run_createDirectories]
  dsimp only
  generalize host.tree.made host.cwd (c.mountPoint p) = made
  obtain ⟨answer, tree⟩ := made
  cases answer with
  | error fault => rfl
  | ok =>
    dsimp only
    rw [visited]
    generalize m.attach (c.mountPoint p) p.server p.baseSharePath { host with tree } = reply
    cases reply.result with
    | error e => exact Host.removeDirectory_eq_cleared _ _
    | ok =>
      have hwork : ((r.work (c.volumePath p)).run m (Host.after { host with tree } reply)).host =
          c.worked p r (Host.after { host with tree } reply) :=
        congrArg Outcome.host
          (Procedure.run_of_filesOnly (Procedure.filesOnly_work r _) m .inert _ ())
      dsimp only
      rw [hwork, Procedure.run_release]
      generalize c.worked p r (Host.after { host with tree } reply) = busy
      dsimp only
      cases (m.detach (c.mountPoint p) busy).result with
      | error e => rfl
      | ok => exact Host.removeDirectory_eq_cleared _ _

theorem host_serve_of_made (hscreen : c.screen r = .ok p) {tree : Tree}
    (hmade : host.tree.made host.cwd (c.mountPoint p) = (.ok (), tree)) :
    ((c.serve r).run m host).host = c.visited m p r { host with tree } := by
  rw [host_serve hscreen, hmade]

theorem host_serve_of_not_made (hscreen : c.screen r = .ok p) {tree : Tree} {fault : Fault}
    (hmade : host.tree.made host.cwd (c.mountPoint p) = (.error fault, tree)) :
    ((c.serve r).run m host).host = { host with tree } := by
  rw [host_serve hscreen, hmade]

/-- A visit that the mounter refuses at once. -/
theorem visited_of_attach_failing (e : Error) (detachError : Option Error) :
    c.visited (m.failing (some e) detachError) p r host = host.cleared (c.mountPoint p) :=
  rfl

theorem visited_of_refused {e : Error}
    (h : (m.attach (c.mountPoint p) p.server p.baseSharePath host).result = .error e)
    (detachError : Option Error) :
    c.visited (m.failing none detachError) p r host =
      (host.after (m.attach (c.mountPoint p) p.server p.baseSharePath host)).cleared
        (c.mountPoint p) := by
  simp only [visited, Mounter.failing, h]

/-- A visit after which the export cannot be detached. -/
theorem visited_of_detach_failing
    (h : (m.attach (c.mountPoint p) p.server p.baseSharePath host).result = .ok ()) (e : Error) :
    c.visited (m.failing none (some e)) p r host =
      c.worked p r (host.after (m.attach (c.mountPoint p) p.server p.baseSharePath host)) := by
  simp only [visited, Mounter.failing, h]
  rfl

/-- After a request of which the calls to the mounter failed in some way, sending it again with no
call failing leaves the files as if it had been sent once with no call failing, and leaves the same
attached. Sending it again with the calls failing the same way leaves the files as they are. -/
def Retries (c : Controller) (m : Mounter σ) (same : σ → σ → Prop) (r : VolumeRequest)
    (host : Host σ) : Prop :=
  ∀ attachError detachError : Option Error,
    let failing := m.failing attachError detachError
    let once := ((c.serve r).run m host).host
    let tried := ((c.serve r).run failing host).host
    let retried := ((c.serve r).run m tried).host
    retried.tree = once.tree ∧ same retried.mounts once.mounts ∧
      ((c.serve r).run failing tried).host.tree = tried.tree

theorem retries_of_refused {answer : VolumeAnswer} (h : c.screen r = .error answer)
    {same : σ → σ → Prop} (hsame : ∀ mounts, same mounts mounts) : c.Retries m same r host := by
  intro attachError detachError
  have hhost (m : Mounter σ) (host : Host σ) : ((c.serve r).run m host).host = host := by
    rw [run_serve, h]
  simp only [hhost]
  exact ⟨trivial, hsame _, trivial⟩

/-- What remains to be seen if the mount point can be made is what becomes of visits that are not
refused at once. -/
theorem retries_of_visits (hscreen : c.screen r = .ok p) (hnormal : c.working.Normal)
    (hdown : ".." ∉ c.working.names) (hsteady : host.tree.Steady host.cwd c.working p.name)
    {same : σ → σ → Prop} (hsame : ∀ mounts, same mounts mounts)
    (hvisits : ∀ (tree : Tree) (l : Location) (detachError : Option Error),
      host.tree.made host.cwd (c.mountPoint p) = (.ok (), tree) →
      c.working.Takes p.name → tree.Carries host.cwd c.working p.name l →
        let once := c.visited m p r { host with tree }
        let tried := c.visited (m.failing none detachError) p r { host with tree }
        let retried := ((c.serve r).run m tried).host
        retried.tree = once.tree ∧ same retried.mounts once.mounts ∧
          ((c.serve r).run (m.failing none detachError) tried).host.tree = tried.tree) :
    c.Retries m same r host := by
  intro attachError detachError
  have hname := (plain_of_screen hscreen).name
  have hpoint : (c.mountPoint p).Normal := hnormal.child hname.isName
  have hpointDown := Path.not_up_mem_child hdown hname.ne_up
  rcases hmade : host.tree.made host.cwd (c.mountPoint p) with ⟨fault | ⟨⟩, tree⟩
  · -- Where the mount point cannot be made, nothing else is done.
    obtain ⟨reason, hagain⟩ := Tree.made_of_not_made hpoint rfl hmade
    have hagain' (m : Mounter σ) :
        ((c.serve r).run m { host with tree }).host = { host with tree } :=
      host_serve_of_not_made hscreen hagain
    simp only [host_serve_of_not_made hscreen hmade, hagain']
    exact ⟨trivial, hsame _, trivial⟩
  · obtain ⟨htakes, l, hcarries⟩ := hsteady.carries_of_made hpoint hpointDown hmade
    simp only [host_serve_of_made hscreen hmade]
    cases attachError with
    | none => exact hvisits tree l detachError hmade htakes hcarries
    | some e =>
      have hagain (m : Mounter σ) :
          ((c.serve r).run m (Host.cleared { host with tree } (c.mountPoint p))).host =
            c.visited m p r { host with tree } :=
        host_serve_of_made hscreen (hcarries.made_cleared hname.isName htakes)
      simp only [visited_of_attach_failing, hagain]
      exact ⟨trivial, hsame _, trivial⟩

section

variable {attached : σ → Path → Prop} (hm : m.KeepsFiles) (hworks : m.NeverFails)
  (htracks : m.Tracks attached)
include hm hworks htracks

omit hworks htracks in
/-- A visit under a mounter that leaves the files alone and attaches the export. -/
theorem visited_of_attached_kept (p : Placement) (r : VolumeRequest) (host : Host σ)
    (hattach : (m.attach (c.mountPoint p) p.server p.baseSharePath host).result = .ok ()) :
    let held := (m.attach (c.mountPoint p) p.server p.baseSharePath host).mounts
    let done := r.effect host.tree host.cwd (c.volumePath p)
    let reply := m.detach (c.mountPoint p) ⟨host.cwd, done, held⟩
    c.visited m p r host =
      ⟨host.cwd,
        match reply.result with
        | .ok () => done.cleared host.cwd (c.mountPoint p)
        | .error _ => done,
        reply.mounts⟩ := by
  intro held done reply
  have hreply : Host.after ⟨host.cwd, done, held⟩ reply = ⟨host.cwd, done, reply.mounts⟩ :=
    hm.after_detach _ _
  simp only [visited, hattach, hm.after_attach]
  change (match reply.result with
    | .ok () => (Host.after ⟨host.cwd, done, held⟩ reply).cleared (c.mountPoint p)
    | .error _ => Host.after ⟨host.cwd, done, held⟩ reply) = _
  rw [hreply]
  cases reply.result <;> rfl

/-- A visit under a mounter that leaves the files alone. -/
theorem visited_of_keepsFiles (p : Placement) (r : VolumeRequest) (host : Host σ) :
    ∃ mounts, c.visited m p r host =
        ⟨host.cwd, (r.effect host.tree host.cwd (c.volumePath p)).cleared host.cwd (c.mountPoint p),
          mounts⟩ ∧
      ∀ path, attached mounts path ↔ path ≠ c.mountPoint p ∧ attached host.mounts path := by
  have hvisited := visited_of_attached_kept (c := c) hm p r host (hworks.attach _ _ _ _)
  dsimp only at hvisited
  rw [hworks.detach] at hvisited
  refine ⟨_, hvisited, fun path => ?_⟩
  rw [htracks.detach]
  exact and_congr_right fun hother => htracks.attach _ _ _ host path hother

/-- Such a visit if the export cannot be detached. -/
theorem visited_of_keepsFiles_of_stuck (p : Placement) (r : VolumeRequest) (e : Error)
    (host : Host σ) :
    ∃ mounts, c.visited (m.failing none (some e)) p r host =
        ⟨host.cwd, r.effect host.tree host.cwd (c.volumePath p), mounts⟩ ∧
      ∀ path, path ≠ c.mountPoint p → (attached mounts path ↔ attached host.mounts path) := by
  refine ⟨(m.attach (c.mountPoint p) p.server p.baseSharePath host).mounts, ?_, fun path hother =>
    htracks.attach _ _ _ host path hother⟩
  rw [visited_of_detach_failing (hworks.attach _ _ _ _), hm.after_attach]
  rfl

/-- If the mounter leaves the files alone, a request can be sent again. -/
theorem retries_of_keepsFiles (hscreen : c.screen r = .ok p) (hnormal : c.working.Normal)
    (hdown : ".." ∉ c.working.names) (hsteady : host.tree.Steady host.cwd c.working p.name) :
    c.Retries m (fun mounts mounts' => ∀ path, attached mounts path ↔ attached mounts' path) r
      host := by
  have hname := (plain_of_screen hscreen).name
  refine retries_of_visits hscreen hnormal hdown hsteady (fun _ _ => Iff.rfl)
    fun tree l detachError _ htakes hcarries => ?_
  obtain ⟨done, heffect⟩ : ∃ done, r.effect tree host.cwd (c.volumePath p) = done := ⟨_, rfl⟩
  have hdone : done.Carries host.cwd c.working p.name l :=
    heffect ▸ r.carries_effect hcarries hname htakes
  have hagain : r.effect done host.cwd (c.volumePath p) = done :=
    heffect ▸ r.effect_effect hcarries hname htakes
  -- The host after a visit to the files that the first one has left behind.
  have hlast (mounts : σ) : ∃ mounts',
      c.visited m p r ⟨host.cwd, done, mounts⟩ =
        ⟨host.cwd, done.cleared host.cwd (c.mountPoint p), mounts'⟩ ∧
      ∀ path, attached mounts' path ↔ path ≠ c.mountPoint p ∧ attached mounts path := by
    have hvisited := visited_of_keepsFiles (c := c) hm hworks htracks p r ⟨host.cwd, done, mounts⟩
    dsimp only at hvisited
    rwa [hagain] at hvisited
  obtain ⟨mounts, honce, htold⟩ :=
    visited_of_keepsFiles (c := c) hm hworks htracks p r { host with tree }
  dsimp only at honce htold ⊢
  rw [heffect] at honce
  cases detachError with
  | none =>
    obtain ⟨mounts', hretried, htold'⟩ := hlast mounts
    rw [Mounter.failing_none, honce,
      host_serve_of_made hscreen (hdone.made_cleared hname.isName htakes), hretried]
    refine ⟨rfl, fun path => ?_, rfl⟩
    rw [htold', htold]
    exact and_self_left
  | some e =>
    obtain ⟨held, htried, hheld⟩ :=
      visited_of_keepsFiles_of_stuck (c := c) hm hworks htracks p r e { host with tree }
    obtain ⟨mounts', hretried, htold'⟩ := hlast held
    obtain ⟨held', hstuck, -⟩ :=
      visited_of_keepsFiles_of_stuck (c := c) hm hworks htracks p r e ⟨host.cwd, done, held⟩
    have hmade : done.made host.cwd (c.mountPoint p) = (.ok (), done) :=
      hdone.made_self hname.isName htakes
    dsimp only at htried hheld hstuck
    rw [heffect] at htried
    rw [hagain] at hstuck
    rw [htried, host_serve_of_made hscreen hmade, host_serve_of_made hscreen hmade, hretried,
      hstuck, honce]
    refine ⟨rfl, fun path => ?_, rfl⟩
    rw [htold', htold]
    exact and_congr_right fun hother => hheld path hother

end

end Controller
end NfsProvisioner
