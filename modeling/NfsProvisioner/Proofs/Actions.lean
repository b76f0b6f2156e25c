import NfsProvisioner.Proofs.Requests

/-!
# What a request does, action by action

The trace of a run holds what can be seen from outside. `Procedure.actions` lists everything that a
run does to its host, so that it can be said which paths are worked on and in what order. A request
for a volume prepares its mount point and then visits the export there (`Visit`), or does not get
that far.
-/
namespace NfsProvisioner

/-- Something that a procedure does to its host or wants to know of it. -/
inductive Action where
  | makeDirectory (p : Path)
  | isDirectory (p : Path)
  | removeDirectory (p : Path)
  | removeAll (p : Path)
  | call (call : Call)
deriving DecidableEq, Repr

/-- The action makes a directory or looks for one. -/
def Action.Prepares : Action → Prop
  | makeDirectory _ | isDirectory _ => True
  | removeDirectory _ | removeAll _ | call _ => False

/-- The actions of a visit to an export. Attaching it may fail. If it does not then the work is
done, and the export is detached. The mount point is removed unless the export may still be
there. -/
inductive Visit (target : Path) (server share : String) (work : Action) :
    (worked : Bool) → List Action → Prop where
  | refused : Visit target server share work false
      [.call (.attach target server share), .removeDirectory target]
  | stuck : Visit target server share work true
      [.call (.attach target server share), work, .call (.detach target)]
  | left : Visit target server share work true
      [.call (.attach target server share), work, .call (.detach target), .removeDirectory target]

/-- What a request does to the directory of its volume, as one action. -/
def VolumeRequest.action : VolumeRequest → Path → Action
  | .create _ => .makeDirectory
  | .delete _ => .removeAll

namespace Procedure

variable {σ α β : Type}

/-- What a procedure does when it is run, in order. -/
def actions (m : Mounter σ) : Procedure α → Host σ → List Action
  | done _, _ => []
  | now _ next, host => next.actions m host
  | makeDirectory p next, host =>
    .makeDirectory p :: (next (host.makeDirectory p).1).actions m (host.makeDirectory p).2
  | isDirectory p next, host =>
    .isDirectory p :: (next (host.tree.isDirectory host.cwd p)).actions m host
  | removeDirectory p next, host =>
    .removeDirectory p :: (next (host.removeDirectory p).1).actions m (host.removeDirectory p).2
  | removeAll p next, host =>
    .removeAll p :: (next (host.removeAll p).1).actions m (host.removeAll p).2
  | attach target server share next, host =>
    let reply := m.attach target server share host
    .call (.attach target server share) :: (next reply.result).actions m (host.after reply)
  | detach target next, host =>
    let reply := m.detach target host
    .call (.detach target) :: (next reply.result).actions m (host.after reply)

theorem actions_bind (m : Mounter σ) (p : Procedure α) (f : α → Procedure β) (host : Host σ) :
    (p.bind f).actions m host =
      p.actions m host ++ (f (p.run m host).answer).actions m (p.run m host).host := by
  induction p generalizing host with
  | done a => rfl
  | now s next ih => exact ih host
  | makeDirectory p next ih => exact congrArg (_ :: ·) (ih _ _)
  | isDirectory p next ih => exact congrArg (_ :: ·) (ih _ _)
  | removeDirectory p next ih => exact congrArg (_ :: ·) (ih _ _)
  | removeAll p next ih => exact congrArg (_ :: ·) (ih _ _)
  | attach target server share next ih => exact congrArg (_ :: ·) (ih _ _)
  | detach target next ih => exact congrArg (_ :: ·) (ih _ _)

theorem prepares_acceptExisting (m : Mounter σ) (p : Path) (result : Except Fault Unit)
    (host : Host σ) : ∀ a ∈ (acceptExisting p result).actions m host, a.Prepares := by
  cases result with
  | ok => simp [acceptExisting, actions]
  | error fault => simp [acceptExisting, actions, Action.Prepares]

theorem prepares_createDirectoriesFrom (m : Mounter σ) (anchor : Anchor) (trailing : Bool)
    (above : List String) (host : Host σ) :
    ∀ a ∈ (createDirectoriesFrom anchor trailing above).actions m host, a.Prepares := by
  induction above generalizing trailing host with
  | nil =>
    rw [createDirectoriesFrom]
    split
    · simp [actions]
    · rw [actions, List.forall_mem_cons]
      exact ⟨trivial, prepares_acceptExisting m _ _ _⟩
  | cons name above ih =>
    rw [createDirectoriesFrom, actions, List.forall_mem_cons]
    refine ⟨trivial, ?_⟩
    split
    · rw [actions_bind, List.forall_mem_append]
      refine ⟨ih false _, ?_⟩
      cases ((createDirectoriesFrom anchor false above).run m _).answer with
      | ok =>
        rw [actions, List.forall_mem_cons]
        exact ⟨trivial, prepares_acceptExisting m _ _ _⟩
      | error fault => simp [actions]
    · exact prepares_acceptExisting m _ _ _

theorem actions_release (m : Mounter σ) (target : Path) (host : Host σ) :
    (release target).actions m host =
      .call (.detach target) ::
        match (m.detach target host).result with
        | .ok () => [.removeDirectory target]
        | .error _ => [] := by
  rw [release, actions]
  refine (actions_bind m (detachBestEffort target) _ _).trans ((List.append_nil _).trans ?_)
  rw [detachBestEffort, actions]
  refine congrArg (_ :: ·) ?_
  cases (m.detach target host).result <;> rfl

/-- The actions of work on an attached export, phase by phase. -/
theorem actions_whileAttached (m : Mounter σ) (target : Path) (server share : String)
    (work : Procedure α) (host : Host σ) :
    (whileAttached target server share work).actions m host =
      let made := (createDirectories target).run m host
      (createDirectories target).actions m host ++
        match made.answer with
        | .error _ => []
        | .ok () =>
          let reply := m.attach target server share made.host
          .call (.attach target server share) ::
            match reply.result with
            | .error _ => [.removeDirectory target]
            | .ok () =>
              let worked := work.run m (made.host.after reply)
              work.actions m (made.host.after reply) ++ .call (.detach target) ::
                match (m.detach target worked.host).result with
                | .ok () => [.removeDirectory target]
                | .error _ => [] := by
  refine (actions_bind m _ _ host).trans (congrArg (_ ++ ·) ?_)
  cases ((createDirectories target).run m host).answer with
  | error fault => rfl
  | ok =>
    rw [actions]
    refine congrArg (_ :: ·) ?_
    cases (m.attach target server share ((createDirectories target).run m host).host).result with
    | error e => rfl
    | ok =>
      refine (actions_bind m work _ _).trans (congrArg (_ ++ ·) ?_)
      refine (actions_bind m (release target) _ _).trans ?_
      rw [actions_release]
      exact List.append_nil _

end Procedure

namespace Controller

variable {σ : Type} {c : Controller} {r : VolumeRequest} {p : Placement}

theorem actions_closing (c : Controller) (m : Mounter σ) (p : Placement) (r : VolumeRequest)
    (result : Except Error (Except Fault Unit)) (host : Host σ) :
    (c.closing p r result).actions m host = [] := by
  cases result with
  | error e => rfl
  | ok result =>
    rw [closing]
    induction closingEvents p r result with
    | nil => rfl
    | cons event events ih => exact ih

theorem actions_work (m : Mounter σ) (r : VolumeRequest) (path : Path) (host : Host σ) :
    (r.work path).actions m host = [r.action path] := by
  cases r <;> rfl

/-- The actions of a request: it prepares its mount point, and unless it fails before that, visits
the export. -/
theorem actions_serve (m : Mounter σ) (hscreen : c.screen r = .ok p) (host : Host σ) :
    ∃ before visit, (c.serve r).actions m host = before ++ visit ∧ (∀ a ∈ before, a.Prepares) ∧
      (visit = [] ∧ (∃ e, ((c.serve r).run m host).answer = .error e) ∨
        ∃ worked, Visit (c.mountPoint p) p.server p.baseSharePath (r.action (c.volumePath p))
            worked visit ∧
          (worked = false → ∃ e, ((c.serve r).run m host).answer = .error e)) := by
  have hprepares := Procedure.prepares_createDirectoriesFrom m (c.mountPoint p).anchor
    (c.mountPoint p).trailing (c.mountPoint p).names.reverse host
  have hactions : (c.serve r).actions m host = (c.onVolume p r.work).actions m host := by
    rw [serve_eq, hscreen]
    dsimp only
    rw [Procedure.actions_bind, actions_closing, List.append_nil]
  have hfailed : (∃ e, ((c.onVolume p r.work).run m host).answer = .error e) →
      ∃ e, ((c.serve r).run m host).answer = .error e := by
    rintro ⟨e, he⟩
    rw [run_serve, hscreen]
    dsimp only
    rw [he]
    exact ⟨e, rfl⟩
  rw [onVolume, Procedure.run_whileAttached] at hfailed
  rw [hactions, onVolume, Procedure.actions_whileAttached]
  refine ⟨_, _, rfl, hprepares, ?_⟩
  dsimp only at hfailed ⊢
  generalize (Procedure.createDirectories (c.mountPoint p)).run m host = made at hfailed ⊢
  cases hmade : made.answer with
  | error fault =>
    rw [hmade] at hfailed
    exact .inl ⟨rfl, hfailed ⟨_, rfl⟩⟩
  | ok =>
    right
    dsimp only
    cases hreply : (m.attach (c.mountPoint p) p.server p.baseSharePath made.host).result with
    | error e =>
      rw [hmade] at hfailed
      dsimp only at hfailed
      rw [hreply] at hfailed
      exact ⟨false, .refused, fun _ => hfailed ⟨e, rfl⟩⟩
    | ok =>
      refine ⟨true, ?_, fun h => by cases h⟩
      dsimp only
      rw [actions_work]
      split
      · exact .left
      · exact .stuck

end Controller
end NfsProvisioner
