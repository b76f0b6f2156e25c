import NfsProvisioner.Controller

/-!
# The course of a request for a volume

Making and removing a volume take one course: the request is screened and perhaps answered at once,
a mount point is made, the export is attached, the directory of the volume is worked on, and the
export is detached. `run_serve` spells this course out, phase by phase, for every host and every
mounter.
-/
namespace NfsProvisioner

/-- A request that makes or removes one volume. -/
inductive VolumeRequest where
  | create (request : CreateVolumeRequest)
  | delete (id : VolumeId)
deriving DecidableEq

/-- What such a request is answered with: an error, or the volume if one was asked for. -/
abbrev VolumeAnswer := Except Error (Option Volume)

/-- What a request does to the directory of its volume. -/
def VolumeRequest.work : VolumeRequest → Path → Procedure (Except Fault Unit)
  | .create _ => fun path => .makeDirectory path .done
  | .delete _ => fun path => .removeAll path .done

namespace Procedure

variable {σ τ α β : Type}

/-- A procedure that works on files and does nothing else. -/
def FilesOnly : Procedure α → Prop
  | done _ => True
  | now .. | attach .. | detach .. => False
  | makeDirectory _ next | removeDirectory _ next | removeAll _ next =>
    ∀ result, (next result).FilesOnly
  | isDirectory _ next => ∀ there, (next there).FilesOnly

theorem filesOnly_bind {p : Procedure α} {f : α → Procedure β} (hp : p.FilesOnly)
    (hf : ∀ a, (f a).FilesOnly) : (p.bind f).FilesOnly := by
  induction p with
  | done a => exact hf a
  | now | attach | detach => exact hp.elim
  | makeDirectory _ _ ih | isDirectory _ _ ih | removeDirectory _ _ ih | removeAll _ _ ih =>
    exact fun r => ih r (hp r)

theorem filesOnly_acceptExisting (p : Path) (result : Except Fault Unit) :
    (acceptExisting p result).FilesOnly := by
  cases result with
  | ok => trivial
  | error fault => exact fun _ => trivial

theorem filesOnly_createDirectoriesFrom (anchor : Anchor) (trailing : Bool) (above : List String) :
    (createDirectoriesFrom anchor trailing above).FilesOnly := by
  induction above generalizing trailing with
  | nil =>
    rw [createDirectoriesFrom]
    split
    · trivial
    · exact filesOnly_acceptExisting _
  | cons name above ih =>
    rw [createDirectoriesFrom]
    intro result
    dsimp only
    split
    · refine filesOnly_bind (ih false) fun result => ?_
      cases result with
      | ok => exact filesOnly_acceptExisting _
      | error fault => trivial
    · exact filesOnly_acceptExisting _ _

theorem filesOnly_createDirectories (p : Path) : (createDirectories p).FilesOnly :=
  filesOnly_createDirectoriesFrom _ _ _

theorem filesOnly_removeMountPoint (target : Path) : (removeMountPoint target).FilesOnly :=
  fun _ => trivial

theorem filesOnly_work (r : VolumeRequest) (p : Path) : (r.work p).FilesOnly := by
  cases r <;> exact fun _ => trivial

/-- Work on files is the same under every mounter. It makes no calls, and leaves alone what the
mounter remembers. -/
theorem run_of_filesOnly {p : Procedure α} (hp : p.FilesOnly) (m : Mounter σ) (m' : Mounter τ)
    (host : Host σ) (mounts : τ) :
    p.run m host =
      ⟨(p.run m' ⟨host.cwd, host.tree, mounts⟩).answer,
        ⟨host.cwd, (p.run m' ⟨host.cwd, host.tree, mounts⟩).host.tree, host.mounts⟩, []⟩ := by
  induction p generalizing host with
  | done a => rfl
  | now | attach | detach => exact hp.elim
  | isDirectory path next ih => exact ih _ (hp _) host
  | makeDirectory path next ih =>
    simp only [run, Host.makeDirectory, Host.change]
    cases host.tree.makeDirectory host.cwd path with
    | ok tree => exact ih _ (hp _) ⟨host.cwd, tree, host.mounts⟩
    | error fault => exact ih _ (hp _) host
  | removeDirectory path next ih =>
    simp only [run, Host.removeDirectory, Host.change]
    cases host.tree.removeDirectory host.cwd path with
    | ok tree => exact ih _ (hp _) ⟨host.cwd, tree, host.mounts⟩
    | error fault => exact ih _ (hp _) host
  | removeAll path next ih =>
    simp only [run, Host.removeAll, Host.change]
    cases host.tree.removeAll host.cwd path with
    | ok tree => exact ih _ (hp _) ⟨host.cwd, tree, host.mounts⟩
    | error fault => exact ih _ (hp _) host

theorem run_eq_of_filesOnly {p : Procedure α} (hp : p.FilesOnly) (m m' : Mounter σ)
    (host : Host σ) : p.run m host = p.run m' host :=
  (run_of_filesOnly hp m m' host host.mounts).trans
    (run_of_filesOnly hp m' m' host host.mounts).symm

theorem cwd_of_filesOnly {p : Procedure α} (hp : p.FilesOnly) (m : Mounter σ) (host : Host σ) :
    (p.run m host).host.cwd = host.cwd :=
  congrArg (fun o => o.host.cwd) (run_of_filesOnly hp m m host host.mounts)

theorem mounts_of_filesOnly {p : Procedure α} (hp : p.FilesOnly) (m : Mounter σ) (host : Host σ) :
    (p.run m host).host.mounts = host.mounts :=
  congrArg (fun o => o.host.mounts) (run_of_filesOnly hp m m host host.mounts)

theorem trace_of_filesOnly {p : Procedure α} (hp : p.FilesOnly) (m : Mounter σ) (host : Host σ) :
    (p.run m host).trace = [] :=
  congrArg Outcome.trace (run_of_filesOnly hp m m host host.mounts)

theorem calls_called (call : Call) (log : List Event) :
    (Happening.called call :: log.map .logged).filterMap Happening.call? = [call] := by
  simp [Happening.call?]

/-- The calls to the mounter come after those that were made before. -/
theorem calls_following (o : Outcome σ α) (earlier : List Happening) :
    (o.following earlier).calls = earlier.filterMap Happening.call? ++ o.calls := by
  simp [Outcome.calls, Outcome.following]

/-- Detaching, by what the mounter replies. -/
theorem run_detachBestEffort (m : Mounter σ) (target : Path) (host : Host σ) :
    (detachBestEffort target).run m host =
      let reply := m.detach target host
      let seen := Happening.called (.detach target) :: reply.log.map .logged
      match reply.result with
      | .ok () => ⟨(), ((host.after reply).removeDirectory target).2, seen⟩
      | .error e => ⟨(), host.after reply, seen ++ [.logged (detachFailed target e)]⟩ := by
  rw [detachBestEffort, run]
  dsimp only
  cases (m.detach target host).result with
  | ok => simp [removeMountPoint, run, Outcome.following]
  | error e => simp [log, run, Statement.seen, Outcome.following]

/-- A release comes to the same: telling the guard cannot be seen. -/
theorem run_release_eq (m : Mounter σ) (target : Path) (host : Host σ) :
    (release target).run m host = (detachBestEffort target).run m host := by
  rw [release, run, run_bind]
  simp [run, Statement.seen, Outcome.following]

theorem run_release (m : Mounter σ) (target : Path) (host : Host σ) :
    (release target).run m host =
      let reply := m.detach target host
      let seen := Happening.called (.detach target) :: reply.log.map .logged
      match reply.result with
      | .ok () => ⟨(), ((host.after reply).removeDirectory target).2, seen⟩
      | .error e => ⟨(), host.after reply, seen ++ [.logged (detachFailed target e)]⟩ :=
  (run_release_eq m target host).trans (run_detachBestEffort m target host)

/-- Work while an export is attached, phase by phase. -/
theorem run_whileAttached (m : Mounter σ) (target : Path) (server share : String)
    (work : Procedure α) (host : Host σ) :
    (whileAttached target server share work).run m host =
      let made := (createDirectories target).run m host
      match made.answer with
      | .error fault =>
        ⟨.error (.mountFailed target.text ("create mount point: " ++ fault.message)), made.host, []⟩
      | .ok () =>
        let reply := m.attach target server share made.host
        let seen := Happening.called (.attach target server share) :: reply.log.map .logged
        match reply.result with
        | .error e =>
          let left := (removeMountPoint target).run m (made.host.after reply)
          ⟨.error e, left.host, seen ++ left.trace⟩
        | .ok () =>
          let worked := work.run m (made.host.after reply)
          let left := (release target).run m worked.host
          ⟨.ok worked.answer, left.host, seen ++ worked.trace ++ left.trace⟩ := by
  have htrace := trace_of_filesOnly (filesOnly_createDirectories target) m host
  rw [whileAttached, run_bind]
  dsimp only
  cases ((createDirectories target).run m host).answer with
  | error fault => simp [run, pure, Outcome.following, htrace]
  | ok =>
    simp only [run, Outcome.following, htrace, List.nil_append]
    cases (m.attach target server share ((createDirectories target).run m host).host).result with
    | error e => simp [run_bind, run, pure, Outcome.following]
    | ok => simp [run_bind, run, pure, Statement.seen, Outcome.following]

end Procedure

namespace Controller

variable {σ : Type}

/-- Carries out a request. -/
def serve (c : Controller) : VolumeRequest → Procedure VolumeAnswer
  | .create request => Except.map some <$> c.createVolume request
  | .delete id => Except.map (fun _ => none) <$> c.deleteVolume id

/-- The volume that a request works on, or what it is answered with before any work. -/
def screen (c : Controller) : VolumeRequest → Except VolumeAnswer Placement
  | .create request =>
    match c.vet request with
    | .error e => .error (.error e)
    | .ok p => .ok p
  | .delete id =>
    if id.isEmpty then .error (.error (.invalidArgument "volume id is empty"))
    else match id.read with
      | .error _ => .error (.ok none)
      | .ok p => .ok p

/-- What a request is answered with after the work on the directory of its volume. -/
def conclusion (c : Controller) (p : Placement) : VolumeRequest → Except Fault Unit → VolumeAnswer
  | .create request, .ok () => .ok (some (p.toVolume request.requiredBytes))
  | .create _, .error fault =>
    .error (.internal
      ("failed to make subdirectory " ++ (c.volumePath p).text ++ ": " ++ fault.message))
  | .delete _, .ok () | .delete _, .error .notFound => .ok none
  | .delete _, .error fault =>
    .error (.internal
      ("failed to delete subdirectory " ++ (c.volumePath p).text ++ ": " ++ fault.message))

/-- What is logged after the work on the directory of a volume. -/
def closingEvents (p : Placement) : VolumeRequest → Except Fault Unit → List Event
  | .create _, .ok () => [volumeCreated p]
  | .delete id, .ok () | .delete id, .error .notFound => [volumeDeleted id]
  | .create _, .error _ | .delete _, .error _ => []

/-- The end of a request, once the work on the directory of its volume is over or could not
begin. -/
def closing (c : Controller) (p : Placement) (r : VolumeRequest) :
    Except Error (Except Fault Unit) → Procedure VolumeAnswer
  | .error e => .done (.error e)
  | .ok result =>
    (closingEvents p r result).foldr (fun event rest => .now (.log event) rest)
      (.done (c.conclusion p r result))

/-- A request that is not answered at once is work on the directory of a volume and an end. -/
theorem serve_eq (c : Controller) (r : VolumeRequest) :
    c.serve r =
      match c.screen r with
      | .error answer => .done answer
      | .ok p => (c.onVolume p r.work).bind (c.closing p r) := by
  cases r with
  | create request =>
    simp only [serve, screen, createVolume, VolumeRequest.work]
    cases c.vet request with
    | error e => rfl
    | ok p =>
      rw [map_eq_pure_bind, bind_assoc]
      refine congrArg (Procedure.bind _) (funext fun result => ?_)
      rcases result with e | fault | ⟨⟩ <;> rfl
  | delete id =>
    simp only [serve, screen, deleteVolume, VolumeRequest.work]
    split
    · rfl
    · cases id.read with
      | error fault => rfl
      | ok p =>
        rw [map_eq_pure_bind, bind_assoc]
        refine congrArg (Procedure.bind _) (funext fun result => ?_)
        rcases result with e | fault | ⟨⟩
        · rfl
        · cases fault <;> rfl
        · rfl

theorem run_closing (c : Controller) (m : Mounter σ) (p : Placement) (r : VolumeRequest)
    (result : Except Error (Except Fault Unit)) (host : Host σ) :
    (c.closing p r result).run m host =
      match result with
      | .error e => ⟨.error e, host, []⟩
      | .ok result =>
        ⟨c.conclusion p r result, host, (closingEvents p r result).map .logged⟩ := by
  cases result with
  | error e => rfl
  | ok result =>
    dsimp only
    rw [closing]
    induction closingEvents p r result with
    | nil => rfl
    | cons event events ih => simp [Procedure.run, ih, Statement.seen, Outcome.following]

/-- The course of a request. -/
theorem run_serve (c : Controller) (m : Mounter σ) (r : VolumeRequest) (host : Host σ) :
    (c.serve r).run m host =
      match c.screen r with
      | .error answer => ⟨answer, host, []⟩
      | .ok p =>
        let o := (c.onVolume p r.work).run m host
        match o.answer with
        | .error e => ⟨.error e, o.host, o.trace⟩
        | .ok result =>
          ⟨c.conclusion p r result, o.host,
            o.trace ++ (closingEvents p r result).map .logged⟩ := by
  rw [serve_eq]
  cases c.screen r with
  | error answer => rfl
  | ok p =>
    have hbind := Procedure.run_bind m (c.onVolume p r.work) (c.closing p r) host
    refine hbind.trans ?_
    rw [run_closing]
    dsimp only
    cases ((c.onVolume p r.work).run m host).answer with
    | error e => simp [Outcome.following]
    | ok result => rfl

/-- The course of a request that is worked on, up to its end. -/
theorem run_serve_of_screen {c : Controller} {r : VolumeRequest} {p : Placement}
    (h : c.screen r = .ok p) (m : Mounter σ) (host : Host σ) :
    (c.serve r).run m host =
      let target := c.mountPoint p
      let made := (Procedure.createDirectories target).run m host
      match made.answer with
      | .error fault =>
        ⟨.error (.mountFailed target.text ("create mount point: " ++ fault.message)), made.host, []⟩
      | .ok () =>
        let reply := m.attach target p.server p.baseSharePath made.host
        let seen := Happening.called (.attach target p.server p.baseSharePath) ::
          reply.log.map .logged
        match reply.result with
        | .error e => ⟨.error e, ((made.host.after reply).removeDirectory target).2, seen⟩
        | .ok () =>
          let worked := (r.work (c.volumePath p)).run m (made.host.after reply)
          let left := (Procedure.release target).run m worked.host
          ⟨c.conclusion p r worked.answer, left.host,
            seen ++ left.trace ++ (closingEvents p r worked.answer).map .logged⟩ := by
  have hwork (host : Host σ) : ((r.work (c.volumePath p)).run m host).trace = [] :=
    Procedure.trace_of_filesOnly (Procedure.filesOnly_work r _) m host
  rw [run_serve, h]
  dsimp only
  rw [onVolume, Procedure.run_whileAttached]
  dsimp only
  generalize (Procedure.createDirectories (c.mountPoint p)).run m host = made
  cases made.answer with
  | error fault => rfl
  | ok =>
    dsimp only
    generalize m.attach (c.mountPoint p) p.server p.baseSharePath made.host = reply
    cases reply.result with
    | error e => simp [Procedure.removeMountPoint, Procedure.run]
    | ok => simp [hwork]

namespace Sample

/-- Works below `/work`. -/
def controller : Controller :=
  .start {} { workingDirectory := "/work" } []

/-- Asks for the volume `s1/base/vol1`. -/
def request : CreateVolumeRequest where
  name := "vol1"
  capabilities := [some (.mount .multiNodeMultiWriter)]
  parameters := .ofList [("server", "s1"), ("base-dir", "base")]

end Sample
end Controller
end NfsProvisioner
