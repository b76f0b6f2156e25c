import NfsProvisioner.Proofs.Dropping

/-!
# A request that is cut off

A caller may stop waiting for a request at any time. Whenever it does, the request has got to one
of a few stages (`Course.Stage`): it begins at the first of them (`Course.stage_start`), an action
leads from one to another (`Course.Stage.resume`), and so it is at one of them after any number of
actions (`Course.Stage.after`). At only one of them there is a guard that has not been told, namely
while an attached export is worked on (`Course.Stage.eq_working_or_unguarded`).
-/
namespace NfsProvisioner

variable {σ : Type}

namespace Running

variable {α : Type}

/-- A call has returned that has attached something at the target. -/
def Attached (r : Running σ α) (target : Path) : Prop :=
  ∃ receipt ∈ r.returned, receipt.attaches target = true

/-- The target is being detached or has been. -/
def Releasing (r : Running σ α) (target : Path) : Prop :=
  .detach target ∈ r.issued

end Running

namespace Controller

/-- The end of a request for which an export has been attached and detached. -/
def afterRelease (c : Controller) (p : Placement) (r : VolumeRequest)
    (result : Except Fault Unit) : Procedure VolumeAnswer :=
  .now .leaveGuard (c.closing p r (.ok result))

/-- What remains of a request once the mount point has been made, or could not be made. -/
def afterMaking (c : Controller) (p : Placement) (r : VolumeRequest) :
    Except Fault Unit → Procedure VolumeAnswer
  | .error fault =>
    .done (.error (.mountFailed (c.mountPoint p).text ("create mount point: " ++ fault.message)))
  | .ok () =>
    .attach (c.mountPoint p) p.server p.baseSharePath fun
      | .error e => (Procedure.removeMountPoint (c.mountPoint p)).bind fun _ => .done (.error e)
      | .ok () =>
        .now (.guard (c.mountPoint p)) <| (r.work (c.volumePath p)).bind fun result =>
          .now .markReleased <| (Procedure.detachBestEffort (c.mountPoint p)).bind fun _ =>
            c.afterRelease p r result

/-- A request that is worked on begins with its mount point. -/
theorem serve_of_screen {c : Controller} {r : VolumeRequest} {p : Placement}
    (h : c.screen r = .ok p) :
    c.serve r = (Procedure.createDirectories (c.mountPoint p)).bind (c.afterMaking p r) := by
  rw [serve_eq, h]
  refine (Procedure.bind_assoc (Procedure.createDirectories (c.mountPoint p)) _ _).trans ?_
  refine congrArg (Procedure.bind _) (funext fun made => ?_)
  cases made with
  | error fault => rfl
  | ok =>
    refine congrArg (Procedure.attach _ _ _) (funext fun reply => ?_)
    cases reply with
    | error e => rfl
    | ok =>
      refine congrArg (Procedure.now _) ?_
      refine (Procedure.bind_assoc (r.work (c.volumePath p)) _ _).trans ?_
      refine congrArg (Procedure.bind _) (funext fun result => ?_)
      refine congrArg (Procedure.now _) ?_
      refine (congrArg (Procedure.bind · _) (Procedure.bind_assoc _ _ _)).trans ?_
      exact Procedure.bind_assoc (Procedure.detachBestEffort (c.mountPoint p)) _ _

/-- What the end of a request logs needs nothing to be waited for. -/
theorem advance_closing (c : Controller) (p : Placement) (r : VolumeRequest)
    (result : Except Fault Unit) (s : Standing σ) :
    Running.advance (c.closing p r (.ok result)) s =
      ⟨{ s with trace := s.trace ++ (closingEvents p r result).map .logged },
        .done (c.conclusion p r result)⟩ := by
  rw [closing]
  induction closingEvents p r result generalizing s with
  | nil => simp [Running.advance]
  | cons event events ih => simp [Running.advance, Standing.carryOut, ih]

/-- Once the export has been released, nothing comes of leaving the guard. -/
theorem advance_afterRelease (c : Controller) (p : Placement) (r : VolumeRequest)
    (result : Except Fault Unit) {s : Standing σ} (h : s.Unguarded) :
    Running.advance (c.afterRelease p r result) s =
      ⟨{ s with guard := none, trace := s.trace ++ (closingEvents p r result).map .logged },
        .done (c.conclusion p r result)⟩ := by
  rw [afterRelease, Running.advance, Standing.carryOut, Standing.dropGuard_of_unguarded h,
    advance_closing]

end Controller

/-- A request that is worked on, and the world that it is worked on in. -/
structure Course (σ : Type) where
  controller : Controller
  request : VolumeRequest
  placement : Placement
  screened : controller.screen request = .ok placement
  mounter : Mounter σ
  host : Host σ

namespace Course

variable (k : Course σ)

def target : Path :=
  k.controller.mountPoint k.placement

def attachment : Call :=
  .attach k.target k.placement.server k.placement.baseSharePath

/-- What making the mount point comes to. -/
def made : Outcome σ (Except Fault Unit) :=
  (Procedure.createDirectories k.target).run k.mounter k.host

/-- What the mounter replies when it is to attach the export. -/
def attached : Reply σ :=
  k.mounter.reply k.attachment k.made.host

def work : Procedure (Except Fault Unit) :=
  k.request.work (k.controller.volumePath k.placement)

/-- What the work on the directory of the volume comes to. -/
def worked : Outcome σ (Except Fault Unit) :=
  k.work.run k.mounter (k.made.host.after k.attached)

/-- What the mounter replies when it is to detach the export. -/
def detached : Reply σ :=
  k.mounter.reply (.detach k.target) k.worked.host

/-- What can be seen of the attachment. -/
def seenAttached : List Happening :=
  .called k.attachment :: k.attached.log.map .logged

/-- What can be seen of the detachment. -/
def seenDetached : List Happening :=
  .called (.detach k.target) :: k.detached.log.map .logged

/-- The request, if nobody cuts it off. -/
def completed : Outcome σ VolumeAnswer :=
  (k.controller.serve k.request).run k.mounter k.host

def afterMaking : Except Fault Unit → Procedure VolumeAnswer :=
  k.controller.afterMaking k.placement k.request

def afterWork (result : Except Fault Unit) : Procedure VolumeAnswer :=
  .now .markReleased <| (Procedure.detachBestEffort k.target).bind fun _ =>
    k.controller.afterRelease k.placement k.request result

/-- The mounter is to attach the export. -/
def attaching : Running σ VolumeAnswer :=
  ⟨{ host := k.made.host }, k.afterMaking (.ok ())⟩

/-- The mounter has failed to attach the export, and the mount point is to be removed. -/
def clearing (e : Error) : Running σ VolumeAnswer where
  host := k.made.host.after k.attached
  returned := [⟨k.attachment, .error e⟩]
  trace := k.seenAttached
  rest := (Procedure.removeMountPoint k.target).bind fun _ => .done (.error e)

/-- The export is attached, and the directory of the volume is to be worked on. -/
def working : Running σ VolumeAnswer where
  host := k.made.host.after k.attached
  guard := some ⟨k.target, false⟩
  returned := [⟨k.attachment, .ok ()⟩]
  trace := k.seenAttached
  rest := k.work.bind k.afterWork

/-- The mounter is to detach the export. -/
def detaching : Running σ VolumeAnswer where
  host := k.worked.host
  guard := some ⟨k.target, true⟩
  returned := [⟨k.attachment, .ok ()⟩]
  trace := k.seenAttached
  rest := (Procedure.detachBestEffort k.target).bind fun _ =>
    k.controller.afterRelease k.placement k.request k.worked.answer

/-- The mounter has detached the export, and the mount point is to be removed. -/
def removing : Running σ VolumeAnswer where
  host := k.worked.host.after k.detached
  guard := some ⟨k.target, true⟩
  returned := [⟨k.attachment, .ok ()⟩, ⟨.detach k.target, .ok ()⟩]
  trace := k.seenAttached ++ k.seenDetached
  rest := (Procedure.removeMountPoint k.target).bind fun _ =>
    k.controller.afterRelease k.placement k.request k.worked.answer

/-- Nothing has been attached, or it has been detached, too. -/
def Settled (returned : List Receipt) : Prop :=
  returned = [] ∨ (∃ e, returned = [⟨k.attachment, .error e⟩]) ∨
    ∃ result, returned = [⟨k.attachment, .ok ()⟩, ⟨.detach k.target, result⟩]

/-- The stages that the request gets to. At the first of them some of the work on the mount point
is left. -/
inductive Stage : Running σ VolumeAnswer → Prop where
  | making {p p' : Procedure (Except Fault Unit)} {host host' : Host σ} {seen : List Happening}
      (hp : p.FilesOnly) (hs : p.step k.mounter host = some (p', host', seen))
      (hmade : p.run k.mounter host = k.made) : Stage ⟨{ host }, p.bind k.afterMaking⟩
  | attaching (hmade : k.made.answer = .ok ()) : Stage k.attaching
  | clearing {e : Error} (hmade : k.made.answer = .ok ())
      (hattached : k.attached.result = .error e) : Stage (k.clearing e)
  | working (hmade : k.made.answer = .ok ()) (hattached : k.attached.result = .ok ()) :
      Stage k.working
  | detaching (hmade : k.made.answer = .ok ()) (hattached : k.attached.result = .ok ()) :
      Stage k.detaching
  | removing (hmade : k.made.answer = .ok ()) (hattached : k.attached.result = .ok ())
      (hdetached : k.detached.result = .ok ()) : Stage k.removing
  | finished {s : Standing σ} {answer : VolumeAnswer} (hguard : s.guard = none)
      (hbackground : s.background = []) (hreturned : k.Settled s.returned)
      (hcompleted : k.completed = ⟨answer, s.host, s.trace⟩) : Stage ⟨s, .done answer⟩

variable {k}

/-- The course of a request, in these terms. -/
theorem completed_eq (k : Course σ) :
    k.completed =
      match k.made.answer with
      | .error fault =>
        ⟨.error (.mountFailed k.target.text ("create mount point: " ++ fault.message)),
          k.made.host, []⟩
      | .ok () =>
        match k.attached.result with
        | .error e =>
          ⟨.error e, ((k.made.host.after k.attached).removeDirectory k.target).2, k.seenAttached⟩
        | .ok () =>
          let left := (Procedure.release k.target).run k.mounter k.worked.host
          ⟨k.controller.conclusion k.placement k.request k.worked.answer, left.host,
            k.seenAttached ++ left.trace ++
              (Controller.closingEvents k.placement k.request k.worked.answer).map .logged⟩ :=
  Controller.run_serve_of_screen k.screened k.mounter k.host

/-- The release of the export, in these terms. -/
theorem run_release (k : Course σ) :
    (Procedure.release k.target).run k.mounter k.worked.host =
      match k.detached.result with
      | .ok () =>
        ⟨(), ((k.worked.host.after k.detached).removeDirectory k.target).2, k.seenDetached⟩
      | .error e =>
        ⟨(), k.worked.host.after k.detached,
          k.seenDetached ++ [.logged (Procedure.detachFailed k.target e)]⟩ :=
  Procedure.run_release k.mounter k.target k.worked.host

/-- What remains after a release ends as the whole request does. -/
theorem stage_afterRelease {s : Standing σ} (hmade : k.made.answer = .ok ())
    (hattached : k.attached.result = .ok ()) (hguard : s.Unguarded)
    (hbackground : s.background = [])
    (hreturned : ∃ result, s.returned = [⟨k.attachment, .ok ()⟩, ⟨.detach k.target, result⟩])
    (hhost : s.host = ((Procedure.release k.target).run k.mounter k.worked.host).host)
    (htrace : s.trace =
      k.seenAttached ++ ((Procedure.release k.target).run k.mounter k.worked.host).trace) :
    k.Stage (.advance (k.controller.afterRelease k.placement k.request k.worked.answer) s) := by
  rw [Controller.advance_afterRelease _ _ _ _ hguard]
  refine .finished rfl hbackground (.inr (.inr hreturned)) ?_
  simp [completed_eq, hmade, hattached, hhost, htrace]

theorem step_work (k : Course σ) (host : Host σ) :
    k.work.step k.mounter host =
      some (.done (k.work.run k.mounter host).answer, (k.work.run k.mounter host).host, []) := by
  rw [work]
  cases k.request <;> rfl

theorem filesOnly_work (k : Course σ) : k.work.FilesOnly :=
  Procedure.filesOnly_work _ _

/-- A request that has not got past its mount point is at one of the first stages, or has failed. -/
theorem stage_of_making {p : Procedure (Except Fault Unit)} {host : Host σ} (hp : p.FilesOnly)
    (hmade : p.run k.mounter host = k.made) :
    k.Stage (.advance (p.bind k.afterMaking) { host }) := by
  cases hs : p.step k.mounter host with
  | some result =>
    obtain ⟨q, host', seen⟩ := result
    obtain ⟨-, -, hadvance⟩ := Procedure.waits_of_filesOnly hp hs k.afterMaking
    rw [hadvance]
    exact .making hp hs hmade
  | none =>
    obtain ⟨answer, rfl⟩ := Procedure.eq_done_of_step hs
    obtain ⟨rfl, rfl⟩ : k.made.answer = answer ∧ k.made.host = host := by
      rw [← hmade]
      exact ⟨rfl, rfl⟩
    change k.Stage (.advance (k.afterMaking k.made.answer) { host := k.made.host })
    cases hanswer : k.made.answer with
    | ok => exact .attaching hanswer
    | error fault => exact .finished rfl rfl (.inl rfl) (by simp [completed_eq, hanswer, target])

theorem stage_start (k : Course σ) :
    k.Stage (.start (k.controller.serve k.request) k.host) := by
  rw [Controller.serve_of_screen k.screened]
  exact stage_of_making (Procedure.filesOnly_createDirectories _) rfl

/-- What remains of a request once the mounter has replied. -/
def afterAttaching (k : Course σ) : Except Error Unit → Procedure VolumeAnswer
  | .error e => (Procedure.removeMountPoint k.target).bind fun _ => .done (.error e)
  | .ok () => .now (.guard k.target) <| k.work.bind k.afterWork

theorem resume_attaching (k : Course σ) :
    k.attaching.resume k.mounter =
      some (.advance (k.afterAttaching k.attached.result)
        { host := k.made.host.after k.attached
          returned := [⟨k.attachment, k.attached.result⟩]
          trace := k.seenAttached }) :=
  rfl

/-- A guard is put over an export that has been attached. -/
theorem resume_attaching_of_ok (hattached : k.attached.result = .ok ()) :
    k.attaching.resume k.mounter = some k.working := by
  rw [resume_attaching, hattached, afterAttaching, Running.advance, Standing.carryOut]
  obtain ⟨-, -, hadvance⟩ :=
    Procedure.waits_of_filesOnly k.filesOnly_work (k.step_work k.host) k.afterWork
  rw [hadvance]
  rfl

theorem resume_clearing (k : Course σ) (e : Error) :
    (k.clearing e).resume k.mounter =
      some ⟨{ (k.clearing e).toStanding with
        host := ((k.made.host.after k.attached).removeDirectory k.target).2 },
        .done (.error e)⟩ :=
  Running.resume_of_filesOnly (Procedure.filesOnly_removeMountPoint k.target) rfl _

/-- The guard is told before the mounter is asked to detach the export. -/
theorem resume_working (k : Course σ) : k.working.resume k.mounter = some k.detaching :=
  Running.resume_of_filesOnly k.filesOnly_work (k.step_work _) k.afterWork

theorem resume_detaching (k : Course σ) :
    k.detaching.resume k.mounter =
      some (.advance
        ((match k.detached.result with
          | .ok () => Procedure.removeMountPoint k.target
          | .error e => .log (Procedure.detachFailed k.target e)).bind fun _ =>
            k.controller.afterRelease k.placement k.request k.worked.answer)
        { k.detaching.toStanding with
          host := k.worked.host.after k.detached
          returned := [⟨k.attachment, .ok ()⟩, ⟨.detach k.target, k.detached.result⟩]
          trace := k.seenAttached ++ k.seenDetached }) :=
  rfl

theorem resume_removing (k : Course σ) :
    k.removing.resume k.mounter =
      some (.advance (k.controller.afterRelease k.placement k.request k.worked.answer)
        { k.removing.toStanding with
          host := ((k.worked.host.after k.detached).removeDirectory k.target).2 }) :=
  Running.resume_of_filesOnly (Procedure.filesOnly_removeMountPoint k.target) rfl _

/-- An action leads from one stage to another. -/
theorem Stage.resume {r r' : Running σ VolumeAnswer} (h : k.Stage r)
    (hr : r.resume k.mounter = some r') : k.Stage r' := by
  cases h with
  | making hp hs hmade =>
    -- The only stage that an action may leave as it is: directories above may be missing.
    obtain ⟨hp', rfl⟩ := Procedure.step_of_filesOnly hp hs
    rw [Running.resume_of_filesOnly hp hs] at hr
    cases hr
    rw [Procedure.run_of_step _ hs] at hmade
    exact stage_of_making hp' hmade
  | attaching hmade =>
    cases hattached : k.attached.result with
    | error e =>
      rw [resume_attaching, hattached] at hr
      cases hr
      exact .clearing hmade hattached
    | ok =>
      rw [resume_attaching_of_ok hattached] at hr
      cases hr
      exact .working hmade hattached
  | clearing hmade hattached =>
    rw [resume_clearing] at hr
    cases hr
    refine .finished rfl rfl (.inr (.inl ⟨_, rfl⟩)) ?_
    rw [completed_eq, hmade, hattached]
    rfl
  | working hmade hattached =>
    rw [resume_working] at hr
    cases hr
    exact .detaching hmade hattached
  | detaching hmade hattached =>
    rw [resume_detaching] at hr
    have hguard : k.detaching.Unguarded := Standing.unguarded_of_released rfl
    cases hdetached : k.detached.result with
    | ok =>
      rw [hdetached] at hr
      cases hr
      exact .removing hmade hattached hdetached
    | error e =>
      rw [hdetached] at hr
      cases hr
      refine stage_afterRelease hmade hattached hguard rfl ⟨_, rfl⟩ ?_ ?_
      · rw [run_release, hdetached]
        rfl
      · rw [run_release, hdetached, ← List.append_assoc]
        rfl
  | removing hmade hattached hdetached =>
    rw [resume_removing] at hr
    have hguard : k.removing.Unguarded := Standing.unguarded_of_released rfl
    cases hr
    refine stage_afterRelease hmade hattached hguard rfl ⟨_, rfl⟩ ?_ ?_
    · rw [run_release, hdetached]
    · rw [run_release, hdetached]
      rfl
  | finished => cases hr

theorem Stage.after {r : Running σ VolumeAnswer} (h : k.Stage r) (n : Nat) :
    k.Stage (r.after k.mounter n) := by
  induction n generalizing r with
  | zero => exact h
  | succ n ih =>
    rw [Running.after]
    cases hr : r.resume k.mounter with
    | none => exact h
    | some r' => exact ih (h.resume hr)

/-- At every stage but one there is no guard that could do anything. Either nothing has been
attached then, or its detachment has begun. -/
theorem Stage.eq_working_or_unguarded {r : Running σ VolumeAnswer} (h : k.Stage r) :
    r = k.working ∨
      r.Unguarded ∧ r.background = [] ∧
        (¬ r.Attached k.target ∧ r.issued <+: [k.attachment] ∨
          r.Attached k.target ∧ r.issued = [k.attachment, .detach k.target]) := by
  have hattaches : Receipt.attaches k.target ⟨k.attachment, .ok ()⟩ = true := by
    simp [Receipt.attaches, attachment]
  cases h with
  | making hp hs _ =>
    obtain ⟨hcall, -, -⟩ := Procedure.waits_of_filesOnly hp hs k.afterMaking
    refine .inr ⟨Standing.unguarded_of_none rfl, rfl, .inl ⟨?_, ?_⟩⟩
    · rintro ⟨receipt, hmem, -⟩
      cases hmem
    · simp [Running.issued, hcall]
  | attaching =>
    refine .inr ⟨Standing.unguarded_of_none rfl, rfl, .inl ⟨?_, ?_⟩⟩
    · rintro ⟨receipt, hmem, -⟩
      cases hmem
    · exact List.prefix_refl _
  | clearing =>
    refine .inr ⟨Standing.unguarded_of_none rfl, rfl, .inl ⟨?_, ?_⟩⟩
    · rintro ⟨receipt, hmem, hok⟩
      cases List.mem_singleton.1 hmem
      cases hok
    · exact List.prefix_refl _
  | working => exact .inl rfl
  | detaching =>
    exact .inr ⟨Standing.unguarded_of_released rfl, rfl,
      .inr ⟨⟨_, List.mem_cons_self, hattaches⟩, rfl⟩⟩
  | removing =>
    exact .inr ⟨Standing.unguarded_of_released rfl, rfl,
      .inr ⟨⟨_, List.mem_cons_self, hattaches⟩, rfl⟩⟩
  | @finished s answer hguard hbackground hreturned _ =>
    refine .inr ⟨Standing.unguarded_of_none hguard, hbackground, ?_⟩
    rcases hreturned with hnone | ⟨e, hrefused⟩ | ⟨result, hdetached⟩
    · simp [Running.Attached, Running.issued, Procedure.call?, hnone]
    · simp [Running.Attached, Running.issued, Procedure.call?, hrefused, attachment,
        Receipt.attaches]
    · simp [Running.Attached, Running.issued, Procedure.call?, hdetached, attachment,
        Receipt.attaches]

theorem waits_working (k : Course σ) :
    k.working.rest.call? = none ∧ k.working.rest.answer? = none := by
  obtain ⟨hcall, hanswer, -⟩ :=
    Procedure.waits_of_filesOnly k.filesOnly_work (k.step_work k.host) k.afterWork
  exact ⟨hcall, hanswer⟩

/-- While the export is worked on it is attached, and its detachment has not begun. -/
theorem attached_working (k : Course σ) :
    k.working.Attached k.target ∧ ¬ k.working.Releasing k.target := by
  constructor
  · exact ⟨_, List.mem_cons_self, by simp [Receipt.attaches, attachment]⟩
  · rw [Running.Releasing, Running.issued, (waits_working k).1]
    simp [working, attachment]

/-- A request that is done has come to what it comes to if nobody cuts it off. -/
theorem Stage.fate_of_answer {r : Running σ VolumeAnswer} (h : k.Stage r) {answer : VolumeAnswer}
    (hanswer : r.rest.answer? = some answer) (d : Dropping σ) :
    r.fate k.mounter d = ⟨some k.completed.answer, k.completed.host, k.completed.trace⟩ := by
  cases h with
  | making hp hs _ =>
    obtain ⟨-, hnone, -⟩ := Procedure.waits_of_filesOnly hp hs k.afterMaking
    cases hnone.symm.trans hanswer
  | attaching | clearing | detaching | removing => cases hanswer
  | working => cases (waits_working k).2.symm.trans hanswer
  | finished hguard hbackground _ hcompleted =>
    rw [Running.fate_of_done hguard hbackground, hcompleted]

/-- The work on the directory of the volume is a single action. -/
theorem underWay_working (k : Course σ) (n : Nat) :
    k.working.rest.underWay n = if n = 0 then .done () else k.work.bind fun _ => .done () := by
  have hstop (n : Nat) (result : Except Fault Unit) :
      (k.afterWork result).underWay n = .done () := by
    cases n <;> rfl
  rw [working, work]
  cases n with
  | zero => cases k.request <;> rfl
  | succ n =>
    cases k.request <;>
      simp only [VolumeRequest.work, Procedure.bind, Procedure.underWay, hstop] <;> rfl

/-- Outside a runtime the mount point is left in place. -/
theorem fate_working_outside (k : Course σ) {d : Dropping σ} (hd : d.inRuntime = false) :
    k.working.fate k.mounter d =
      ⟨none, if d.carried = 0 then k.made.host.after k.attached else k.worked.host,
        k.seenAttached ++ [.logged (abandoned k.target false)]⟩ := by
  obtain ⟨hcall, hanswer⟩ := waits_working k
  rw [Running.fate_of_guarded_outside rfl rfl hcall hd, hanswer, underWay_working]
  congr 1
  split
  · rfl
  · exact congrArg Outcome.host
      (Procedure.run_of_step _ (Procedure.step_bind (k.step_work _) _))

/-- Inside a runtime the export is detached, whenever the work under way takes effect. -/
theorem fate_working_inside (k : Course σ) {d : Dropping σ} (hd : d.inRuntime = true) :
    ∃ background, (k.working.fate k.mounter d).trace =
        k.seenAttached ++ .logged (abandoned k.target true) :: background ∧
      DetachedMeanwhile k.mounter k.target (fun host => (k.work.run k.mounter host).host)
        (k.made.host.after k.attached) (k.working.fate k.mounter d).host background := by
  obtain ⟨hcall, -⟩ := waits_working k
  obtain ⟨background, htrace, h⟩ :=
    Running.fate_of_guarded_inside (m := k.mounter) rfl rfl hcall hd
  refine ⟨background, htrace, ?_⟩
  rw [underWay_working] at h
  split at h
  · obtain ⟨hhost, rfl⟩ := Interleaved.done_iff.1 h
    rw [hhost]
    exact .of_never _ _
  · exact .of_interleaved (fun host => Procedure.step_bind (k.step_work host) _) h

/-- The guard calls for one detachment, or for none where the mount point is left in place. -/
theorem calls_fate_working (k : Course σ) (d : Dropping σ) :
    (k.working.fate k.mounter d).calls =
      if d.inRuntime then [k.attachment, .detach k.target] else [k.attachment] := by
  rw [Outcome.calls]
  cases hd : d.inRuntime with
  | false =>
    rw [fate_working_outside k hd]
    simp [seenAttached, -List.filterMap_map]
  | true =>
    obtain ⟨background, htrace, hdetached⟩ := fate_working_inside k hd
    rw [htrace]
    simp [seenAttached, hdetached.calls, -List.filterMap_map]

variable {r : Running σ VolumeAnswer}

/-- Nothing is detached that has not been attached. -/
theorem Stage.calls_of_not_attached (h : k.Stage r) (hr : r.Accounted)
    (hnot : ¬ r.Attached k.target) (d : Dropping σ) :
    (r.fate k.mounter d).calls <+: [k.attachment] := by
  rcases h.eq_working_or_unguarded with rfl | ⟨hguard, hbackground, ⟨-, hissued⟩ | ⟨hattached, -⟩⟩
  · exact absurd (attached_working k).1 hnot
  · exact Running.calls_fate hguard hbackground hr d ▸ hissued
  · exact absurd hattached hnot

/-- What is attached and not being detached is being worked on. -/
theorem Stage.eq_working (h : k.Stage r) (hattached : r.Attached k.target)
    (hreleasing : ¬ r.Releasing k.target) : r = k.working := by
  rcases h.eq_working_or_unguarded with hworking | ⟨-, -, ⟨hnot, -⟩ | ⟨-, hissued⟩⟩
  · exact hworking
  · exact absurd hattached hnot
  · rw [Running.Releasing, hissued] at hreleasing
    exact absurd (List.mem_cons_of_mem _ List.mem_cons_self) hreleasing

/-- What is being detached is not detached once more. -/
theorem Stage.calls_of_releasing (h : k.Stage r) (hr : r.Accounted)
    (hreleasing : r.Releasing k.target) (d : Dropping σ) :
    r.Attached k.target ∧ r.issued = [k.attachment, .detach k.target] ∧
      (r.fate k.mounter d).calls = [k.attachment, .detach k.target] := by
  rcases h.eq_working_or_unguarded with
    rfl | ⟨hguard, hbackground, ⟨-, hissued⟩ | ⟨hattached, hissued⟩⟩
  · exact absurd hreleasing (attached_working k).2
  · cases List.mem_singleton.1 (hissued.subset hreleasing)
  · exact ⟨hattached, hissued, (Running.calls_fate hguard hbackground hr d).trans hissued⟩

theorem Stage.calls_prefix (h : k.Stage r) (hr : r.Accounted) (d : Dropping σ) :
    (r.fate k.mounter d).calls <+: [k.attachment, .detach k.target] := by
  by_cases hattached : r.Attached k.target
  · by_cases hreleasing : r.Releasing k.target
    · exact (h.calls_of_releasing hr hreleasing d).2.2 ▸ List.prefix_refl _
    · rw [h.eq_working hattached hreleasing, calls_fate_working]
      split
      · exact List.prefix_refl _
      · exact ⟨[.detach k.target], rfl⟩
  · exact (h.calls_of_not_attached hr hattached d).trans ⟨[.detach k.target], rfl⟩

/-- The request after a number of actions. -/
def before (k : Course σ) (actions : Nat) : Running σ VolumeAnswer :=
  (Running.start (k.controller.serve k.request) k.host).after k.mounter actions

theorem stage_before (k : Course σ) (actions : Nat) : k.Stage (k.before actions) :=
  k.stage_start.after actions

theorem accounted_before (k : Course σ) (actions : Nat) : (k.before actions).Accounted :=
  Running.accounted_after (Running.accounted_start _ _) actions

theorem before_succ {n : Nat} {r : Running σ VolumeAnswer}
    (h : (k.before n).resume k.mounter = some r) : k.before (n + 1) = r := by
  rw [before, Running.after_add]
  exact Running.after_succ h 0

/-- The request waits for the attachment, then for the work, then for the detachment. -/
theorem exists_before (hmade : k.made.answer = .ok ()) (hattached : k.attached.result = .ok ()) :
    ∃ n, k.before n = k.attaching ∧ k.before (n + 1) = k.working ∧
      k.before (n + 2) = k.detaching := by
  obtain ⟨n, hn⟩ := Running.exists_after_of_filesOnly (m := k.mounter)
    (Procedure.filesOnly_createDirectories k.target) k.afterMaking { host := k.host }
  have hattaching : k.before n = k.attaching := by
    rw [before, Controller.serve_of_screen k.screened]
    refine hn.trans ?_
    change Running.advance (k.afterMaking k.made.answer) _ = _
    rw [hmade]
    rfl
  have hworking : k.before (n + 1) = k.working :=
    before_succ (hattaching ▸ resume_attaching_of_ok hattached)
  exact ⟨n, hattaching, hworking, before_succ (hworking ▸ k.resume_working)⟩

end Course

namespace Controller

/-- Whenever a caller stops waiting for a request, its calls are one attachment and one detachment,
or a beginning of that. Nothing is detached unless it has been attached. An export that is attached
by then and not being detached yet is reported, and is detached in the background if there is a
runtime for that, after which its mount point is removed if it is empty. Otherwise it is left in
place. If it is being detached already it is not detached once more. A request can be cut off at
each of these times. -/
theorem detached_at_most_once_if_cut_off (c : Controller) (m : Mounter σ) (host : Host σ)
    (r : VolumeRequest) :
    let before (actions : Nat) := (Running.start (c.serve r) host).after m actions
    let completed := (c.serve r).run m host
    match c.screen r with
    | .error answer =>
      ∀ actions d, (c.serve r).dropAfter m host actions d = ⟨some answer, host, []⟩
    | .ok p =>
      let target := c.mountPoint p
      let attach := Call.attach target p.server p.baseSharePath
      let made := (Procedure.createDirectories target).run m host
      let reply := m.attach target p.server p.baseSharePath made.host
      let attached := made.host.after reply
      let seen := Happening.called attach :: reply.log.map .logged
      let work (host : Host σ) := ((r.work (c.volumePath p)).run m host).host
      (∀ actions d,
        let cut := (c.serve r).dropAfter m host actions d
        cut.calls <+: [attach, .detach target] ∧
        (∀ answer, cut.answer = some answer →
          cut = ⟨some completed.answer, completed.host, completed.trace⟩) ∧
        (¬ (before actions).Attached target → ∀ t, .detach t ∉ cut.calls) ∧
        ((before actions).Attached target → ¬ (before actions).Releasing target →
          cut.answer = none ∧
          match d.inRuntime with
          | true =>
            cut.calls = [attach, .detach target] ∧
            ∃ background,
              cut.trace = seen ++ .logged (abandoned target true) :: background ∧
              DetachedMeanwhile m target work attached cut.host background
          | false =>
            cut.calls = [attach] ∧
            cut.trace = seen ++ [.logged (abandoned target false)] ∧
            cut.host = if d.carried = 0 then attached else work attached) ∧
        ((before actions).Releasing target →
          (before actions).Attached target ∧
          (before actions).issued = [attach, .detach target] ∧
          cut.calls = [attach, .detach target])) ∧
      (made.answer = .ok () → reply.result = .ok () →
        ∃ n, (before n).rest.call? = some attach ∧
          (before (n + 1)).Attached target ∧ ¬ (before (n + 1)).Releasing target ∧
          (before (n + 2)).rest.call? = some (.detach target)) := by
  intro before completed
  cases hscreen : c.screen r with
  | error answer =>
    -- The answer is there before anything has to be waited for.
    intro actions d
    have hserve : c.serve r = .done answer := by rw [serve_eq, hscreen]
    have hstart : Running.start (.done answer) host = ⟨{ host }, .done answer⟩ := rfl
    rw [hserve, Procedure.dropAfter, hstart, Running.after_done]
    exact Running.fate_of_done rfl rfl d
  | ok p =>
    let k : Course σ := ⟨c, r, p, hscreen, m, host⟩
    refine ⟨fun actions d => ?_, fun hmade hattached => ?_⟩
    · have hstage : k.Stage (before actions) := k.stage_before actions
      have haccounted : (before actions).Accounted := k.accounted_before actions
      refine ⟨hstage.calls_prefix haccounted d, fun _ hanswer => hstage.fate_of_answer hanswer d,
        fun hnot t hmem => ?_, fun hattached hreleasing => ?_,
        fun hreleasing => hstage.calls_of_releasing haccounted hreleasing d⟩
      · cases List.mem_singleton.1 ((hstage.calls_of_not_attached haccounted hnot d).subset hmem)
      · -- This is the one stage at which the guard has something to do.
        have hworking : before actions = k.working := hstage.eq_working hattached hreleasing
        have hcut : (c.serve r).dropAfter m host actions d = k.working.fate m d := by
          rw [← hworking]
          rfl
        have hcalls := k.calls_fate_working d
        rw [hcut]
        refine ⟨k.waits_working.2, ?_⟩
        cases hd : d.inRuntime with
        | true =>
          rw [hd] at hcalls
          exact ⟨hcalls, k.fate_working_inside hd⟩
        | false =>
          have houtside := k.fate_working_outside hd
          rw [hd] at hcalls
          exact ⟨hcalls, congrArg Outcome.trace houtside, congrArg Outcome.host houtside⟩
    obtain ⟨n, hattaching, hworking, hdetaching⟩ : ∃ n, before n = k.attaching ∧
        before (n + 1) = k.working ∧ before (n + 2) = k.detaching :=
      Course.exists_before (k := k) hmade hattached
    obtain ⟨hattached, hreleasing⟩ := Course.attached_working k
    refine ⟨n, ?_, ?_, ?_, ?_⟩
    · rw [hattaching]
      rfl
    · rw [hworking]
      exact hattached
    · rw [hworking]
      exact hreleasing
    · rw [hdetaching]
      rfl

/-- Three actions make the mount point, the fourth attaches the export, then the request is cut
off. -/
example :
    let target := Sample.controller.mountPoint ⟨"s1", "base", "vol1"⟩
    let host : Host Unit := ⟨[], .bare, ()⟩
    let cut := (Sample.controller.serve (.create Sample.request)).dropAfter .inert host 4
      { inRuntime := true }
    cut.answer = none ∧
      cut.trace = [.called (.attach target "s1" "/base"), .logged (abandoned target true),
        .called (.detach target)] := by
  decide +kernel

end Controller
end NfsProvisioner
