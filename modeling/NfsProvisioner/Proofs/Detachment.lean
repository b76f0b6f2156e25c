import NfsProvisioner.Proofs.Creation

/-!
# An export that cannot be detached

By the time an export is detached, what the request is answered with has been decided. Two runs of
one request are compared, one with a mounter that detaches and one with a mounter that does the same
up to there and fails (`Mounter.FailsToDetach`). They differ in what is meant to be seen of a
failure and in nothing else: one warning more, and a mount point that is left where it would have
been removed.
-/
namespace NfsProvisioner

variable {σ : Type}

/-- The second mounter attaches as the first one does. Detaching succeeds with the first one and
fails with the second, by which neither changes files. What they log is the same, and what they
remember need not be. -/
structure Mounter.FailsToDetach (m m' : Mounter σ) (e : Error) : Prop where
  attach : m'.attach = m.attach
  detached : ∀ target host, (m.detach target host).result = .ok ()
  failed : ∀ target host, (m'.detach target host).result = .error e
  kept : ∀ target host, (m.detach target host).tree = host.tree
  kept_failed : ∀ target host, (m'.detach target host).tree = host.tree
  log : ∀ target host, (m'.detach target host).log = (m.detach target host).log

/-- Some call to the mounter logs the event. -/
def Mounter.Logs (m : Mounter σ) (event : Event) : Prop :=
  (∃ target server share host, event ∈ (m.attach target server share host).log) ∨
    ∃ target host, event ∈ (m.detach target host).log

/-- A mounter that leaves files alone and never fails, beside the same one that cannot detach. -/
theorem Mounter.failsToDetach_failing {m : Mounter σ} (hm : m.KeepsFiles) (hworks : m.NeverFails)
    (hquiet : ∀ target host, (m.detach target host).log = []) (e : Error) :
    m.FailsToDetach (m.failing none (some e)) e where
  attach := rfl
  detached := hworks.detach
  failed _ _ := rfl
  kept := hm.detach
  kept_failed _ _ := rfl
  log target host := (hquiet target host).symm

/-- What is logged in the end if a request succeeds. -/
def VolumeRequest.announcement (p : Placement) : VolumeRequest → Event
  | .create _ => Controller.volumeCreated p
  | .delete id => Controller.volumeDeleted id

/-- Two releases of one target. -/
theorem Procedure.release_of_failsToDetach {m m' : Mounter σ} {e : Error}
    (h : m.FailsToDetach m' e) (target : Path) (host : Host σ) :
    let left := (release target).run m host
    let stuck := (release target).run m' host
    stuck.trace = left.trace ++ [.logged (detachFailed target e)] ∧
      left.trace = .called (.detach target) :: (m.detach target host).log.map .logged ∧
      (left.host.tree = stuck.host.tree ∨
        stuck.host.tree.LosesEmpty left.host.tree host.cwd target) := by
  dsimp only
  rw [run_release, run_release]
  dsimp only
  rw [h.detached, h.failed, h.log]
  dsimp only
  refine ⟨rfl, rfl, ?_⟩
  have hafter : (host.after (m.detach target host)).tree = host.tree := h.kept target host
  have hafter' : (host.after (m'.detach target host)).tree = host.tree := h.kept_failed target host
  rw [hafter']
  -- Where the attempt to remove the mount point changes nothing, the two releases leave the same.
  by_cases hsame : ((host.after (m.detach target host)).removeDirectory target).2 =
      host.after (m.detach target host)
  · left
    rw [hsame, hafter]
  · right
    rw [← hafter]
    exact Host.losesEmpty_of_removeDirectory hsame

namespace Controller

variable {c : Controller} {p : Placement} {r : VolumeRequest} {m m' : Mounter σ} {e : Error}
  {host : Host σ}

/-- Success is announced, and failure is not. -/
theorem closingEvents_eq (c : Controller) (p : Placement) (r : VolumeRequest)
    (result : Except Fault Unit) :
    closingEvents p r result =
      if (c.conclusion p r result).isOk then [r.announcement p] else [] := by
  cases r with
  | create request => cases result <;> rfl
  | delete id =>
    rcases result with fault | ⟨⟩
    · cases fault <;> rfl
    · rfl

/-- Mounters that attach alike serve a request alike up to the release of its export. Either the
request fails before that, or there is something to release, and what it will be answered with is
there already. -/
theorem run_serve_alike (hscreen : c.screen r = .ok p) (m : Mounter σ) (host : Host σ) :
    (∃ o : Outcome σ VolumeAnswer, o.answer.isOk = false ∧ (∀ event ∈ o.log, m.Logs event) ∧
        .detach (c.mountPoint p) ∉ o.calls ∧
        ∀ n : Mounter σ, n.attach = m.attach → (c.serve r).run n host = o) ∨
      ∃ (worked : Host σ) (result : Except Fault Unit) (log : List Event),
        worked.cwd = host.cwd ∧ (∀ event ∈ log, m.Logs event) ∧
        ∀ n : Mounter σ, n.attach = m.attach → (c.serve r).run n host =
          let left := (Procedure.release (c.mountPoint p)).run n worked
          ⟨c.conclusion p r result, left.host,
            .called (.attach (c.mountPoint p) p.server p.baseSharePath) :: log.map .logged ++
              left.trace ++ (closingEvents p r result).map .logged⟩ := by
  have hmake := Procedure.filesOnly_createDirectories (c.mountPoint p)
  have hcwd := Procedure.cwd_of_filesOnly hmake m host
  have hcourse (n : Mounter σ) (_ : n.attach = m.attach) := run_serve_of_screen hscreen n host
  generalize hmade : (Procedure.createDirectories (c.mountPoint p)).run m host = made at hcwd
  generalize hreply : m.attach (c.mountPoint p) p.server p.baseSharePath made.host = reply
  -- Work on files is the same under any mounter, so that all runs go through the host `made`.
  have hmade' (n : Mounter σ) : (Procedure.createDirectories (c.mountPoint p)).run n host = made :=
    (Procedure.run_eq_of_filesOnly hmake n m host).trans hmade
  simp +contextual only [hmade', hreply] at hcourse
  have hattaching : ∀ event ∈ reply.log, m.Logs event := by
    subst hreply
    exact fun event hevent => .inl ⟨_, _, _, _, hevent⟩
  cases hanswer : made.answer with
  | error fault =>
    simp only [hanswer] at hcourse
    exact .inl ⟨_, rfl, fun event hevent => absurd hevent List.not_mem_nil, List.not_mem_nil,
      hcourse⟩
  | ok =>
    simp only [hanswer] at hcourse
    cases hresult : reply.result with
    | error e' =>
      simp only [hresult] at hcourse
      refine .inl ⟨_, rfl, ?_, ?_, hcourse⟩
      · simpa [Outcome.log, -List.filterMap_map] using hattaching
      · simp [Outcome.calls, -List.filterMap_map]
    | ok =>
      have hwork := Procedure.filesOnly_work r (c.volumePath p)
      have hworked (n : Mounter σ) :=
        Procedure.run_eq_of_filesOnly hwork n m (made.host.after reply)
      have hcwd' := Procedure.cwd_of_filesOnly hwork m (made.host.after reply)
      simp only [hresult] at hcourse
      exact .inr ⟨((r.work (c.volumePath p)).run m (made.host.after reply)).host, _, reply.log,
        hcwd'.trans hcwd, hattaching, fun n hn => by rw [hcourse n hn, hworked n]⟩

/-- What a request is answered with has been decided before its export is detached. Compare two
runs, with mounters of which the first detaches and the second fails to, while neither changes files
by that. The answers and the calls are the same. What the request logs beside what the mounter logs
itself is one warning more in the second run, exactly if there was something to detach, and it comes
before the success of the request is announced. Either run announces it exactly if the request
succeeds and has got as far as the mounter. The files are the same, except that an empty mount point
may be left by the second run which the first one has removed. -/
theorem detachment_decides_nothing (h : m.FailsToDetach m' e) (c : Controller) (r : VolumeRequest)
    (host : Host σ) :
    let o := (c.serve r).run m host
    let stuck := (c.serve r).run m' host
    stuck.answer = o.answer ∧ stuck.calls = o.calls ∧
    match c.screen r with
    | .error answer =>
      o.answer = answer ∧ o.calls = [] ∧ o.log = [] ∧ stuck.log = [] ∧
        stuck.host.tree = o.host.tree
    | .ok p =>
      let target := c.working.child p.name
      let warnings :=
        if .detach target ∈ o.calls then [Procedure.detachFailed target e] else []
      let announcements := if o.calls ≠ [] ∧ o.answer.isOk then [r.announcement p] else []
      ∃ own : List Event, (∀ event ∈ own, m.Logs event) ∧
        o.log = own ++ announcements ∧ stuck.log = own ++ warnings ++ announcements ∧
        (o.host.tree = stuck.host.tree ∨
          .detach target ∈ o.calls ∧
            stuck.host.tree.LosesEmpty o.host.tree host.cwd target) := by
  dsimp only
  cases hscreen : c.screen r with
  | error answer =>
    rw [run_serve_of_refused hscreen, run_serve_of_refused hscreen]
    exact ⟨rfl, rfl, rfl, rfl, rfl, rfl, rfl⟩
  | ok p =>
    rcases run_serve_alike hscreen m host with
      ⟨o, hfailed, hlog, hcalls, hrun⟩ | ⟨worked, result, log, hcwd, hlog, hrun⟩
    · rw [hrun m rfl, hrun m' h.attach]
      refine ⟨rfl, rfl, o.log, hlog, ?_, ?_, .inl rfl⟩
      · simp [hfailed]
      · simpa [hfailed, mountPoint] using hcalls
    · have hserve := hrun m rfl
      have hserve' := hrun m' h.attach
      obtain ⟨hstuck, hleft, htree⟩ :=
        Procedure.release_of_failsToDetach h (c.mountPoint p) worked
      dsimp only at hserve hserve'
      rw [closingEvents_eq c, hleft] at hserve
      rw [closingEvents_eq c, hstuck, hleft] at hserve'
      rw [hcwd] at htree
      have hdetaching : ∀ event ∈ (m.detach (c.mountPoint p) worked).log, m.Logs event :=
        fun event hevent => .inr ⟨_, _, hevent⟩
      rw [hserve, hserve']
      refine ⟨rfl, ?_, log ++ (m.detach (c.mountPoint p) worked).log, ?_, ?_, ?_, ?_⟩
      · simp [Outcome.calls, -List.filterMap_map]
      · intro event hevent
        exact (List.mem_append.1 hevent).elim (hlog event) (hdetaching event)
      · simp [Outcome.calls, Outcome.log, -List.filterMap_map]
      · simp [Outcome.calls, Outcome.log, mountPoint, -List.filterMap_map]
      · refine htree.imp_right fun hlost => ⟨?_, hlost⟩
        simp [Outcome.calls, mountPoint, -List.filterMap_map]

namespace Sample

/-- An export that stays attached after its volume has been deleted. -/
theorem deletion_answered_while_device_is_busy :
    let id : VolumeId := ⟨"s1/base/vol1"⟩
    let e : Error := .internal "device is busy"
    let delete (m : Mounter Unit) := (controller.serve (.delete id)).run m ⟨[], occupied, ()⟩
    (Mounter.inert : Mounter Unit).FailsToDetach clinging e ∧
      (delete clinging).answer = (delete .inert).answer ∧ (delete .inert).answer.isOk = true ∧
      (delete .inert).log = [volumeDeleted id] ∧
      (delete clinging).log =
        [Procedure.detachFailed (controller.working.child "vol1") e, volumeDeleted id] ∧
      (delete .inert).host.tree.get? ["work", "vol1"] = none ∧
      (delete clinging).host.tree.get? ["work", "vol1"] = some .directory := by
  dsimp only
  have hfails : (Mounter.inert : Mounter Unit).FailsToDetach clinging _ :=
    Mounter.failsToDetach_failing Mounter.keepsFiles_inert Mounter.neverFails_inert
      (fun _ _ => rfl) (.internal "device is busy")
  obtain ⟨hanswer, -, hrest⟩ :=
    detachment_decides_nothing hfails controller (.delete ⟨"s1/base/vol1"⟩) ⟨[], occupied, ()⟩
  have hscreen : controller.screen (.delete ⟨"s1/base/vol1"⟩) = .ok ⟨"s1", "base", "vol1"⟩ := by
    rfl
  have hdeleted : ((controller.serve (.delete ⟨"s1/base/vol1"⟩)).run (.inert : Mounter Unit)
      ⟨[], occupied, ()⟩).answer.isOk = true := by
    decide +kernel
  have hcalls : ((controller.serve (.delete ⟨"s1/base/vol1"⟩)).run (.inert : Mounter Unit)
      ⟨[], occupied, ()⟩).calls =
        [.attach (controller.working.child "vol1") "s1" "/base",
          .detach (controller.working.child "vol1")] := by
    decide +kernel
  rw [hscreen] at hrest
  dsimp only at hrest
  obtain ⟨own, hown, hlog, hstuck, -⟩ := hrest
  have hquiet : own = [] := by
    refine List.eq_nil_iff_forall_not_mem.2 fun event hevent => ?_
    rcases hown event hevent with ⟨_, _, _, _, hlogged⟩ | ⟨_, _, hlogged⟩ <;> cases hlogged
  rw [hcalls, hdeleted, hquiet] at hlog hstuck
  refine ⟨hfails, hanswer, hdeleted, ?_, ?_, by decide +kernel, by decide +kernel⟩
  · simpa [VolumeRequest.announcement] using hlog
  · simpa [VolumeRequest.announcement] using hstuck

end Sample
end Controller
end NfsProvisioner
