import NfsProvisioner.Proofs.Absence
import NfsProvisioner.Proofs.MountProgram
import NfsProvisioner.Proofs.PathTexts
import NfsProvisioner.Proofs.Utf8Reading

/-!
# A volume is made through the client of the host, or nothing is

Whatever becomes of the program `mount`, a request for a new volume comes to one of two ends. If the
program is started and ends with status 0 then the volume is made. In every other case the mount
point is removed again, so that the files are as before, and the request is answered with an error
about the mount point. Why does not matter: the program may be missing, may not be executable, may
not be given its arguments, may end with any other status or be killed.

A mount that only seems to succeed leaves the volume in the mount point itself. Nothing is detached
then, since nothing is mounted.
-/
namespace NfsProvisioner

namespace NfsClient

variable {client : NfsClient} {t : Tree} {cwd l : Location} {p : Path}

theorem keepsFiles_mounter (client : NfsClient) : client.mounter.KeepsFiles :=
  ⟨fun _ _ _ _ => rfl, fun _ _ => rfl⟩

/-- The table is searched for the place that a path leads to. -/
theorem mountState_of_arrives (h : t.Arrives cwd p l) (hread : p.Readable) (hne : p.names ≠ [])
    (htrailing : p.trailing = false) (htext : Tree.checkText p.text = .ok ()) :
    client.mountState cwd t p.text =
      client.table.map fun table => MountTable.lists table ("/" ++ "/".intercalate l) := by
  rw [mountState, h.canonical hread hne htrailing htext]

end NfsClient

namespace Controller

/-- A volume can be asked for: the path of the working directory leads to a directory, which has no
entry called like the volume, the host takes the path of the volume, and the table does not list the
mount point, if it can be read. The path of the working directory is one that was read from a text,
as it is once a controller has been started (`readable_start`). -/
structure CanAsk (c : Controller) (client : NfsClient) (p : Placement) (host : Host MountRuns)
    (working : Location) : Prop where
  readable : c.working.Readable
  arrives : host.tree.Arrives host.cwd c.working working
  free : host.tree.get? (working ++ [p.name]) = none
  takes : (c.mountPoint p).Takes p.name
  unlisted : ∀ table, client.table = some table →
    MountTable.lists table ("/" ++ "/".intercalate (working ++ [p.name])) = false

/-- What is logged when the program has succeeded. -/
def exportMounted (p : Placement) : Event :=
  ⟨.info, "nfs export mounted", [("source", NfsClient.source p.server p.baseSharePath)]⟩

/-- The trees on the way to a new volume: with the mount point, and with the volume in it. -/
structure Stages (c : Controller) (p : Placement) (host : Host MountRuns) (working : Location)
    (made done : Tree) : Prop where
  making : host.tree.made host.cwd (c.mountPoint p) = (.ok (), made)
  point : made.Arrives host.cwd (c.mountPoint p) (working ++ [p.name])
  undone : made.cleared host.cwd (c.mountPoint p) = host.tree
  work : made.makeDirectory host.cwd (c.volumePath p) = .ok done
  found : done.Arrives host.cwd (c.mountPoint p) (working ++ [p.name])
  occupied : done.cleared host.cwd (c.mountPoint p) = done
  result : ∀ k, done.get? k =
    if k = working ++ [p.name] ∨ k = working ++ [p.name, p.name] then some .directory
    else host.tree.get? k

variable {c : Controller} {client : NfsClient} {p : Placement} {host : Host MountRuns}
  {working : Location} {request : CreateVolumeRequest} {made done : Tree}

theorem CanAsk.stages (h : c.CanAsk client p host working) (hname : PlainName p.name) :
    ∃ made done, c.Stages p host working made done := by
  have hpoint : c.working.Takes p.name := h.takes.above hname.nonempty hname.ne_up h.takes.short
  obtain ⟨made, hmade, harrives, -, hundone⟩ :=
    h.arrives.made_and_cleared_of_free hname hpoint h.free
  have hput : host.tree.Put made (working ++ [p.name]) (some .directory) := by
    obtain ⟨made', hmade', hput⟩ := h.arrives.made_of_free hpoint h.free
    obtain rfl : made' = made := (Prod.mk.inj (hmade'.symm.trans hmade)).2
    exact hput
  obtain ⟨done, hwork, hfull, hfound, hresult⟩ :=
    h.arrives.make_inside hname hpoint h.takes h.free hput
  refine ⟨made, done, hmade, harrives, hundone, hwork, hfound, ?_, hresult⟩
  change done.removeDirectory host.cwd (c.mountPoint p) = .error .notEmpty at hfull
  rw [Tree.cleared, hfull]

/-- A path that leads to the mount point does not lead to anything that the table lists. -/
theorem CanAsk.mountState (h : c.CanAsk client p host working) (hname : PlainName p.name) {t : Tree}
    (harrives : t.Arrives host.cwd (c.mountPoint p) (working ++ [p.name])) :
    client.mountState host.cwd t (c.mountPoint p).text = client.table.map fun _ => false := by
  have hpoint : c.working.Takes p.name := h.takes.above hname.nonempty hname.ne_up h.takes.short
  have hread : (c.mountPoint p).Readable := h.readable.child hname.isName hname.slashless
  have hnames : (c.mountPoint p).names ≠ [] := by simp [mountPoint, Path.child]
  rw [NfsClient.mountState_of_arrives harrives hread hnames rfl
    (Tree.checkText_of_checkOperand hpoint.text)]
  cases htable : client.table with
  | none => rfl
  | some table => exact congrArg some (h.unlisted table htable)

/-- The program is called upon once the mount point has been made. -/
theorem CanAsk.attach_eq (h : c.CanAsk client p host working)
    (hstages : c.Stages p host working made done) (hname : PlainName p.name) :
    client.mounter.attach (c.mountPoint p) p.server p.baseSharePath { host with tree := made } =
      let attempt := client.runMount (c.mountPoint p).text p.server p.baseSharePath
      ⟨attempt.result, made, host.mounts ++ attempt.run.toList, attempt.log⟩ := by
  have hfree : client.isMountPoint host.cwd made (c.mountPoint p).text = false := by
    rw [NfsClient.isMountPoint, h.mountState hname hstages.point]
    cases client.table <;> rfl
  dsimp only [NfsClient.mounter]
  rw [NfsClient.attachAt, hfree]
  rfl

/-- Where nothing is mounted, there is nothing to detach. -/
theorem CanAsk.detach_eq (h : c.CanAsk client p host working)
    (hstages : c.Stages p host working made done) (hname : PlainName p.name)
    (hidle : client.table ≠ none ∨ client.unmounting = .notMounted) (mounts : MountRuns) :
    client.mounter.detach (c.mountPoint p) ⟨host.cwd, done, mounts⟩ =
      ⟨.ok (), done, mounts, []⟩ := by
  have hstate := h.mountState hname hstages.found
  dsimp only [NfsClient.mounter]
  rw [NfsClient.detachAt, hstate]
  cases htable : client.table with
  | some table => rfl
  | none =>
    have hunmounting : client.unmounting = .notMounted := hidle.resolve_left (· htable)
    rw [hunmounting]
    rfl

/-- The volume is in the way of removing its mount point. -/
theorem Stages.release_host (h : c.Stages p host working made done) (client : NfsClient)
    (mounts : MountRuns) :
    ((Procedure.release (c.mountPoint p)).run client.mounter ⟨host.cwd, done, mounts⟩).host =
      ⟨host.cwd, done, mounts⟩ := by
  have hafter := client.keepsFiles_mounter.after_detach (c.mountPoint p) ⟨host.cwd, done, mounts⟩
  rw [Procedure.run_release]
  dsimp only
  rw [hafter]
  cases (client.mounter.detach (c.mountPoint p) ⟨host.cwd, done, mounts⟩).result with
  | error e => rfl
  | ok =>
    dsimp only
    rw [Host.removeDirectory_eq_cleared, Host.cleared, h.occupied]
    rfl

/-- A request for a volume, told by what becomes of the attempt to mount its export. -/
theorem run_serve_attempted (hscreen : c.screen (.create request) = .ok p)
    (h : c.CanAsk client p host working) (hstages : c.Stages p host working made done) :
    (c.serve (.create request)).run client.mounter host =
      let target := c.mountPoint p
      let attempt := client.runMount target.text p.server p.baseSharePath
      let seen := Happening.called (.attach target p.server p.baseSharePath) ::
        attempt.log.map .logged
      let mounts := host.mounts ++ attempt.run.toList
      match attempt.result with
      | .error e => ⟨.error e, { host with mounts }, seen⟩
      | .ok () =>
        ⟨.ok (some (p.toVolume request.requiredBytes)), ⟨host.cwd, done, mounts⟩,
          seen ++ ((Procedure.release target).run client.mounter ⟨host.cwd, done, mounts⟩).trace ++
            [.logged (volumeCreated p)]⟩ := by
  have hname := (plain_of_screen hscreen).name
  have hreply := h.attach_eq hstages hname
  have hwork (mounts : MountRuns) : ((VolumeRequest.create request).work (c.volumePath p)).run
      client.mounter ⟨host.cwd, made, mounts⟩ = ⟨.ok (), ⟨host.cwd, done, mounts⟩, []⟩ := by
    simp only [VolumeRequest.work, Procedure.run, Host.makeDirectory, Host.change, hstages.work]
  rw [run_serve_of_screen hscreen]
  dsimp only at hreply ⊢
  rw [Procedure.run_createDirectories, hstages.making]
  dsimp only
  rw [hreply]
  generalize client.runMount (c.mountPoint p).text p.server p.baseSharePath = attempt
  cases attempt.result with
  | error e =>
    dsimp only [Host.after]
    rw [Host.removeDirectory_eq_cleared, Host.cleared]
    dsimp only
    rw [hstages.undone]
  | ok =>
    dsimp only [Host.after]
    rw [hwork]
    dsimp only
    rw [hstages.release_host]
    rfl

/-- The same for the request itself. -/
theorem run_create_attempted (hvet : c.vet request = .ok p) (h : c.CanAsk client p host working)
    (hstages : c.Stages p host working made done) :
    (c.createVolume request).run client.mounter host =
      let target := c.mountPoint p
      let attempt := client.runMount target.text p.server p.baseSharePath
      let seen := Happening.called (.attach target p.server p.baseSharePath) ::
        attempt.log.map .logged
      let mounts := host.mounts ++ attempt.run.toList
      match attempt.result with
      | .error e => ⟨.error e, { host with mounts }, seen⟩
      | .ok () =>
        ⟨.ok (p.toVolume request.requiredBytes), ⟨host.cwd, done, mounts⟩,
          seen ++ ((Procedure.release target).run client.mounter ⟨host.cwd, done, mounts⟩).trace ++
            [.logged (volumeCreated p)]⟩ := by
  have hscreen : c.screen (.create request) = .ok p := by rw [screen, hvet]
  have hserve := run_serve_attempted hscreen h hstages
  obtain ⟨hhost, htrace, hok, herror⟩ := run_createVolume c client.mounter request host
  generalize (c.createVolume request).run client.mounter host = o at *
  obtain ⟨answer, last, trace⟩ := o
  dsimp only at *
  subst hhost htrace
  cases hattempt : (client.runMount (c.mountPoint p).text p.server p.baseSharePath).result with
  | error e =>
    rw [hattempt] at hserve
    dsimp only at hserve ⊢
    rw [(herror e).2 (by rw [hserve]), hserve]
  | ok =>
    rw [hattempt] at hserve
    dsimp only at hserve ⊢
    rw [(hok _).2 (by rw [hserve]), hserve]

/-- If the program succeeds, the volume is made. -/
theorem created_of_mounts (hvet : c.vet request = .ok p) (h : c.CanAsk client p host working)
    (hmounts : client.Mounts (c.mountPoint p).text p.server p.baseSharePath) :
    let o := (c.createVolume request).run client.mounter host
    let target := c.mountPoint p
    o.answer = .ok (p.toVolume request.requiredBytes) ∧
      o.host.mounts = host.mounts ++ [client.arguments target.text p.server p.baseSharePath] ∧
      (∀ k, o.host.tree.get? k =
        if k = working ++ [p.name] ∨ k = working ++ [p.name, p.name] then some .directory
        else host.tree.get? k) ∧
      (client.table ≠ none ∨ client.unmounting = .notMounted →
        o.trace = [.called (.attach target p.server p.baseSharePath), .logged (exportMounted p),
          .called (.detach target), .logged (volumeCreated p)]) := by
  have hscreen : c.screen (.create request) = .ok p := by rw [screen, hvet]
  have hname := (plain_of_screen hscreen).name
  obtain ⟨made, done, hstages⟩ := h.stages hname
  have hattempted := client.attempted (c.mountPoint p).text p.server p.baseSharePath
  dsimp only
  rw [run_create_attempted hvet h hstages]
  dsimp only
  generalize client.runMount (c.mountPoint p).text p.server p.baseSharePath = attempt
    at hattempted
  cases hattempted with
  | notStarted fault hnot => exact absurd hmounts.starts hnot
  | failed ending messages hprogram hending hstarts =>
    obtain ⟨succeeded, hsucceeds⟩ := hmounts.succeeds
    rw [hsucceeds] at hprogram
    cases hprogram
    exact absurd rfl hending
  | mounted =>
    refine ⟨rfl, rfl, hstages.result, fun hidle => ?_⟩
    dsimp only
    rw [Procedure.run_release]
    dsimp only
    rw [h.detach_eq hstages hname hidle]
    rfl

/-- If it does not, no matter why, nothing is left of the request. -/
theorem undone_of_not_mounts (hvet : c.vet request = .ok p) (h : c.CanAsk client p host working)
    (hnot : ¬ client.Mounts (c.mountPoint p).text p.server p.baseSharePath) :
    let o := (c.createVolume request).run client.mounter host
    let target := (c.mountPoint p).text
    let starts := client.Starts target p.server p.baseSharePath
    ∃ reason, o.answer = .error (.mountFailed target reason) ∧ o.host.tree = host.tree ∧
      (starts → o.host.mounts = host.mounts ++ [client.arguments target p.server p.baseSharePath]) ∧
      (¬ starts → o.host.mounts = host.mounts) ∧
      ∀ ending (text : String), starts → client.program = .runs ending text.toUTF8.data.toList →
        ∃ before, reason = before ++ String.ofList (Text.trim text.toList) := by
  have hscreen : c.screen (.create request) = .ok p := by rw [screen, hvet]
  obtain ⟨made, done, hstages⟩ := h.stages (plain_of_screen hscreen).name
  have hattempted := client.attempted (c.mountPoint p).text p.server p.baseSharePath
  dsimp only
  rw [run_create_attempted hvet h hstages]
  dsimp only
  generalize client.runMount (c.mountPoint p).text p.server p.baseSharePath = attempt
    at hattempted
  cases hattempted with
  | mounted hmounts => exact absurd hmounts hnot
  | notStarted fault hidle =>
    exact ⟨fault.message, rfl, rfl, fun hstarts => absurd hstarts hidle,
      fun _ => List.append_nil _, fun ending text hstarts => absurd hstarts hidle⟩
  | failed ending messages hprogram hending hstarts =>
    refine ⟨_, rfl, rfl, fun _ => rfl, fun hidle => absurd hstarts hidle,
      fun ending' text _ hruns => ?_⟩
    obtain ⟨rfl, rfl⟩ := MountProgram.runs.inj (hprogram.symm.trans hruns)
    exact ⟨_, by rw [MountFault.message, Text.decodeUtf8_toUTF8]⟩

/-- A volume is made through the client of the host if and only if the program `mount` is started
and ends with status 0. However it ends, it is taken to leave the files and the table as they are,
which is a property of `NfsClient.mounter` and not proved of any host.

If it ends with status 0 then it has been run once, the mount point and the volume are new and
nothing else has changed. If nothing has really been mounted, which the table tells or else the host
when it is asked to unmount, then detaching does nothing, and the volume is reported as created all
the same.

In every other case the answer is an error about the mount point, and the files are as before. The
program has been run once if it was started, and otherwise not at all. If it wrote a text then the
reason that is given ends with it, without the blanks around it. -/
theorem made_through_host_iff (hvet : c.vet request = .ok p)
    (h : c.CanAsk client p host working) :
    let o := (c.createVolume request).run client.mounter host
    let target := c.mountPoint p
    let mounts := client.Mounts target.text p.server p.baseSharePath
    let starts := client.Starts target.text p.server p.baseSharePath
    let run := client.arguments target.text p.server p.baseSharePath
    ((∃ volume, o.answer = .ok volume) ↔ mounts) ∧
    (mounts → o.answer = .ok (p.toVolume request.requiredBytes) ∧
      o.host.mounts = host.mounts ++ [run] ∧
      (∀ k, o.host.tree.get? k =
        if k = working ++ [p.name] ∨ k = working ++ [p.name, p.name] then some .directory
        else host.tree.get? k) ∧
      (client.table ≠ none ∨ client.unmounting = .notMounted →
        o.trace = [.called (.attach target p.server p.baseSharePath), .logged (exportMounted p),
          .called (.detach target), .logged (volumeCreated p)])) ∧
    (¬ mounts → ∃ reason, o.answer = .error (.mountFailed target.text reason) ∧
      o.host.tree = host.tree ∧
      (starts → o.host.mounts = host.mounts ++ [run]) ∧ (¬ starts → o.host.mounts = host.mounts) ∧
      ∀ ending (text : String), starts → client.program = .runs ending text.toUTF8.data.toList →
        ∃ before, reason = before ++ String.ofList (Text.trim text.toList)) := by
  intro o target mounts starts run
  refine ⟨⟨fun ⟨volume, hvolume⟩ => ?_, fun hmounts => ?_⟩, created_of_mounts hvet h,
    undone_of_not_mounts hvet h⟩
  · apply Classical.byContradiction
    intro hnot
    obtain ⟨reason, hanswer, -⟩ := undone_of_not_mounts hvet h hnot
    cases hvolume.symm.trans hanswer
  · exact ⟨_, (created_of_mounts hvet h hmounts).1⟩

namespace Sample

/-- A client on a host where the program `mount` is killed while it waits for the server. -/
def killed : NfsClient :=
  ⟨["nfsvers=4.1"], some "", .runs .killed "timed out\n".toUTF8.data.toList, .notMounted⟩

theorem killed_mount_is_undone :
    let host : Host MountRuns := ⟨[], ready.tree, []⟩
    let o := (controller.createVolume Sample.request).run killed.mounter host
    controller.vet Sample.request = .ok ⟨"s1", "base", "vol1"⟩ ∧
      controller.CanAsk killed ⟨"s1", "base", "vol1"⟩ host ["work"] ∧
      o.host.tree = host.tree ∧
      o.host.mounts = [["-t", "nfs", "-o", "nfsvers=4.1", "s1:/base", "/work/vol1"]] ∧
      ∃ before, o.answer = .error (.mountFailed "/work/vol1" (before ++ "timed out")) := by
  intro host
  dsimp only
  have hvet : controller.vet Sample.request = .ok ⟨"s1", "base", "vol1"⟩ := by rfl
  have hask : controller.CanAsk killed ⟨"s1", "base", "vol1"⟩ host ["work"] := by
    refine ⟨readable_start (by simp), ?_, by decide +kernel,
      ⟨by decide, by decide +kernel, Tree.checkOperand_iff.2 (by decide +kernel)⟩, ?_⟩
    · exact Tree.arrives_of_resolve (by rfl) (by decide +kernel)
    · intro table htable
      obtain rfl : "" = table := Option.some.inj htable
      decide +kernel
  have htarget : (controller.mountPoint ⟨"s1", "base", "vol1"⟩).text = "/work/vol1" := by
    decide +kernel
  have hnot : ¬ killed.Mounts "/work/vol1" "s1" "/base" := by
    rintro ⟨-, messages, hprogram⟩
    cases hprogram
  have hstarts : killed.Starts "/work/vol1" "s1" "/base" :=
    ⟨⟨by decide, by decide, by decide, by decide⟩, _, _, rfl⟩
  have hshare : (Placement.mk "s1" "base" "vol1").baseSharePath = "/base" := by decide
  obtain ⟨-, -, hundone⟩ := made_through_host_iff hvet hask
  rw [htarget, hshare] at hundone
  obtain ⟨reason, hanswer, htree, hmounts, -, htext⟩ := hundone hnot
  obtain ⟨before, rfl⟩ := htext .killed "timed out\n" hstarts rfl
  have htrim : String.ofList (Text.trim "timed out\n".toList) = "timed out" := by decide +kernel
  have hrun : killed.arguments "/work/vol1" "s1" "/base" =
      ["-t", "nfs", "-o", "nfsvers=4.1", "s1:/base", "/work/vol1"] := by
    decide +kernel
  have hruns := hmounts hstarts
  rw [hrun] at hruns
  rw [htrim] at hanswer
  exact ⟨hvet, hask, htree, hruns, before, hanswer⟩

end Sample
end Controller
end NfsProvisioner
