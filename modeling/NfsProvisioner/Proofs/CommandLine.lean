import NfsProvisioner.Proofs.MountProgram
import NfsProvisioner.Proofs.PlainNames

/-!
# The arguments of the program `mount`

Exports are attached by a program that is given its arguments as a list. It takes those that begin
with a hyphen for options, wherever they stand, and the others for what is to be mounted and where.
The target begins with a slash, but the source begins as the name of the server does. So a request
has the program take its source for an option exactly if the name of its server begins with a
hyphen.
-/
namespace NfsProvisioner

theorem Host.mounts_removeDirectory {σ : Type} (host : Host σ) (p : Path) :
    (host.removeDirectory p).2.mounts = host.mounts := by
  unfold removeDirectory change
  cases host.tree.removeDirectory host.cwd p <;> rfl

namespace NfsClient

variable {client : NfsClient}

/-- The program takes the argument for an option. -/
def isOption (argument : String) : Bool :=
  argument.toList.head? = some '-'

/-- If the program is run, it is run with the arguments for this export and this target. -/
theorem run_of_attachAt {cwd : Location} {tree : Tree} {target server share : String}
    {run : List String} (h : (client.attachAt cwd tree target server share).run = some run) :
    run = client.arguments target server share := by
  unfold attachAt at h
  split at h
  · cases h
  have hattempted := client.attempted target server share
  generalize client.runMount target server share = attempt at h hattempted
  cases hattempted with
  | notStarted => cases h
  | mounted | failed => exact (Option.some.inj h).symm

/-- A source begins as the name of its server does. -/
theorem isOption_source {server : String} (h : server ≠ "") (share : String) :
    isOption (source server share) = isOption server := by
  obtain ⟨first, rest, hserver⟩ : ∃ first rest, server.toList = first :: rest :=
    List.exists_cons_of_ne_nil fun hnil => h (String.toList_eq_nil_iff.1 hnil)
  simp [isOption, source, hserver]

/-- An absolute path begins with a slash. -/
theorem isOption_text {p : Path} (h : p.anchor ≠ .here) : isOption p.text = false := by
  unfold isOption Path.text
  cases hanchor : p.anchor with
  | here => exact absurd hanchor h
  | root => simp [Anchor.text]
  | doubleRoot => simp [Anchor.text]

/-- Attaching an export runs the program once or not at all. -/
theorem mounts_attach (client : NfsClient) (target : Path) (server share : String)
    (host : Host MountRuns) :
    let reply := client.mounter.attach target server share host
    reply.mounts = host.mounts ∨
      reply.mounts = host.mounts ++ [client.arguments target.text server share] := by
  dsimp only [mounter]
  cases hrun : (client.attachAt host.cwd host.tree target.text server share).run with
  | none => exact .inl (List.append_nil _)
  | some run =>
    right
    rw [run_of_attachAt hrun]
    rfl

/-- Detaching an export does not run the program. -/
theorem mounts_release (client : NfsClient) (target : Path) (host : Host MountRuns) :
    ((Procedure.release target).run client.mounter host).host.mounts = host.mounts := by
  rw [Procedure.run_release]
  dsimp only
  cases (client.mounter.detach target host).result with
  | error e => rfl
  | ok => exact Host.mounts_removeDirectory _ target

end NfsClient

namespace Controller

variable {c : Controller} {p : Placement} {r : VolumeRequest} {host : Host MountRuns}

/-- A request has the program run once or not at all. -/
theorem mounts_serve (client : NfsClient) (hscreen : c.screen r = .ok p) :
    let o := (c.serve r).run client.mounter host
    o.host.mounts = host.mounts ∨ o.host.mounts =
      host.mounts ++ [client.arguments (c.mountPoint p).text p.server p.baseSharePath] := by
  dsimp only
  rw [run_serve_of_screen hscreen]
  dsimp only
  have hmade := Procedure.mounts_of_filesOnly
    (Procedure.filesOnly_createDirectories (c.mountPoint p)) client.mounter host
  generalize (Procedure.createDirectories (c.mountPoint p)).run client.mounter host = made
    at hmade ⊢
  cases made.answer with
  | error fault => exact .inl hmade
  | ok =>
    dsimp only
    have hreply :=
      NfsClient.mounts_attach client (c.mountPoint p) p.server p.baseSharePath made.host
    dsimp only at hreply
    rw [hmade] at hreply
    generalize client.mounter.attach (c.mountPoint p) p.server p.baseSharePath made.host = reply
      at hreply ⊢
    cases reply.result with
    | error e =>
      dsimp only
      rw [Host.mounts_removeDirectory]
      exact hreply
    | ok =>
      dsimp only
      rw [NfsClient.mounts_release,
        Procedure.mounts_of_filesOnly (Procedure.filesOnly_work r (c.volumePath p))]
      exact hreply

/-- Whenever a request has the program `mount` run, its arguments are the type of file system, the
options that were configured, and two more, the source and the mount point. The program takes
neither of the two for an option if and only if the name of the server does not begin with a
hyphen. -/
theorem mount_arguments_are_operands_iff (client : NfsClient) (habsolute : c.working.anchor ≠ .here)
    (r : VolumeRequest) (host : Host MountRuns) :
    ∃ runs : MountRuns, ((c.serve r).run client.mounter host).host.mounts = host.mounts ++ runs ∧
      runs.length ≤ 1 ∧ ∀ run ∈ runs, ∃ p, c.screen r = .ok p ∧
        let source := p.server ++ ":/" ++ p.baseDir
        let target := (c.working.child p.name).text
        let options := if client.options = [] then [] else ["-o", ",".intercalate client.options]
        run = ["-t", "nfs"] ++ options ++ [source, target] ∧
          ((∀ argument ∈ [source, target], NfsClient.isOption argument = false) ↔
            NfsClient.isOption p.server = false) := by
  cases hscreen : c.screen r with
  | error answer =>
    refine ⟨[], ?_, Nat.zero_le 1, fun run hrun => absurd hrun List.not_mem_nil⟩
    rw [run_serve, hscreen, List.append_nil]
  | ok p =>
    rcases mounts_serve client hscreen with hmounts | hmounts
    · exact ⟨[], by rw [hmounts, List.append_nil], Nat.zero_le 1,
        fun run hrun => absurd hrun List.not_mem_nil⟩
    · refine ⟨_, hmounts, Nat.le_refl 1, fun run hrun => ⟨p, rfl, ?_⟩⟩
      obtain rfl := List.mem_singleton.1 hrun
      have hsource : p.server ++ ":/" ++ p.baseDir =
          NfsClient.source p.server p.baseSharePath := by
        have hcolon : (":/" : String) = ":" ++ "/" := by decide
        simp only [hcolon, NfsClient.source, Placement.baseSharePath, String.append_assoc]
      have htarget : NfsClient.isOption (c.working.child p.name).text = false :=
        NfsClient.isOption_text habsolute
      dsimp only
      rw [hsource]
      refine ⟨by simp [NfsClient.arguments, mountPoint], ?_⟩
      rw [← NfsClient.isOption_source (plain_of_screen hscreen).server.nonempty p.baseSharePath]
      simp [htarget]

namespace Sample

/-- A client on a host where nothing is mounted and the program succeeds. -/
def willing : NfsClient :=
  ⟨["nfsvers=4.1"], some "", .runs (.exited 0) [], .done⟩

/-- An ordinary server name. -/
theorem ordinary_server_is_no_option :
    let o := (controller.serve (.create Sample.request)).run willing.mounter ⟨[], .bare, []⟩
    controller.working.anchor ≠ .here ∧
      o.host.mounts = [["-t", "nfs", "-o", "nfsvers=4.1", "s1:/base", "/work/vol1"]] ∧
      ∀ argument ∈ ["s1:/base", "/work/vol1"], NfsClient.isOption argument = false := by
  dsimp only
  have habsolute : controller.working.anchor ≠ .here := by decide
  have hmounts : ((controller.serve (.create Sample.request)).run willing.mounter
      ⟨[], .bare, []⟩).host.mounts =
        [["-t", "nfs", "-o", "nfsvers=4.1", "s1:/base", "/work/vol1"]] := by
    decide +kernel
  have hscreen : controller.screen (.create Sample.request) = .ok ⟨"s1", "base", "vol1"⟩ := by rfl
  have htexts : [("s1" ++ ":/" ++ "base" : String), (controller.working.child "vol1").text] =
      ["s1:/base", "/work/vol1"] := by
    decide +kernel
  obtain ⟨runs, hruns, -, hrun⟩ := mount_arguments_are_operands_iff willing habsolute
    (.create Sample.request) ⟨[], .bare, []⟩
  have hmem : ["-t", "nfs", "-o", "nfsvers=4.1", "s1:/base", "/work/vol1"] ∈ runs := by
    rw [hmounts, List.nil_append] at hruns
    rw [← hruns]
    exact List.mem_singleton_self _
  obtain ⟨p, hp, -, hoperands⟩ := hrun _ hmem
  obtain rfl : _ = p := Except.ok.inj (hscreen.symm.trans hp)
  exact ⟨habsolute, hmounts, htexts ▸ hoperands.2 (by decide)⟩

/-- A server name is taken for the option to mount a file system once more, by a request for a new
volume as well as by an id. -/
theorem server_taken_for_option :
    let request := { Sample.request with
      parameters := .ofList [("server", "-oremount"), ("base-dir", "base")] }
    ∀ r ∈ [VolumeRequest.create request, .delete ⟨"-oremount/base/vol1"⟩],
      let o := (controller.serve r).run willing.mounter ⟨[], .bare, []⟩
      controller.working.anchor ≠ .here ∧ o.answer.isOk = true ∧
        o.host.mounts =
          [["-t", "nfs", "-o", "nfsvers=4.1", "-oremount:/base", "/work/vol1"]] ∧
        NfsClient.isOption "-oremount:/base" = true := by
  decide +kernel

end Sample
end Controller
end NfsProvisioner
