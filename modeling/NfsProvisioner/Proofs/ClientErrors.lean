import NfsProvisioner.Proofs.MountProgram
import NfsProvisioner.Proofs.PlainNames
import NfsProvisioner.Proofs.Receipts

/-!
# An error of the caller means that nothing happened

Whatever message the controller gets, it calls its mounter only for a request that passes every
check. A request that is refused for what it says is refused before anything is done, and an error
that is met after that is never reported as the caller's fault. What a mounter does when it detaches
is left open: its errors are logged and go no further.
-/
namespace NfsProvisioner

variable {σ : Type}

/-- A mounter that gives one kind of error when it cannot attach. -/
def Mounter.FailsToMount (m : Mounter σ) : Prop :=
  ∀ target server share host e, (m.attach target server share host).result = .error e →
    ∃ path reason, e = .mountFailed path reason

/-- The client of the host is such a mounter: every error is of the program `mount`. -/
theorem NfsClient.failsToMount (client : NfsClient) : client.mounter.FailsToMount := by
  intro target server share host e h
  change (client.attachAt host.cwd host.tree target.text server share).result = .error e at h
  unfold attachAt at h
  split at h
  · cases h
  have hattempted := client.attempted target.text server share
  generalize client.runMount target.text server share = attempt at h hattempted
  cases hattempted with
  | mounted => cases h
  | notStarted | failed =>
    cases h
    exact ⟨_, _, rfl⟩

/-- A request for a volume among all requests. -/
def VolumeRequest.request : VolumeRequest → Request
  | create request => .createVolume request
  | delete id => .deleteVolume id

namespace Controller

/-- The message passes every check, and so gives the controller work on a volume. -/
inductive Admits (c : Controller) : Message → Placement → Prop
  | create {request : CreateVolumeRequest} {p : Placement} (named : request.name ≠ "")
      (capable : c.driver.validateCapabilities request.capabilities = .ok ())
      (placed : Placement.read request.name request.parameters.toList = .ok p) :
      c.Admits (.request (.createVolume request)) p
  | delete {id : VolumeId} {p : Placement} (named : id.read = .ok p) :
      c.Admits (.request (.deleteVolume id)) p

/-- Everything that is wrong with a request for a new volume: its name, then its capabilities, then
its parameters. -/
def objections (c : Controller) (request : CreateVolumeRequest) : List Error :=
  (if request.name = "" then [.invalidArgument "CreateVolume name must be provided"] else [])
    ++ (c.driver.capabilitiesFault? request.capabilities).toList.map CapabilityFault.toError
    ++ match Placement.read request.name request.parameters.toList with
      | .ok _ => []
      | .error fault => [.invalidArgument fault.message]

theorem vet_eq (c : Controller) (request : CreateVolumeRequest) :
    c.vet request =
      if request.name = "" then .error (.invalidArgument "CreateVolume name must be provided")
      else match c.driver.capabilitiesFault? request.capabilities with
        | some fault => .error fault.toError
        | none => Placement.ofParameters request.name request.parameters.toList := by
  unfold vet Driver.validateCapabilities
  by_cases hname : request.name = ""
  · rw [if_pos hname, if_pos hname]
    rfl
  · rw [if_neg hname, if_neg hname]
    cases c.driver.capabilitiesFault? request.capabilities <;> rfl

/-- What is reported of a request is the first thing that is wrong with it. -/
theorem vet_error_iff {c : Controller} {request : CreateVolumeRequest} {e : Error} :
    c.vet request = .error e ↔ (c.objections request).head? = some e := by
  rw [vet_eq, objections]
  by_cases hname : request.name = ""
  · simp [hname]
  cases c.driver.capabilitiesFault? request.capabilities with
  | some fault => simp [hname]
  | none =>
    unfold Placement.ofParameters
    cases Placement.read request.name request.parameters.toList <;> simp [hname]

theorem vet_ok_iff {c : Controller} {request : CreateVolumeRequest} {p : Placement} :
    c.vet request = .ok p ↔ c.Admits (.request (.createVolume request)) p := by
  constructor
  · intro h
    obtain ⟨named, capable, placed⟩ := vet_inv h
    exact .create named capable placed
  · intro h
    cases h with
    | create named capable placed =>
      unfold vet
      rw [if_neg named, capable, Placement.ofParameters, placed]
      rfl

theorem admits_delete_iff {c : Controller} {id : VolumeId} {p : Placement} :
    c.Admits (.request (.deleteVolume id)) p ↔ id.read = .ok p := by
  constructor
  · intro h
    cases h with
    | delete named => exact named
  · exact .delete

/-- A request for a volume is worked on exactly when it passes every check. -/
theorem screen_ok_iff {c : Controller} {r : VolumeRequest} {p : Placement} :
    c.screen r = .ok p ↔ c.Admits (.request r.request) p := by
  cases r with
  | create request =>
    rw [VolumeRequest.request, ← vet_ok_iff, screen]
    cases c.vet request <;> simp
  | delete id =>
    rw [VolumeRequest.request, admits_delete_iff, screen]
    by_cases hempty : id.isEmpty
    · have htext : id.text = "" := String.isEmpty_iff.1 hempty
      simp [hempty, VolumeId.read, VolumeId.tokens, htext]
    · cases id.read <;> simp [hempty]

theorem run_serve_of_refused {c : Controller} {r : VolumeRequest} {answer : VolumeAnswer}
    (h : c.screen r = .error answer) (m : Mounter σ) (host : Host σ) :
    (c.serve r).run m host = ⟨answer, host, []⟩ := by
  rw [run_serve, h]

/-- All calls of a request to the mounter are those of its visit to the export. -/
theorem calls_serve {c : Controller} {r : VolumeRequest} {p : Placement} (h : c.screen r = .ok p)
    (m : Mounter σ) (host : Host σ) :
    ((c.serve r).run m host).calls = ((c.onVolume p r.work).run m host).calls := by
  rw [run_serve, h]
  dsimp only
  cases ((c.onVolume p r.work).run m host).answer with
  | error e => rfl
  | ok result => simp [Outcome.calls, Happening.call?]

/-- The mounter is called as soon as there is a mount point to attach at. -/
theorem calls_serve_ne_nil_iff {c : Controller} {r : VolumeRequest} {p : Placement}
    (h : c.screen r = .ok p) (m : Mounter σ) (host : Host σ) :
    ((c.serve r).run m host).calls ≠ [] ↔
      ((Procedure.createDirectories (c.mountPoint p)).run m host).answer = .ok () := by
  have hwork := calls_onVolume c m p r host
  rw [calls_serve h]
  dsimp only at hwork
  generalize (Procedure.createDirectories (c.mountPoint p)).run m host = made at hwork ⊢
  cases hmade : made.answer with
  | error fault =>
    simp only [hmade] at hwork
    simp [hwork.1]
  | ok =>
    simp only [hmade] at hwork
    cases hreply : (m.attach (c.mountPoint p) p.server p.baseSharePath made.host).result <;>
    · simp only [hreply] at hwork
      simp [hwork.1]

/-- Once a request is worked on, what goes wrong is not the caller's fault. -/
theorem fault_of_serve {c : Controller} {r : VolumeRequest} {p : Placement}
    (h : c.screen r = .ok p) {m : Mounter σ} (hm : m.FailsToMount) {host : Host σ} {e : Error}
    (he : ((c.serve r).run m host).answer = .error e) :
    (∃ path reason, e = .mountFailed path reason) ∨ ∃ reason, e = .internal reason := by
  have hwork := calls_onVolume c m p r host
  rw [run_serve, h] at he
  dsimp only at hwork he
  generalize (Procedure.createDirectories (c.mountPoint p)).run m host = made at hwork
  cases hmade : made.answer with
  | error fault =>
    simp only [hmade] at hwork
    rw [hwork.2] at he
    cases he
    exact .inl ⟨_, _, rfl⟩
  | ok =>
    simp only [hmade] at hwork
    cases hreply : (m.attach (c.mountPoint p) p.server p.baseSharePath made.host).result with
    | error refused =>
      simp only [hreply] at hwork
      rw [hwork.2] at he
      cases he
      exact .inl (hm _ _ _ _ _ hreply)
    | ok =>
      simp only [hreply] at hwork
      obtain ⟨-, result, hresult⟩ := hwork
      rw [hresult] at he
      rcases conclusion_ok_or_internal c p r result with ⟨v, hv⟩ | ⟨reason, hreason⟩
      · cases hv.symm.trans he
      · cases hreason.symm.trans he
        exact .inr ⟨_, rfl⟩

/-- A response is the answer to the request in the message, and nothing is done for it beside. -/
theorem run_respond (c : Controller) (m : Mounter σ) (request : Request) (host : Host σ) :
    let o := (c.handle request).run m host
    (c.respond (.request request)).run m host = ⟨request.respond o.answer, o.host, o.trace⟩ := by
  dsimp only [respond, dispatch]
  rw [Procedure.run_bind]
  simp [pure, Procedure.run, Outcome.following]

theorem respond_error_iff {request : Request} {answer : Except Error request.Answer} {e : Error} :
    request.respond answer = .error e ↔ answer = .error e := by
  cases answer with
  | error reason => cases request <;> simp [Request.respond]
  | ok value => cases request <;> simp [Request.respond]

/-- A request for a volume is responded to as it is served. -/
theorem run_respond_volume (c : Controller) (m : Mounter σ) (r : VolumeRequest) (host : Host σ) :
    let o := (c.respond (.request r.request)).run m host
    let served := (c.serve r).run m host
    o.host = served.host ∧ o.calls = served.calls ∧
      ∀ e, o.answer = .error e ↔ served.answer = .error e := by
  cases r with
  | create request =>
    simp only [VolumeRequest.request, run_respond, serve, Procedure.run_map, handle,
      respond_error_iff]
    refine ⟨trivial, rfl, fun e => ?_⟩
    cases ((c.createVolume request).run m host).answer <;> simp [Except.map]
  | delete id =>
    simp only [VolumeRequest.request, run_respond, serve, Procedure.run_map, handle,
      respond_error_iff]
    refine ⟨trivial, rfl, fun e => ?_⟩
    cases ((c.deleteVolume id).run m host).answer <;> simp [Except.map]

/-- What is wrong with a message that is refused before anything is done. -/
inductive Blames : Message → Error → Prop
  | argument {message : Message} (reason : String) : Blames message (.invalidArgument reason)
  | volume {id : VolumeId} {fault : IdFault} (capabilities : List (Option VolumeCapability))
      (unreadable : id.read = .error fault) :
      Blames (.request (.validateVolumeCapabilities id capabilities)) (.volumeNotFound id.text)
  | operation {message : Message} (name : String) : Blames message (.unimplemented name)

theorem blames_of_validate {c : Controller} {id : VolumeId}
    {capabilities : List (Option VolumeCapability)} {e : Error}
    (h : c.validateVolumeCapabilities id capabilities = .error e) :
    Blames (.request (.validateVolumeCapabilities id capabilities)) e := by
  unfold validateVolumeCapabilities at h
  cases hread : id.read with
  | error fault =>
    simp only [hread] at h
    cases h
    exact .volume capabilities hread
  | ok p =>
    simp only [hread, Driver.validateCapabilities] at h
    cases hfault : c.driver.capabilitiesFault? capabilities with
    | some fault =>
      simp only [hfault] at h
      cases h
      exact .argument _
    | none =>
      simp only [hfault] at h
      cases h

theorem calls_probe (c : Controller) (m : Mounter σ) (host : Host σ) :
    (c.probe.run m host).calls = [] := by
  rw [probe, Procedure.run_bind, Procedure.calls_following,
    Procedure.trace_of_filesOnly (Procedure.filesOnly_createDirectories _)]
  cases ((Procedure.createDirectories c.working).run m host).answer <;> rfl

/-- A message that asks for no work on a volume. -/
theorem run_respond_idle (c : Controller) (m : Mounter σ) (message : Message) (host : Host σ)
    (h : ¬∃ r : VolumeRequest, message = .request r.request) :
    let o := (c.respond message).run m host
    o.calls = [] ∧ ∀ e, o.answer = .error e → o.host = host ∧ Blames message e := by
  cases message with
  | response response =>
    refine ⟨rfl, fun e he => ⟨rfl, ?_⟩⟩
    cases he
    exact .argument _
  | request request =>
    rw [run_respond]
    simp only [respond_error_iff]
    cases request with
    | createVolume request => exact absurd ⟨.create request, rfl⟩ h
    | deleteVolume id => exact absurd ⟨.delete id, rfl⟩ h
    | validateVolumeCapabilities id capabilities =>
      exact ⟨rfl, fun e he => ⟨rfl, blames_of_validate he⟩⟩
    | listVolumes | getCapacity =>
      refine ⟨rfl, fun e he => ⟨rfl, ?_⟩⟩
      cases he
      exact .operation _
    | controllerGetCapabilities | getPluginInfo | getPluginCapabilities =>
      exact ⟨rfl, fun e he => by cases he⟩
    | probe =>
      simp only [handle, Procedure.run_map]
      exact ⟨calls_probe c m host, fun e he => by cases he⟩

theorem mem_objections {c : Controller} {request : CreateVolumeRequest} {e : Error}
    (h : e ∈ c.objections request) : ∃ reason, e = .invalidArgument reason := by
  simp only [objections, List.mem_append] at h
  rcases h with (h | h) | h
  · split at h
    · exact ⟨_, List.mem_singleton.1 h⟩
    · cases h
  · obtain ⟨fault, -, rfl⟩ := List.mem_map.1 h
    exact ⟨_, rfl⟩
  · split at h
    · cases h
    · exact ⟨_, List.mem_singleton.1 h⟩

theorem invalidArgument_of_screen {c : Controller} {r : VolumeRequest} {e : Error}
    (h : c.screen r = .error (.error e)) : ∃ reason, e = .invalidArgument reason := by
  cases r with
  | create request =>
    rw [screen] at h
    cases hvet : c.vet request with
    | error e' =>
      rw [hvet] at h
      cases h
      exact mem_objections (List.mem_of_mem_head? (vet_error_iff.1 hvet))
    | ok p =>
      rw [hvet] at h
      cases h
  | delete id =>
    rw [screen] at h
    split at h
    · cases h
      exact ⟨_, rfl⟩
    · split at h <;> cases h

/-- An error is either what the message is refused with before anything is done, or a failure of the
host or of the mounter. -/
theorem error_of_respond (c : Controller) {m : Mounter σ} (hm : m.FailsToMount) (message : Message)
    (host : Host σ) {e : Error} (he : ((c.respond message).run m host).answer = .error e) :
    (Blames message e ∧ ((c.respond message).run m host).host = host ∧
        ((c.respond message).run m host).calls = []) ∨
      (∃ path reason, e = .mountFailed path reason) ∨ ∃ reason, e = .internal reason := by
  by_cases hvolume : ∃ r : VolumeRequest, message = .request r.request
  · obtain ⟨r, rfl⟩ := hvolume
    obtain ⟨hhost, hcalls, hanswer⟩ := run_respond_volume c m r host
    rw [hanswer] at he
    cases hscreen : c.screen r with
    | ok p => exact .inr (fault_of_serve hscreen hm he)
    | error answer =>
      rw [run_serve_of_refused hscreen] at hhost hcalls he
      cases he
      obtain ⟨reason, rfl⟩ := invalidArgument_of_screen hscreen
      exact .inl ⟨.argument reason, hhost, hcalls⟩
  · obtain ⟨hcalls, herror⟩ := run_respond_idle c m message host hvolume
    exact .inl ⟨(herror e he).2, (herror e he).1, hcalls⟩

/-- The mounter is called for the messages that pass every check, once there is a mount point, and
for no others. -/
theorem calls_respond_ne_nil_iff (c : Controller) (m : Mounter σ) (message : Message)
    (host : Host σ) :
    ((c.respond message).run m host).calls ≠ [] ↔
      ∃ p, c.Admits message p ∧
        ((Procedure.createDirectories (c.mountPoint p)).run m host).answer = .ok () := by
  by_cases hvolume : ∃ r : VolumeRequest, message = .request r.request
  · obtain ⟨r, rfl⟩ := hvolume
    rw [(run_respond_volume c m r host).2.1]
    simp only [← screen_ok_iff]
    cases hscreen : c.screen r with
    | ok p => simp [calls_serve_ne_nil_iff hscreen]
    | error answer => simp [run_serve_of_refused hscreen, Outcome.calls]
  · refine iff_of_false (fun h => h (run_respond_idle c m message host hvolume).1) ?_
    rintro ⟨p, hadmits, -⟩
    cases hadmits with
    | @create request => exact hvolume ⟨.create request, rfl⟩
    | @delete id => exact hvolume ⟨.delete id, rfl⟩

/-- A message is refused for what it says before anything is done, and nothing that fails later is
reported as its fault. -/
theorem refused_before_anything_is_done (c : Controller) {m : Mounter σ} (hm : m.FailsToMount)
    (message : Message) (host : Host σ) :
    let o := (c.respond message).run m host
    (o.calls ≠ [] ↔ ∃ p, c.Admits message p ∧
      ((Procedure.createDirectories (c.mountPoint p)).run m host).answer = .ok ()) ∧
    (∀ e, o.answer = .error e →
      (e.code ∈ [.invalidArgument, .notFound, .unimplemented] → o.host = host ∧ o.calls = []) ∧
      (∀ id reason, e ≠ .malformedIdentifier id reason) ∧
      ∀ path reason, e ≠ .unmountFailed path reason) ∧
    ((∃ e, o.answer = .error e ∧ e.code = .notFound) ↔ ∃ id capabilities fault,
      message = .request (.validateVolumeCapabilities id capabilities) ∧
        id.read = .error fault) ∧
    ∀ request e, message = .request (.createVolume request) →
      (o.answer = .error e ∧ e.code = .invalidArgument ↔
        (c.objections request).head? = some e) := by
  refine ⟨calls_respond_ne_nil_iff c m message host, fun e he => ?_, ⟨?_, ?_⟩, ?_⟩
  · rcases error_of_respond c hm message host he with
      ⟨hblames, hhost, hcalls⟩ | ⟨path, reason, rfl⟩ | ⟨reason, rfl⟩
    · refine ⟨fun _ => ⟨hhost, hcalls⟩, ?_, ?_⟩ <;> rintro _ _ rfl <;> cases hblames
    · exact ⟨fun hcode => by simp [Error.code] at hcode, by simp, by simp⟩
    · exact ⟨fun hcode => by simp [Error.code] at hcode, by simp, by simp⟩
  · rintro ⟨e, he, hcode⟩
    rcases error_of_respond c hm message host he with
      ⟨hblames, -⟩ | ⟨path, reason, rfl⟩ | ⟨reason, rfl⟩
    · cases hblames with
      | argument | operation => cases hcode
      | @volume id fault capabilities unreadable => exact ⟨id, capabilities, fault, rfl, unreadable⟩
    · cases hcode
    · cases hcode
  · rintro ⟨id, capabilities, fault, rfl, hread⟩
    refine ⟨.volumeNotFound id.text, ?_, rfl⟩
    rw [run_respond, respond_error_iff]
    change c.validateVolumeCapabilities id capabilities = _
    rw [validateVolumeCapabilities, hread]
  · rintro request e rfl
    have hanswer := (run_respond_volume c m (.create request) host).2.2 e
    rw [VolumeRequest.request] at hanswer
    rw [hanswer, ← vet_error_iff]
    cases hvet : c.vet request with
    | error e' =>
      have hscreen : c.screen (.create request) = .error (.error e') := by rw [screen, hvet]
      obtain ⟨reason, rfl⟩ := invalidArgument_of_screen hscreen
      rw [run_serve_of_refused hscreen]
      constructor
      · rintro ⟨he, -⟩
        cases he
        rfl
      · intro he
        cases he
        exact ⟨rfl, rfl⟩
    | ok p =>
      have hscreen : c.screen (.create request) = .ok p := by rw [screen, hvet]
      refine iff_of_false ?_ (by simp)
      rintro ⟨he, hcode⟩
      rcases fault_of_serve hscreen hm he with ⟨path, reason, rfl⟩ | ⟨reason, rfl⟩ <;> cases hcode

namespace Sample

/-- A request that fails every check, on a host where nothing can be mounted. -/
theorem nameless_request_is_refused :
    let client : NfsClient := ⟨[], none, .missing, .notMounted⟩
    let host : Host MountRuns := ⟨[], .bare, []⟩
    let request : CreateVolumeRequest := ⟨"", none, [], .ofList [("quota", "1")]⟩
    let o := (controller.respond (.request (.createVolume request))).run client.mounter host
    client.mounter.FailsToMount ∧ (controller.objections request).length = 3 ∧
      o.answer = .error (.invalidArgument "CreateVolume name must be provided") ∧
      o.host = host ∧ o.calls = [] := by
  intro client host request o
  have hm : client.mounter.FailsToMount := client.failsToMount
  obtain ⟨-, hharmless, -, hfirst⟩ :=
    refused_before_anything_is_done controller hm (.request (.createVolume request)) host
  have hanswer := (hfirst request (.invalidArgument "CreateVolume name must be provided") rfl).2
    (by decide)
  exact ⟨hm, by decide +kernel, hanswer.1, (hharmless _ hanswer.1).1 (by simp [Error.code])⟩

end Sample
end Controller
end NfsProvisioner
