import NfsProvisioner.Proofs.ClientErrors
import NfsProvisioner.Proofs.Confinement
import NfsProvisioner.Proofs.VolumeIds

/-!
# Which ids name a volume

Ids come back from callers in two requests, and both take them apart with the same reader. What they
make of an id that cannot be read differs: for the removal of a volume it is the id of none, so
there is nothing to do; a check of capabilities asks about a volume and finds none. An id that can
be read is worked on without looking whether there is such a volume: removal makes for the export,
and the check is about the capabilities alone.
-/
namespace NfsProvisioner

/-- The empty id names no volume. -/
theorem VolumeId.text_ne_empty {id : VolumeId} {p : Placement} (h : id.placement = .ok p) :
    id.text ≠ "" := by
  intro htext
  rw [VolumeId.placement_eq_ok_iff, VolumeId.read, VolumeId.tokens, if_pos htext] at h
  cases h

namespace Controller

variable {σ : Type}

/-- The removal of a volume is answered as the request for it is served. -/
theorem run_deleteVolume (c : Controller) (m : Mounter σ) (id : VolumeId) (host : Host σ) :
    let o := (c.deleteVolume id).run m host
    let served := (c.serve (.delete id)).run m host
    o.host = served.host ∧ o.trace = served.trace ∧
      (o.answer = .ok () ↔ served.answer = .ok none) ∧
      ∀ e, o.answer = .error e ↔ served.answer = .error e := by
  simp only [serve, Procedure.run_map]
  refine ⟨trivial, trivial, ?_⟩
  cases ((c.deleteVolume id).run m host).answer <;> simp [Except.map]

/-- So is the making of one. -/
theorem run_createVolume (c : Controller) (m : Mounter σ) (request : CreateVolumeRequest)
    (host : Host σ) :
    let o := (c.createVolume request).run m host
    let served := (c.serve (.create request)).run m host
    o.host = served.host ∧ o.trace = served.trace ∧
      (∀ volume, o.answer = .ok volume ↔ served.answer = .ok (some volume)) ∧
      ∀ e, o.answer = .error e ↔ served.answer = .error e := by
  simp only [serve, Procedure.run_map]
  refine ⟨trivial, trivial, ?_⟩
  cases ((c.createVolume request).run m host).answer <;> simp [Except.map]

theorem screen_delete_ok_iff {c : Controller} {id : VolumeId} {p : Placement} :
    c.screen (.delete id) = .ok p ↔ id.placement = .ok p := by
  rw [screen_ok_iff, VolumeRequest.request, admits_delete_iff, VolumeId.placement_eq_ok_iff]

/-- An id that names no volume is answered at once, the empty one with an error. -/
theorem run_deleteVolume_of_unreadable (c : Controller) (m : Mounter σ) {id : VolumeId} {e : Error}
    (h : id.placement = .error e) (host : Host σ) :
    (c.deleteVolume id).run m host =
      ⟨if id.text = "" then .error (.invalidArgument "volume id is empty") else .ok (),
        host, []⟩ := by
  have hempty : id.isEmpty = true ↔ id.text = "" := String.isEmpty_iff
  unfold deleteVolume
  simp only [hempty]
  by_cases htext : id.text = ""
  · rw [if_pos htext, if_pos htext]
    rfl
  · rw [if_neg htext, if_neg htext]
    cases hread : id.read with
    | ok p =>
      rw [VolumeId.placement_eq_ok_iff.2 hread] at h
      cases h
    | error fault => rfl

/-- The removal of a volume starts with its mount point. -/
theorem deleteVolume_split (c : Controller) {id : VolumeId} {p : Placement}
    (h : id.placement = .ok p) :
    ∃ rest, c.deleteVolume id = (Procedure.createDirectories (c.mountPoint p)).bind rest := by
  have hempty : id.isEmpty = false :=
    Bool.eq_false_iff.2 fun hnone => VolumeId.text_ne_empty h (String.isEmpty_iff.1 hnone)
  obtain ⟨rest, hsplit, -, -⟩ := Procedure.whileAttached_split (c.mountPoint p) p.server
    p.baseSharePath (Procedure.removeAll (c.volumePath p) .done)
  have hdelete : ∃ closing, c.deleteVolume id = (c.onVolume p fun path =>
      .removeAll path .done).bind closing := by
    rw [deleteVolume, hempty, VolumeId.placement_eq_ok_iff.1 h]
    exact ⟨_, rfl⟩
  obtain ⟨closing, hclosing⟩ := hdelete
  refine ⟨fun made => (rest made).bind closing, ?_⟩
  rw [hclosing, onVolume, hsplit, Procedure.bind_assoc]

/-- The capabilities of a volume are checked if its id can be read, and then nothing else is. -/
theorem validateVolumeCapabilities_eq (c : Controller) (id : VolumeId)
    (capabilities : List (Option VolumeCapability)) :
    c.validateVolumeCapabilities id capabilities =
      match id.placement with
      | .error _ => .error (.volumeNotFound id.text)
      | .ok _ =>
        match c.driver.validateCapabilities capabilities with
        | .ok () => .ok true
        | .error e => .error e := by
  unfold validateVolumeCapabilities VolumeId.placement
  cases id.read with
  | error fault => rfl
  | ok p => cases c.driver.validateCapabilities capabilities <;> rfl

/-- Removing a volume and checking its capabilities agree on which ids name one. An id that cannot
be read is answered by both at once, and by the check whatever the capabilities: it is no error for
the removal, the empty id apart, and nothing is called, logged or changed; the check does not find
the volume. For an id that can be read, the removal first makes the mount point named after the
volume. If that succeeds, it attaches the export that the id names there, once, calling nothing else
before; the check answers what the driver says about the capabilities. It never answers `false`. -/
theorem operations_agree_on_ids (c : Controller) (m : Mounter σ) (host : Host σ) (id : VolumeId)
    (capabilities : List (Option VolumeCapability)) :
    let o := (c.deleteVolume id).run m host
    let validated := c.validateVolumeCapabilities id capabilities
    validated ≠ .ok false ∧
      match id.placement with
      | .error _ =>
        o.answer = (if id.text = "" then .error (.invalidArgument "volume id is empty")
          else .ok ()) ∧
        o.host = host ∧ o.calls = [] ∧ o.log = [] ∧ validated = .error (.volumeNotFound id.text)
      | .ok p =>
        let target := c.working.child p.name
        let made := (Procedure.createDirectories target).run m host
        id.text ≠ "" ∧
        (∃ rest, c.deleteVolume id = (Procedure.createDirectories target).bind rest) ∧
        (match made.answer with
        | .error fault =>
          o.calls = [] ∧
            o.answer = .error (.mountFailed target.text ("create mount point: " ++ fault.message))
        | .ok () =>
          o.calls = .attach target p.server ("/" ++ p.baseDir) ::
            match (m.attach target p.server ("/" ++ p.baseDir) made.host).result with
            | .ok () => [.detach target]
            | .error _ => []) ∧
        validated =
          match c.driver.validateCapabilities capabilities with
          | .ok () => .ok true
          | .error e => .error e := by
  dsimp only
  rw [validateVolumeCapabilities_eq]
  refine ⟨?_, ?_⟩
  · cases id.placement with
    | error e => simp
    | ok p => cases c.driver.validateCapabilities capabilities <;> simp
  cases hplacement : id.placement with
  | error e =>
    rw [run_deleteVolume_of_unreadable c m hplacement]
    exact ⟨rfl, rfl, rfl, rfl, rfl⟩
  | ok p =>
    refine ⟨VolumeId.text_ne_empty hplacement, deleteVolume_split c hplacement, ?_, rfl⟩
    have hscreen : c.screen (.delete id) = .ok p := screen_delete_ok_iff.2 hplacement
    obtain ⟨-, htrace, -, herror⟩ := run_deleteVolume c m id host
    have hcalls : ((c.deleteVolume id).run m host).calls =
        ((c.onVolume p (VolumeRequest.delete id).work).run m host).calls := by
      rw [← calls_serve hscreen m host, Outcome.calls, htrace]
      rfl
    have hwork := calls_onVolume c m p (.delete id) host
    simp only [← hcalls, mountPoint, Placement.baseSharePath] at hwork
    generalize (Procedure.createDirectories (c.working.child p.name)).run m host = made at hwork ⊢
    cases hmade : made.answer with
    | error fault =>
      simp only [hmade] at hwork
      refine ⟨hwork.1, (herror _).2 ?_⟩
      rw [run_serve, hscreen]
      dsimp only
      rw [hwork.2]
    | ok =>
      simp only [hmade] at hwork
      cases hreply :
          (m.attach (c.working.child p.name) p.server ("/" ++ p.baseDir) made.host).result <;>
      · simp only [hreply] at hwork
        exact hwork.1

end Controller
end NfsProvisioner
