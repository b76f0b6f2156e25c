import NfsProvisioner.Capability.Validation

/-!
# Which capabilities pass

A driver takes a capability that is given, asks for one of its access modes and wants a mounted file
system (`Driver.Accepts`). What is wrong with any other is fixed by rules of which exactly one
applies (`Driver.Objects`), so that the order of the checks shows in the rules alone. A list passes
if it holds something and all of it passes, and otherwise it is refused for its first bad entry.
-/
namespace NfsProvisioner.Driver

variable {d d' : Driver} {capability : Option VolumeCapability}
  {capabilities more : List (Option VolumeCapability)} {e : Error} {mode : AccessMode}

/-- A capability that the driver takes. What is wished for of the mounted file system does not
matter. -/
def Accepts (d : Driver) (capability : Option VolumeCapability) : Prop :=
  ∃ mode access, capability = some ⟨some mode, some (.mount access)⟩ ∧ mode ∈ d.accessModes

/-- What the driver objects to in a capability. -/
inductive Objects (d : Driver) : Option VolumeCapability → CapabilityFault → Prop
  | missing : d.Objects none .missing
  | modeNotSet (accessType : Option AccessType) : d.Objects (some ⟨none, accessType⟩) .modeNotSet
  | modeNotSupported {mode : AccessMode} (accessType : Option AccessType)
      (foreign : mode ∉ d.accessModes) :
      d.Objects (some ⟨some mode, accessType⟩) (.modeNotSupported mode)
  | typeNotSet {mode : AccessMode} (own : mode ∈ d.accessModes) :
      d.Objects (some ⟨some mode, none⟩) .typeNotSet
  | blockAccess {mode : AccessMode} (own : mode ∈ d.accessModes) :
      d.Objects (some ⟨some mode, some .block⟩) .blockAccess

theorem supports_iff : d.supports mode = true ↔ mode ∈ d.accessModes :=
  Std.ExtTreeSet.contains_iff_mem

theorem capabilityFault?_eq_some_iff {fault : CapabilityFault} :
    d.capabilityFault? capability = some fault ↔ d.Objects capability fault := by
  constructor
  · intro h
    unfold capabilityFault? at h
    split at h
    · cases h
      exact .missing
    · cases h
      exact .modeNotSet _
    · split at h
      · next hforeign =>
        cases h
        exact .modeNotSupported _ fun hown => by simp [supports_iff.2 hown] at hforeign
      · next hown =>
        have hown : _ ∈ d.accessModes := supports_iff.1 (by simpa using hown)
        split at h <;> cases h
        · exact .typeNotSet hown
        · exact .blockAccess hown
  · intro h
    cases h with
    | missing | modeNotSet => rfl
    | modeNotSupported _ foreign =>
      have hforeign : d.supports _ = false := Bool.eq_false_iff.2 (mt supports_iff.1 foreign)
      simp [capabilityFault?, hforeign]
    | typeNotSet own | blockAccess own => simp [capabilityFault?, supports_iff.2 own]

theorem capabilityFault?_eq_none_iff :
    d.capabilityFault? capability = none ↔ d.Accepts capability := by
  constructor
  · intro h
    unfold capabilityFault? at h
    split at h
    · cases h
    · cases h
    · split at h
      · cases h
      · next hown =>
        split at h <;> cases h
        exact ⟨_, _, rfl, supports_iff.1 (by simpa using hown)⟩
  · rintro ⟨mode, access, rfl, hown⟩
    simp [capabilityFault?, supports_iff.2 hown]

/-- A capability is either taken or objected to. -/
theorem not_accepts_iff : ¬ d.Accepts capability ↔ ∃ fault, d.Objects capability fault := by
  rw [← capabilityFault?_eq_none_iff]
  simp only [← capabilityFault?_eq_some_iff]
  exact Option.ne_none_iff_exists'

theorem validateCapability_error_iff :
    d.validateCapability capability = .error e ↔
      ∃ fault, d.Objects capability fault ∧ e = fault.toError := by
  simp only [← capabilityFault?_eq_some_iff, validateCapability]
  cases d.capabilityFault? capability with
  | none => simp
  | some fault => simp [eq_comm]

theorem capabilitiesFault?_of_ne_nil (h : capabilities ≠ []) :
    d.capabilitiesFault? capabilities = capabilities.findSome? d.capabilityFault? := by
  cases capabilities with
  | nil => exact absurd rfl h
  | cons => rfl

theorem validateCapabilities_ok_iff :
    d.validateCapabilities capabilities = .ok () ↔
      capabilities ≠ [] ∧ ∀ capability ∈ capabilities, d.Accepts capability := by
  have hpass : d.validateCapabilities capabilities = .ok () ↔
      d.capabilitiesFault? capabilities = none := by
    unfold validateCapabilities
    cases d.capabilitiesFault? capabilities <;> simp
  rw [hpass]
  by_cases hne : capabilities = []
  · simp [hne, capabilitiesFault?]
  · simp [hne, capabilitiesFault?_of_ne_nil hne, capabilityFault?_eq_none_iff]

/-- A list that does not pass is refused for its first bad entry, with the error that this entry
gets on its own. -/
theorem validateCapabilities_error_iff (h : capabilities ≠ []) :
    d.validateCapabilities capabilities = .error e ↔
      ∃ before capability after, capabilities = before ++ capability :: after ∧
        (∀ c ∈ before, d.Accepts c) ∧ d.validateCapability capability = .error e := by
  have hfault : d.validateCapabilities capabilities = .error e ↔
      ∃ fault, capabilities.findSome? d.capabilityFault? = some fault ∧ e = fault.toError := by
    rw [validateCapabilities, capabilitiesFault?_of_ne_nil h]
    cases capabilities.findSome? d.capabilityFault? <;> simp [eq_comm]
  rw [hfault]
  simp only [List.findSome?_eq_some_iff, validateCapability_error_iff,
    capabilityFault?_eq_some_iff, capabilityFault?_eq_none_iff]
  constructor
  · rintro ⟨fault, ⟨before, capability, after, hsplit, hobjects, hbefore⟩, he⟩
    exact ⟨before, capability, after, hsplit, hbefore, fault, hobjects, he⟩
  · rintro ⟨before, capability, after, hsplit, hbefore, fault, hobjects, he⟩
    exact ⟨fault, ⟨before, capability, after, hsplit, hobjects, hbefore⟩, he⟩

/-- The second of two lists is looked at if the first one passes. -/
theorem validateCapabilities_append (h : capabilities ≠ []) (hmore : more ≠ []) :
    d.validateCapabilities (capabilities ++ more) =
      match d.validateCapabilities capabilities with
      | .error e => .error e
      | .ok () => d.validateCapabilities more := by
  have happend : capabilities ++ more ≠ [] := List.append_ne_nil_of_left_ne_nil h more
  simp only [validateCapabilities, capabilitiesFault?_of_ne_nil h,
    capabilitiesFault?_of_ne_nil hmore, capabilitiesFault?_of_ne_nil happend,
    List.findSome?_append]
  cases capabilities.findSome? d.capabilityFault? <;> rfl

/-- A driver with more access modes takes more. -/
theorem Accepts.mono (hsub : ∀ mode ∈ d.accessModes, mode ∈ d'.accessModes)
    (h : d.Accepts capability) : d'.Accepts capability := by
  obtain ⟨mode, access, hcapability, hown⟩ := h
  exact ⟨mode, access, hcapability, hsub mode hown⟩

theorem invalidArgument_of_validateCapabilities (h : d.validateCapabilities capabilities ≠ .ok ()) :
    ∃ reason, d.validateCapabilities capabilities = .error (.invalidArgument reason) := by
  unfold validateCapabilities at h ⊢
  cases hfault : d.capabilitiesFault? capabilities with
  | none => simp [hfault] at h
  | some fault => exact ⟨fault.message, rfl⟩

/-- A list of capabilities passes if it holds something and the driver takes all of it. Otherwise it
is the caller's argument that is wrong, and of a list that holds something the first entry which the
driver does not take is reported, as it would be on its own. So two lists one after the other are
checked as the first one and then, if that passes, the second one. With more access modes nothing is
refused that has been taken before. -/
theorem first_bad_capability_decides (d : Driver) (capabilities : List (Option VolumeCapability)) :
    let result := d.validateCapabilities capabilities
    (result = .ok () ↔
      capabilities ≠ [] ∧ ∀ capability ∈ capabilities, d.Accepts capability) ∧
    (result ≠ .ok () → ∃ reason, result = .error (.invalidArgument reason)) ∧
    (capabilities ≠ [] →
      (∀ e, result = .error e ↔
        ∃ before capability after, capabilities = before ++ capability :: after ∧
          (∀ c ∈ before, d.Accepts c) ∧ ¬ d.Accepts capability ∧
          d.validateCapability capability = .error e) ∧
      ∀ more, more ≠ [] →
        (∀ e, result = .error e → d.validateCapabilities (capabilities ++ more) = .error e) ∧
        (result = .ok () →
          d.validateCapabilities (capabilities ++ more) = d.validateCapabilities more)) ∧
    ∀ d' : Driver, (∀ mode ∈ d.accessModes, mode ∈ d'.accessModes) → result = .ok () →
      d'.validateCapabilities capabilities = .ok () := by
  intro result
  refine ⟨validateCapabilities_ok_iff, invalidArgument_of_validateCapabilities,
    fun hne => ⟨fun e => ?_, fun more hmore => ?_⟩, fun d' hsub hpass => ?_⟩
  · have hbad {capability : Option VolumeCapability} :
        ¬ d.Accepts capability ∧ d.validateCapability capability = .error e ↔
          d.validateCapability capability = .error e := by
      refine and_iff_right_of_imp fun herror => ?_
      obtain ⟨fault, hobjects, -⟩ := validateCapability_error_iff.1 herror
      exact not_accepts_iff.2 ⟨fault, hobjects⟩
    simp only [hbad]
    exact validateCapabilities_error_iff hne
  · have happend := @validateCapabilities_append d _ _ hne hmore
    constructor
    · intro e herror
      rw [happend, show d.validateCapabilities capabilities = .error e from herror]
    · intro hpass
      rw [happend, show d.validateCapabilities capabilities = .ok () from hpass]
  · obtain ⟨hne, haccepts⟩ := validateCapabilities_ok_iff.1 hpass
    exact validateCapabilities_ok_iff.2 ⟨hne, fun c hc => (haccepts c hc).mono hsub⟩

/-- A driver with one access mode is asked for its own mode, for nothing, and for another mode; and
then for its own mode alone, which the driver with all modes takes as well. -/
theorem missing_capability_reported_first :
    let d : Driver := ({} : Driver).withAccessModes [.singleNodeWriter]
    let own := some (VolumeCapability.mount .singleNodeWriter)
    let foreign := some (VolumeCapability.mount .multiNodeMultiWriter)
    d.validateCapabilities [own, none, foreign] = .error CapabilityFault.missing.toError ∧
      d.validateCapabilities ([own] ++ [foreign, none]) =
        .error (CapabilityFault.modeNotSupported .multiNodeMultiWriter).toError ∧
      ({} : Driver).validateCapabilities [own] = .ok () := by
  intro d own foreign
  have hown : d.Accepts own := ⟨_, _, rfl, by decide +kernel⟩
  have hmissing : ¬ d.Accepts none := not_accepts_iff.2 ⟨_, .missing⟩
  obtain ⟨-, -, hfirst, -⟩ := first_bad_capability_decides d [own, none, foreign]
  obtain ⟨hpass, -, hthen, hmore⟩ := first_bad_capability_decides d [own]
  have hpass : d.validateCapabilities [own] = .ok () :=
    hpass.2 ⟨by simp, fun c hc => List.mem_singleton.1 hc ▸ hown⟩
  refine ⟨?_, ?_, hmore {} (fun mode _ => ?_) hpass⟩
  · refine ((hfirst (by simp)).1 _).2 ⟨[own], none, [foreign], rfl, fun c hc => ?_, hmissing, rfl⟩
    exact List.mem_singleton.1 hc ▸ hown
  · rw [((hthen (by simp)).2 [foreign, none] (by simp)).2 hpass]
    rfl
  · cases mode <;> decide +kernel

end NfsProvisioner.Driver
