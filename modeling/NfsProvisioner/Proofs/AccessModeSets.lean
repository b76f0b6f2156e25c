import NfsProvisioner.Proofs.CapabilityChecks
import NfsProvisioner.Proofs.NamedFields

/-!
# Access modes form a set

However the access modes of a driver are given — as a list to the driver, or in a text — neither
their order nor repetitions count; written down and logged, each stands once and in its order. The
operations that the controller announces are a list and stay as they are given.
-/
namespace NfsProvisioner

namespace AccessMode

theorem mem_all (mode : AccessMode) : mode ∈ all := by
  cases mode <;> decide

theorem ordered_all : all.Pairwise fun a b => compare a b = .lt := by
  decide

theorem mem_ofList {modes : List AccessMode} {mode : AccessMode} :
    mode ∈ (Std.ExtTreeSet.ofList modes : AccessModes) ↔ mode ∈ modes := by
  rw [Std.ExtTreeSet.mem_ofList, List.contains_iff_mem]

theorem ofList_eq_iff {modes others : List AccessMode} :
    (Std.ExtTreeSet.ofList modes : AccessModes) = Std.ExtTreeSet.ofList others ↔
      ∀ mode, mode ∈ modes ↔ mode ∈ others := by
  simp only [Std.ExtTreeSet.ext_mem_iff, mem_ofList]

/-- A set lists its modes in their order, each once. -/
theorem toList_ofList (modes : List AccessMode) :
    (Std.ExtTreeSet.ofList modes : AccessModes).toList = all.filter (· ∈ modes) := by
  have hordered : (all.filter (· ∈ modes)).Pairwise fun a b => compare a b = .lt :=
    ordered_all.filter _
  have hlisted := (Std.ExtTreeSet.ofList modes : AccessModes).ordered_toList
  have hnodup {l : List AccessMode} (h : l.Pairwise fun a b => compare a b = .lt) : l.Nodup := by
    refine h.imp fun {a b} hlt heq => ?_
    subst heq
    cases a <;> cases hlt
  have hsame : (Std.ExtTreeSet.ofList modes : AccessModes).toList.Perm
      (all.filter (· ∈ modes)) := by
    rw [List.perm_ext_iff_of_nodup (hnodup hlisted) (hnodup hordered)]
    intro mode
    simp [Std.ExtTreeSet.mem_toList, mem_all]
  have hunordered (a b : AccessMode) (hab : compare a b = .lt) (hba : compare b a = .lt) : a = b :=
    absurd hba (Std.OrientedCmp.not_lt_of_lt hab)
  exact hsame.eq_of_pairwise (fun a b _ _ => hunordered a b) hlisted hordered

end AccessMode

namespace Driver

/-- A driver as it is written, with a list of access modes. -/
def written (d : Driver) (modes : List AccessMode) : Json :=
  .record [("name", .text d.name), ("vendor_version", .text d.vendorVersion),
    ("access_modes", .array (modes.map Wire.accessMode.write)),
    ("controller_capabilities",
      .array (d.controllerCapabilities.map Wire.controllerCapability.write))]

theorem write_eq_written (d : Driver) :
    Wire.driver.write d = d.written d.accessModes.toList :=
  rfl

theorem legible_written (d : Driver) (modes : List AccessMode) : (d.written modes).Legible := by
  refine .record fun member hmember => ?_
  simp only [List.mem_cons, List.not_mem_nil, or_false] at hmember
  rcases hmember with rfl | rfl | rfl | rfl
  · exact .text d.name
  · exact .text d.vendorVersion
  · exact Wire.faithful_accessMode.list.legible modes
  · exact Wire.faithful_controllerCapability.list.legible d.controllerCapabilities

theorem read_accessModes {items : List Json} {modes : List AccessMode}
    (h : items.mapM Wire.accessMode.read = some modes) :
    Wire.accessModes.read (.array items) = some (Std.ExtTreeSet.ofList modes) :=
  congrArg (Option.map _) h

/-- Other access modes can stand among members that are read as a driver's. -/
theorem ofMembers_replaced {before after : List (Option String × Json)} {old : Json}
    {items : List Json} {modes : List AccessMode}
    (hitems : items.mapM Wire.accessMode.read = some modes)
    {name version : String} {former : AccessModes} {capabilities : List ControllerCapability}
    (h : Wire.driverFields.ofMembers (before ++ (some "access_modes", old) :: after) =
      some (name, version, former, capabilities, ())) :
    Wire.driverFields.ofMembers (before ++ (some "access_modes", .array items) :: after) =
      some (name, version, Std.ExtTreeSet.ofList modes, capabilities, ()) := by
  simp only [Wire.driverFields, Fields.ofMembers, both_eq_some_iff] at h ⊢
  obtain ⟨hname, hversion, hformer, hcapabilities, -⟩ := h
  rw [Field.ofMembers_of_ne (by decide)] at hname hversion hcapabilities
  refine ⟨?_, ?_, ?_, ?_, trivial⟩
  · rw [Field.ofMembers_of_ne (by decide), hname]
  · rw [Field.ofMembers_of_ne (by decide), hversion]
  · rw [Field.ofMembers_replaced hformer]
    exact read_accessModes hitems
  · rw [Field.ofMembers_of_ne (by decide), hcapabilities]

theorem read_object_replaced {d : Driver} {before after : List (Option String × Json)} {old : Json}
    (h : Wire.driver.read (.object (before ++ (some "access_modes", old) :: after)) = some d)
    {items : List Json} {modes : List AccessMode}
    (hitems : items.mapM Wire.accessMode.read = some modes) :
    Wire.driver.read (.object (before ++ (some "access_modes", .array items) :: after)) =
      some (d.withAccessModes modes) := by
  obtain ⟨⟨name, version, former, capabilities, ⟨⟩⟩, hread, rfl⟩ := Option.map_eq_some_iff.1 h
  rw [Fields.read, Fields.all_isSome_cons] at hread
  split at hread
  · next htexts =>
    refine Option.map_eq_some_iff.2
      ⟨(name, version, Std.ExtTreeSet.ofList modes, capabilities, ()), ?_, rfl⟩
    rw [Fields.read, Fields.all_isSome_cons, if_pos htexts]
    exact ofMembers_replaced hitems hread
  · cases hread

/-- Other access modes can stand in an array that is read as a driver. -/
theorem read_array_replaced {d : Driver} {name version old capabilities : Json}
    (h : Wire.driver.read (.array [name, version, old, capabilities]) = some d)
    {items : List Json} {modes : List AccessMode}
    (hitems : items.mapM Wire.accessMode.read = some modes) :
    Wire.driver.read (.array [name, version, .array items, capabilities]) =
      some (d.withAccessModes modes) := by
  obtain ⟨⟨ownName, ownVersion, former, announced, ⟨⟩⟩, hread, rfl⟩ := Option.map_eq_some_iff.1 h
  refine Option.map_eq_some_iff.2
    ⟨(ownName, ownVersion, Std.ExtTreeSet.ofList modes, announced, ()), ?_, rfl⟩
  simp only [Fields.read, Wire.driverFields, Fields.ofItems, both_eq_some_iff] at hread ⊢
  obtain ⟨hname, hversion, -, hcapabilities, -⟩ := hread
  exact ⟨hname, hversion, read_accessModes hitems, hcapabilities, trivial⟩

theorem withAccessModes_eq_iff (d : Driver) {modes others : List AccessMode} :
    d.withAccessModes modes = d.withAccessModes others ↔ ∀ mode, mode ∈ modes ↔ mode ∈ others := by
  rw [← AccessMode.ofList_eq_iff]
  exact ⟨fun h => congrArg accessModes h, fun h => by rw [withAccessModes, withAccessModes, h]⟩

/-- A driver is read from what is written for it, whichever list its access modes are written as. -/
theorem decode_written (d : Driver) (modes : List AccessMode) :
    Wire.driver.decode (d.written modes).render = some (d.withAccessModes modes) := by
  rw [Form.decode, Json.parse_render (d.legible_written modes), Option.bind_some]
  have hitems : (modes.map Wire.accessMode.write).mapM Wire.accessMode.read = some modes :=
    Wire.faithful_accessMode.list.reads_self modes
  exact @read_object_replaced d
    [(some "name", .text d.name), (some "vendor_version", .text d.vendorVersion)]
    [(some "controller_capabilities",
      .array (d.controllerCapabilities.map Wire.controllerCapability.write))]
    _ (Wire.faithful_driver.reads_self d) _ modes hitems

/-- The access modes of a driver are a set: two lists give the same driver exactly if they have the
same modes, and so does a text in which such a list stands, wherever it stands there and however its
modes are written. A driver is written, and says what it does, with each mode once and in order; the
operations that it announces stay as they are. -/
theorem access_modes_form_a_set (d : Driver) (modes : List AccessMode) :
    (∀ others, d.withAccessModes modes = d.withAccessModes others ↔
      ∀ mode, mode ∈ modes ↔ mode ∈ others) ∧
    (∀ mode, (d.withAccessModes modes).supports mode = true ↔ mode ∈ modes) ∧
    Wire.driver.decode (d.written modes).render = some (d.withAccessModes modes) ∧
    (∀ text other items, Wire.driver.decode text = some d →
      items.mapM Wire.accessMode.read = some modes →
      (∀ before old after,
        Json.parse text = some (.object (before ++ (some "access_modes", old) :: after)) →
        Json.parse other = some (.object (before ++ (some "access_modes", .array items) :: after)) →
        Wire.driver.decode other = some (d.withAccessModes modes)) ∧
      ∀ name version old capabilities,
        Json.parse text = some (.array [name, version, old, capabilities]) →
        Json.parse other = some (.array [name, version, .array items, capabilities]) →
        Wire.driver.decode other = some (d.withAccessModes modes)) ∧
    Wire.driver.encode (d.withAccessModes modes) =
      (d.written (AccessMode.all.filter (· ∈ modes))).render ∧
    (d.withAccessModes modes).startEvents =
      ⟨.info, "driver configured", [("driver", d.name), ("version", d.vendorVersion)]⟩ ::
        ((AccessMode.all.filter (· ∈ modes)).map fun mode =>
          ⟨.info, "enabling volume access mode", [("mode", mode.displayName)]⟩) ++
        d.controllerCapabilities.map fun capability =>
          ⟨.info, "enabling controller service capability", [("cap", capability.displayName)]⟩ := by
  have hlist : (d.withAccessModes modes).accessModes.toList = AccessMode.all.filter (· ∈ modes) :=
    AccessMode.toList_ofList modes
  refine ⟨fun others => d.withAccessModes_eq_iff, fun mode => ?_, d.decode_written modes,
    fun text other items htext hitems => ⟨?_, ?_⟩, ?_, ?_⟩
  · exact supports_iff.trans AccessMode.mem_ofList
  · intro before old after hparse hother
    rw [Form.decode, hparse] at htext
    rw [Form.decode, hother]
    exact read_object_replaced htext hitems
  · intro name version old capabilities hparse hother
    rw [Form.decode, hparse] at htext
    rw [Form.decode, hother]
    exact read_array_replaced htext hitems
  · rw [Form.encode, write_eq_written, hlist]
    rfl
  · rw [startEvents, hlist]
    rfl

namespace Sample

/-- A driver without access modes that announces nothing. -/
def idle : Driver :=
  { accessModes := ∅, controllerCapabilities := [] }

/-- The text of such a driver with a list of access modes in front. -/
def idleText (items : List Json) : String :=
  (Json.record [("access_modes", .array items), ("controller_capabilities", .array []),
    ("name", .text idle.name), ("vendor_version", .text idle.vendorVersion)]).render

/-- Two modes, one of them twice and one of them as an object. -/
def repeatedModes : List Json :=
  [.text "MultiNodeMultiWriter", .variant "SingleNodeWriter" .null, .text "MultiNodeMultiWriter"]

theorem parse_idleText {items : List Json} (h : ∀ item ∈ items, item.Legible) :
    Json.parse (idleText items) = some (.object [(some "access_modes", .array items),
      (some "controller_capabilities", .array []), (some "name", .text idle.name),
      (some "vendor_version", .text idle.vendorVersion)]) := by
  refine Json.parse_render (.record fun member hmember => ?_)
  simp only [List.mem_cons, List.not_mem_nil, or_false] at hmember
  rcases hmember with rfl | rfl | rfl | rfl
  · exact .array h
  · exact .array nofun
  · exact .text idle.name
  · exact .text idle.vendorVersion

theorem repeated_modes_are_a_set :
    let modes := [AccessMode.multiNodeMultiWriter, .singleNodeWriter, .multiNodeMultiWriter]
    idle.withAccessModes modes = idle.withAccessModes [.singleNodeWriter, .multiNodeMultiWriter] ∧
      Wire.driver.decode (idleText repeatedModes) = some (idle.withAccessModes modes) := by
  intro modes
  have hlegible : ∀ item ∈ repeatedModes, item.Legible := by
    intro item hitem
    simp only [repeatedModes, List.mem_cons, List.not_mem_nil, or_false] at hitem
    rcases hitem with rfl | rfl | rfl
    · exact .text _
    · exact .variant .null
    · exact .text _
  have hempty : Json.parse (idleText []) = _ := parse_idleText nofun
  have hidle : Wire.driver.decode (idleText []) = some idle := by
    rw [Form.decode, hempty]
    rfl
  obtain ⟨hsame, -, -, hread, -⟩ := idle.access_modes_form_a_set modes
  refine ⟨(hsame _).2 fun mode => by cases mode <;> decide, ?_⟩
  exact (hread _ _ repeatedModes hidle rfl).1 [] _ _ hempty (parse_idleText hlegible)

end Sample
end Driver
end NfsProvisioner
