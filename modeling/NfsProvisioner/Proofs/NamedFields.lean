import NfsProvisioner.Proofs.JsonPieces
import NfsProvisioner.Proofs.WireForms

/-!
# Records are read by the names of their fields

Which objects are read as a record, and as which one, is said here without the reader: no field
occurs twice, none that is required is missing, and the value of each is one of its form; a field
that is left out has its default. From this it follows which changes to the members of an object
cannot be noticed (`Fields.Immaterial`). All names of members have to stand for texts, also those
that no field has.
-/
namespace NfsProvisioner

variable {α β : Type}

theorem both_eq_some_iff {x : Option α} {y : Option β} {a : α} {b : β} :
    (do let a ← x; let b ← y; return (a, b) : Option (α × β)) = some (a, b) ↔
      x = some a ∧ y = some b := by
  cases x <;> cases y <;> simp

theorem Json.mem_named {name : String} {members : List (Option String × Json)} {j : Json} :
    j ∈ Json.named name members ↔ (some name, j) ∈ members := by
  simp [Json.named]

namespace Field

/-- The members of an object can be read for the field. -/
structure Admits (f : Field α) (members : List (Option String × Json)) : Prop where
  once : (members.map Prod.fst).count (some f.name) ≤ 1
  present : f.absent = none → some f.name ∈ members.map Prod.fst
  legal : ∀ j, (some f.name, j) ∈ members → (f.form.read j).isSome

/-- The value of the field among the members of an object: what its member says, or the default. -/
def Holds (f : Field α) (members : List (Option String × Json)) (a : α) : Prop :=
  (∃ j, (some f.name, j) ∈ members ∧ f.form.read j = some a) ∨
    some f.name ∉ members.map Prod.fst ∧ f.absent = some a

theorem admits_iff {f : Field α} {members : List (Option String × Json)} :
    f.Admits members ↔ (Json.named f.name members).length ≤ 1 ∧
      (f.absent = none → Json.named f.name members ≠ []) ∧
      ∀ j ∈ Json.named f.name members, (f.form.read j).isSome := by
  simp only [ne_eq, Json.named_eq_nil_iff, not_not, Json.length_named, Json.mem_named]
  exact ⟨fun h => ⟨h.once, h.present, h.legal⟩, fun ⟨honce, hpresent, hlegal⟩ =>
    ⟨honce, hpresent, hlegal⟩⟩

theorem holds_iff {f : Field α} {members : List (Option String × Json)} {a : α} :
    f.Holds members a ↔ (∃ j ∈ Json.named f.name members, f.form.read j = some a) ∨
      Json.named f.name members = [] ∧ f.absent = some a := by
  simp only [Holds, Json.mem_named, Json.named_eq_nil_iff]

/-- A field is read if its members admit it, and the value read is the one that they hold. -/
theorem ofMembers_eq_some_iff {f : Field α} {members : List (Option String × Json)} {a : α} :
    f.ofMembers members = some a ↔ f.Admits members ∧ f.Holds members a := by
  rw [ofMembers, admits_iff, holds_iff]
  rcases Json.named f.name members with _ | ⟨j, _ | ⟨other, others⟩⟩
  · have habsent : f.absent = some a → f.absent ≠ none := by
      intro h
      simp [h]
    simpa using habsent
  · have hread : f.form.read j = some a → (f.form.read j).isSome := by
      intro h
      simp [h]
    simpa using hread
  · simp

theorem Admits.exists_holds {f : Field α} {members : List (Option String × Json)}
    (h : f.Admits members) : ∃ a, f.Holds members a := by
  obtain ⟨-, hpresent, hlegal⟩ := admits_iff.1 h
  simp only [holds_iff]
  cases hnamed : Json.named f.name members with
  | nil =>
    obtain ⟨a, ha⟩ := Option.ne_none_iff_exists'.1 fun hnone => hpresent hnone hnamed
    exact ⟨a, .inr ⟨rfl, ha⟩⟩
  | cons j others =>
    have hj : j ∈ Json.named f.name members := by simp [hnamed]
    obtain ⟨a, ha⟩ := Option.isSome_iff_exists.1 (hlegal j hj)
    exact ⟨a, .inl ⟨j, List.mem_cons_self, ha⟩⟩

/-- A field is read from the values that have its name, in whatever order. -/
theorem ofMembers_congr {f : Field α} {before after : List (Option String × Json)}
    (h : (Json.named f.name before).Perm (Json.named f.name after)) :
    f.ofMembers before = f.ofMembers after := by
  have hnil : Json.named f.name before = [] ↔ Json.named f.name after = [] := by
    rw [← List.length_eq_zero_iff, h.length_eq, List.length_eq_zero_iff]
  refine Option.ext fun a => ?_
  simp only [ofMembers_eq_some_iff, admits_iff, holds_iff, h.length_eq, h.mem_iff, ne_eq, hnil]

/-- Where one value of the field is read, another one can stand. -/
theorem ofMembers_replaced {f : Field α} {before after : List (Option String × Json)} {old : Json}
    {a : α} (h : f.ofMembers (before ++ (some f.name, old) :: after) = some a) (j : Json) :
    f.ofMembers (before ++ (some f.name, j) :: after) = f.form.read j := by
  refine ofMembers_of_one ?_ j
  have honce := (ofMembers_eq_some_iff.1 h).1.once
  simp only [List.map_append, List.map_cons, List.count_append, List.count_cons_self] at honce
  rw [List.map_append, List.mem_append, ← List.count_pos_iff, ← List.count_pos_iff]
  omega

end Field

namespace Fields

/-- The names of the fields that must not be left out. -/
def required {α : Type} : Fields α → List String
  | .none => []
  | .cons f rest => if f.absent.isSome then required rest else f.name :: required rest

/-- The names of the fields that are read from `null`. -/
def nullable {α : Type} : Fields α → List String
  | .none => []
  | .cons f rest => if (f.form.read .null).isSome then f.name :: nullable rest else nullable rest

/-- A value is one of the form of the field that has a given name, if there is one. -/
def Legal {α : Type} : Fields α → String → Json → Prop
  | .none, _, _ => True
  | .cons f rest, name, j => (f.name = name → (f.form.read j).isSome) ∧ Legal rest name j

/-- A value says of the field that has a given name the same as leaving that field out. -/
def IsDefault {α : Type} : Fields α → String → Json → Prop
  | .none, _, _ => False
  | .cons f rest, name, j =>
    (f.name = name ∧ f.absent.isSome ∧ f.form.read j = f.absent) ∨ IsDefault rest name j

/-- The members of an object can be read for the fields. -/
structure Admits (fields : Fields α) (members : List (Option String × Json)) : Prop where
  once : ∀ name ∈ fields.names, (members.map Prod.fst).count (some name) ≤ 1
  complete : ∀ name ∈ fields.required, some name ∈ members.map Prod.fst
  legal : ∀ name j, (some name, j) ∈ members → fields.Legal name j

/-- The values of the fields among the members of an object: what their members say, and the
defaults of those that are left out. -/
def Holds {α : Type} : Fields α → List (Option String × Json) → α → Prop
  | .none, _, () => True
  | .cons f rest, members, (a, b) => f.Holds members a ∧ Holds rest members b

theorem admits_none {members : List (Option String × Json)} : Fields.none.Admits members :=
  ⟨nofun, nofun, fun _ _ _ => trivial⟩

theorem mem_required_cons {f : Field α} {rest : Fields β} {name : String} :
    name ∈ (Fields.cons f rest).required ↔
      f.absent = Option.none ∧ name = f.name ∨ name ∈ rest.required := by
  rw [required]
  cases habsent : f.absent <;> simp

theorem admits_cons {f : Field α} {rest : Fields β} {members : List (Option String × Json)} :
    (Fields.cons f rest).Admits members ↔ f.Admits members ∧ rest.Admits members := by
  constructor
  · rintro ⟨honce, hcomplete, hlegal⟩
    refine ⟨⟨?_, ?_, ?_⟩, ?_, ?_, ?_⟩
    · exact honce f.name List.mem_cons_self
    · exact fun habsent => hcomplete f.name (mem_required_cons.2 (.inl ⟨habsent, rfl⟩))
    · exact fun j hj => (hlegal f.name j hj).1 rfl
    · exact fun name hname => honce name (List.mem_cons_of_mem f.name hname)
    · exact fun name hname => hcomplete name (mem_required_cons.2 (.inr hname))
    · exact fun name j hj => (hlegal name j hj).2
  · rintro ⟨hfirst, hrest⟩
    refine ⟨fun name hname => ?_, fun name hname => ?_, fun name j hj => ⟨?_, ?_⟩⟩
    · rcases List.mem_cons.1 hname with rfl | hname
      · exact hfirst.once
      · exact hrest.once name hname
    · rcases mem_required_cons.1 hname with ⟨habsent, rfl⟩ | hname
      · exact hfirst.present habsent
      · exact hrest.complete name hname
    · rintro rfl
      exact hfirst.legal j hj
    · exact hrest.legal name j hj

/-- The fields are read if the members admit it, and the values read are those that they hold. -/
theorem ofMembers_eq_some_iff {fields : Fields α} {members : List (Option String × Json)} {a : α} :
    fields.ofMembers members = some a ↔ fields.Admits members ∧ fields.Holds members a := by
  induction fields with
  | none => simp [ofMembers, Holds, admits_none]
  | cons f rest ih =>
    obtain ⟨a, b⟩ := a
    rw [ofMembers, both_eq_some_iff, Field.ofMembers_eq_some_iff, ih, admits_cons, Holds]
    exact and_and_and_comm

theorem Admits.exists_holds {fields : Fields α} {members : List (Option String × Json)}
    (h : fields.Admits members) : ∃ a, fields.Holds members a := by
  induction fields with
  | none => exact ⟨(), trivial⟩
  | cons f rest ih =>
    obtain ⟨hfirst, hrest⟩ := admits_cons.1 h
    obtain ⟨a, ha⟩ := hfirst.exists_holds
    obtain ⟨b, hb⟩ := ih hrest
    exact ⟨(a, b), ha, hb⟩

theorem ofMembers_isSome_iff {fields : Fields α} {members : List (Option String × Json)} :
    (fields.ofMembers members).isSome ↔ fields.Admits members := by
  simp only [Option.isSome_iff_exists, ofMembers_eq_some_iff]
  exact ⟨fun ⟨_, h, _⟩ => h, fun h => h.exists_holds.imp fun _ ha => ⟨h, ha⟩⟩

/-- Changes to the members of an object that do not matter to the fields. -/
inductive Immaterial (fields : Fields α) :
    List (Option String × Json) → List (Option String × Json) → Prop
  | reorder {before after : List (Option String × Json)} (h : before.Perm after) :
      Immaterial fields before after
  /-- A member that no field has is added, whatever its value. -/
  | ignore {before after : List (Option String × Json)} {name : String} {j : Json}
      (h : name ∉ fields.names) :
      Immaterial fields (before ++ after) (before ++ (some name, j) :: after)
  /-- The one member of a field is left out that says what holds without it. -/
  | leaveOut {before after : List (Option String × Json)} {name : String} {j : Json}
      (hdefault : fields.IsDefault name j) (hone : some name ∉ (before ++ after).map Prod.fst) :
      Immaterial fields (before ++ (some name, j) :: after) (before ++ after)
  | symm {before after : List (Option String × Json)} (h : Immaterial fields before after) :
      Immaterial fields after before
  | trans {before between after : List (Option String × Json)}
      (first : Immaterial fields before between) (second : Immaterial fields between after) :
      Immaterial fields before after

theorem ofMembers_congr {fields : Fields α} {before after : List (Option String × Json)}
    (h : ∀ name ∈ fields.names, (Json.named name before).Perm (Json.named name after)) :
    fields.ofMembers before = fields.ofMembers after := by
  induction fields with
  | none => rfl
  | cons f rest ih =>
    have hfirst := Field.ofMembers_congr (h f.name List.mem_cons_self)
    have hrest := ih fun name hname => h name (List.mem_cons_of_mem f.name hname)
    rw [ofMembers, ofMembers, hfirst, hrest]

theorem IsDefault.mem_names {fields : Fields α} {name : String} {j : Json}
    (h : fields.IsDefault name j) : name ∈ fields.names := by
  induction fields with
  | none => exact h.elim
  | cons f rest ih =>
    rcases h with ⟨rfl, -⟩ | h
    · exact List.mem_cons_self
    · exact List.mem_cons_of_mem f.name (ih h)

theorem ofMembers_leaveOut {fields : Fields α} (hnames : fields.names.Nodup)
    {before after : List (Option String × Json)} {name : String} {j : Json}
    (hdefault : fields.IsDefault name j) (hone : some name ∉ (before ++ after).map Prod.fst) :
    fields.ofMembers (before ++ (some name, j) :: after) = fields.ofMembers (before ++ after) := by
  induction fields with
  | none => rfl
  | cons f rest ih =>
    obtain ⟨hfirst, hrest⟩ := List.nodup_cons.1 hnames
    rw [ofMembers, ofMembers]
    rcases hdefault with ⟨rfl, -, hread⟩ | hdefault
    · have hfield : f.ofMembers (before ++ (some f.name, j) :: after) =
          f.ofMembers (before ++ after) := by
        rw [Field.ofMembers_of_one hone, hread, Field.ofMembers, Json.named_eq_nil_iff.2 hone]
      rw [hfield, ofMembers_of_notMem hfirst]
    · have hne : name ≠ f.name := ne_of_mem_of_not_mem hdefault.mem_names hfirst
      rw [Field.ofMembers_of_ne hne, ih hrest hdefault]

theorem all_isSome_cons {name : String} {j : Json} (before after : List (Option String × Json)) :
    (before ++ (some name, j) :: after).all (·.1.isSome) = (before ++ after).all (·.1.isSome) := by
  simp

/-- Changes that do not matter make no difference to what is read. -/
theorem Immaterial.read_eq {fields : Fields α} (hnames : fields.names.Nodup)
    {before after : List (Option String × Json)} (h : fields.Immaterial before after) :
    fields.read (.object before) = fields.read (.object after) := by
  induction h with
  | symm _ ih => exact ih.symm
  | trans _ _ first second => exact first.trans second
  | @reorder before after h =>
    have hread : fields.ofMembers before = fields.ofMembers after :=
      ofMembers_congr fun name _ => (h.filter _).map Prod.snd
    rw [read, read, h.all_eq, hread]
  | @ignore before after name j h =>
    rw [read, read, all_isSome_cons, ofMembers_of_notMem h]
  | @leaveOut before after name j hdefault hone =>
    rw [read, read, all_isSome_cons, ofMembers_leaveOut hnames hdefault hone]

theorem read_object_isSome_iff {fields : Fields α} {members : List (Option String × Json)} :
    (fields.read (.object members)).isSome ↔
      (∀ member ∈ members, member.1.isSome) ∧ fields.Admits members := by
  rw [read, ← ofMembers_isSome_iff, ← List.all_eq_true]
  split
  · next htexts => simp only [htexts, true_and]
  · next htexts => simp only [htexts, false_and, Option.isSome_none, Bool.false_eq_true]

theorem read_object_eq_some_iff {fields : Fields α} {members : List (Option String × Json)}
    {a : α} : fields.read (.object members) = some a ↔
      (∀ member ∈ members, member.1.isSome) ∧ fields.Admits members ∧ fields.Holds members a := by
  rw [read, ← ofMembers_eq_some_iff, ← List.all_eq_true]
  split
  · next htexts => simp only [htexts, true_and]
  · next htexts => simp only [htexts, false_and, reduceCtorEq]

end Fields

/-- The records of the wire format: how a text is read in which one stands, and where in the text
that is; its fields and what is made of their values; the names of all fields, of those that must
not be left out and of those that are read from `null`; and the values that the others have when
they are left out. -/
inductive WireRecord : {α β : Type} → (decode : String → Option β) → (place : Json → Json) →
    Fields α → (make : α → β) → (names required nullable : List String) →
    (defaults : List (String × Json)) → Prop
  | mountAccess : WireRecord Wire.mountAccess.decode id Wire.mountAccessFields
      (fun (fsType, mountFlags, ()) => ⟨fsType, mountFlags⟩) ["fs_type", "mount_flags"] [] []
      [("fs_type", .text ""), ("mount_flags", .array [])]
  | volumeCapability : WireRecord Wire.volumeCapability.decode id Wire.volumeCapabilityFields
      (fun (accessMode, accessType, ()) => ⟨accessMode, accessType⟩)
      ["access_mode", "access_type"] [] ["access_mode", "access_type"]
      [("access_mode", .null), ("access_type", .null)]
  | capacityRange : WireRecord Wire.capacityRange.decode id Wire.capacityRangeFields
      (fun (requiredBytes, limitBytes, ()) => ⟨requiredBytes, limitBytes⟩)
      ["required_bytes", "limit_bytes"] [] []
      [("required_bytes", .natural 0), ("limit_bytes", .natural 0)]
  | volume : WireRecord Wire.volume.decode id Wire.volumeFields
      (fun (id, capacityBytes, context, ()) => ⟨id, capacityBytes, context⟩)
      ["volume_id", "capacity_bytes", "volume_context"] ["volume_id", "capacity_bytes"] []
      [("volume_context", .object [])]
  | createVolumeRequest :
      WireRecord Wire.createVolumeRequest.decode id Wire.createVolumeRequestFields
        (fun (name, capacityRange, capabilities, parameters, ()) =>
          ⟨name, capacityRange, capabilities, parameters⟩)
        ["name", "capacity_range", "volume_capabilities", "parameters"] ["name"] ["capacity_range"]
        [("capacity_range", .null), ("volume_capabilities", .array []), ("parameters", .object [])]
  | pluginInfo : WireRecord Wire.pluginInfo.decode id Wire.pluginInfoFields
      (fun (name, vendorVersion, ()) => ⟨name, vendorVersion⟩)
      ["name", "vendor_version"] ["name", "vendor_version"] [] []
  | driver : WireRecord Wire.driver.decode id Wire.driverFields
      (fun (name, vendorVersion, accessModes, controllerCapabilities, ()) =>
        ⟨name, vendorVersion, accessModes, controllerCapabilities⟩)
      ["name", "vendor_version", "access_modes", "controller_capabilities"]
      ["name", "vendor_version", "access_modes", "controller_capabilities"] [] []
  | settings : WireRecord Wire.settings.decode id Wire.settingsFields
      (fun (workingDirectory, mountOptions, ()) => ⟨workingDirectory, mountOptions⟩)
      ["working_mount_dir", "mount_options"] ["working_mount_dir"] []
      [("mount_options", .array [])]
  | validateVolumeCapabilities :
      WireRecord Wire.message.decode (.variant "ValidateVolumeCapabilities") Wire.validateFields
        (fun (id, capabilities, ()) => .request (.validateVolumeCapabilities id capabilities))
        ["volume_id", "capabilities"] ["volume_id", "capabilities"] [] []
  | malformedIdentifier :
      WireRecord Wire.error.decode (.variant "MalformedIdentifier") Wire.malformedIdentifierFields
        (fun (id, reason, ()) => .malformedIdentifier id reason)
        ["id", "reason"] ["id", "reason"] [] []
  | mountFailed : WireRecord Wire.error.decode (.variant "MountFailed") Wire.failureFields
      (fun (path, reason, ()) => .mountFailed path reason)
      ["path", "reason"] ["path", "reason"] [] []
  | unmountFailed : WireRecord Wire.error.decode (.variant "UnmountFailed") Wire.failureFields
      (fun (path, reason, ()) => .unmountFailed path reason)
      ["path", "reason"] ["path", "reason"] [] []

namespace WireRecord

variable {decode : String → Option β} {place : Json → Json} {fields : Fields α} {make : α → β}
  {names required nullable : List String} {defaults : List (String × Json)}

theorem names_eq (h : WireRecord decode place fields make names required nullable defaults) :
    fields.names = names := by
  cases h <;> rfl

theorem required_eq (h : WireRecord decode place fields make names required nullable defaults) :
    fields.required = required := by
  cases h <;> rfl

theorem nullable_eq (h : WireRecord decode place fields make names required nullable defaults) :
    fields.nullable = nullable := by
  cases h <;> rfl

theorem required_or_default
    (h : WireRecord decode place fields make names required nullable defaults) :
    ∀ name ∈ names, name ∈ required ∨ name ∈ defaults.map Prod.fst := by
  cases h <;> decide

theorem isDefault (h : WireRecord decode place fields make names required nullable defaults) :
    ∀ field ∈ defaults, fields.IsDefault field.1 field.2 := by
  cases h with
  | mountAccess | volumeCapability | capacityRange =>
    simp only [List.forall_mem_cons]
    exact ⟨.inl ⟨rfl, rfl, rfl⟩, .inr (.inl ⟨rfl, rfl, rfl⟩), nofun⟩
  | volume =>
    simp only [List.forall_mem_cons]
    exact ⟨.inr (.inr (.inl ⟨rfl, rfl, rfl⟩)), nofun⟩
  | createVolumeRequest =>
    simp only [List.forall_mem_cons]
    exact ⟨.inr (.inl ⟨rfl, rfl, rfl⟩), .inr (.inr (.inl ⟨rfl, rfl, rfl⟩)),
      .inr (.inr (.inr (.inl ⟨rfl, rfl, rfl⟩))), nofun⟩
  | settings =>
    simp only [List.forall_mem_cons]
    exact ⟨.inr (.inl ⟨rfl, rfl, rfl⟩), nofun⟩
  | pluginInfo | driver | validateVolumeCapabilities | malformedIdentifier | mountFailed
  | unmountFailed => exact nofun

theorem distinct (h : WireRecord decode place fields make names required nullable defaults) :
    fields.names.Nodup := by
  cases h <;> decide

/-- A text is read through the record that stands in it. -/
theorem decode_eq (h : WireRecord decode place fields make names required nullable defaults)
    {text : String} {j : Json} (hparse : Json.parse text = some (place j)) :
    decode text = (fields.read j).map make := by
  cases h with
  | validateVolumeCapabilities =>
    rw [Form.decode, hparse]
    change ((Wire.validateFields.read j).map _ |>.map Message.request).or none = _
    cases Wire.validateFields.read j <;> rfl
  | _ =>
    rw [Form.decode, hparse]
    rfl

end WireRecord

/-- An object is read as a record exactly if the names of its members stand for texts, no field
occurs twice, none that is required is missing and each has a value of its form; what is read are
the values of the fields that occur and the defaults of the others. So the order of the members,
members that no field has and members that say what holds without them make no difference. The
members are those that are written, each value taking up its own text. -/
theorem records_are_read_by_name :
    (∀ {α β : Type} {decode : String → Option β} {place : Json → Json} {fields : Fields α}
      {make : α → β} {names required nullable : List String} {defaults : List (String × Json)},
      WireRecord decode place fields make names required nullable defaults →
        fields.names = names ∧ fields.required = required ∧ fields.nullable = nullable ∧
        (∀ name ∈ names, name ∈ required ∨ name ∈ defaults.map Prod.fst) ∧
        (∀ field ∈ defaults, fields.IsDefault field.1 field.2) ∧
        ∀ text members, Json.parse text = some (place (.object members)) →
          ((decode text).isSome ↔
            (∀ member ∈ members, member.1.isSome) ∧ fields.Admits members) ∧
          (∀ b, decode text = some b ↔
            (∀ member ∈ members, member.1.isSome) ∧ fields.Admits members ∧
              ∃ a, fields.Holds members a ∧ make a = b) ∧
          ∀ other others, Json.parse other = some (place (.object others)) →
            fields.Immaterial members others → decode other = decode text) ∧
      ∀ texts members, List.Forall₂ Json.IsMember texts members →
        Json.parse (Json.objectText texts) = some (.object members) := by
  refine ⟨fun {α β decode place fields make names required nullable defaults} hrecord => ?_,
    fun texts members => Json.parse_objectText⟩
  refine ⟨hrecord.names_eq, hrecord.required_eq, hrecord.nullable_eq, hrecord.required_or_default,
    hrecord.isDefault, fun text members hparse => ?_⟩
  have hdecode := hrecord.decode_eq hparse
  refine ⟨?_, fun b => ?_, fun other others hother himmaterial => ?_⟩
  · rw [hdecode, Option.isSome_map, Fields.read_object_isSome_iff]
  · simp only [hdecode, Option.map_eq_some_iff, Fields.read_object_eq_some_iff]
    constructor
    · rintro ⟨a, ⟨htexts, hadmits, hholds⟩, hmake⟩
      exact ⟨htexts, hadmits, a, hholds, hmake⟩
    · rintro ⟨htexts, hadmits, a, hholds, hmake⟩
      exact ⟨a, ⟨htexts, hadmits, hholds⟩, hmake⟩
  · rw [hdecode, hrecord.decode_eq hother, himmaterial.read_eq hrecord.distinct]

namespace Sample

/-- A request with a member that no field has, and with a list of capabilities that is empty as if
it had been left out. -/
def wordyRequest : String :=
  "\x7b\"x\":[1],\"volume_capabilities\":[],\"capacity_range\":null,\"name\":\"a\"\x7d"

def briefRequest : String :=
  "\x7b\"name\":\"a\",\"capacity_range\":null\x7d"

/-- An object with a member that no field has and whose name is half of a surrogate pair. -/
def namelessMember : String :=
  "\x7b\"a\\ud800\":1\x7d"

theorem parse_wordyRequest : Json.parse wordyRequest = some (.object
    [(some "x", .array [.natural 1]), (some "volume_capabilities", .array []),
      (some "capacity_range", .null), (some "name", .text "a")]) := by
  rfl

theorem parse_briefRequest : Json.parse briefRequest =
    some (.object [(some "name", .text "a"), (some "capacity_range", .null)]) := by
  rfl

theorem parse_namelessMember :
    Json.parse namelessMember = some (.object [(none, .natural 1)]) := by
  have hread : Token.readAll namelessMember.toList =
      some [.openObject, .string none, .colon, .number (.natural 1), .closeObject] := by
    decide +kernel
  rw [Json.parse, hread]
  rfl

theorem request_is_read_by_name :
    Wire.createVolumeRequestFields.required = ["name"] ∧
      (Wire.createVolumeRequest.decode briefRequest).isSome ∧
      Wire.createVolumeRequest.decode wordyRequest = Wire.createVolumeRequest.decode briefRequest :=
  by
  obtain ⟨-, hrequired, -, -, hdefaults, hread⟩ := records_are_read_by_name.1 .createVolumeRequest
  obtain ⟨haccepts, -, hindifferent⟩ := hread briefRequest _ parse_briefRequest
  refine ⟨hrequired, haccepts.2 ⟨by simp, by decide, by decide, fun name j hj => ?_⟩,
    hindifferent wordyRequest _ parse_wordyRequest ?_⟩
  · simp only [List.mem_cons, Prod.mk.injEq, Option.some.injEq, List.not_mem_nil, or_false] at hj
    rcases hj with ⟨rfl, rfl⟩ | ⟨rfl, rfl⟩
    · exact ⟨fun _ => rfl, by decide, by decide, by decide, trivial⟩
    · exact ⟨by decide, fun _ => rfl, by decide, by decide, trivial⟩
  · have hempty : Wire.createVolumeRequestFields.IsDefault "volume_capabilities" (.array []) :=
      hdefaults ("volume_capabilities", .array []) (by simp)
    have hlonger : Wire.createVolumeRequestFields.Immaterial
        [(some "capacity_range", .null), (some "name", .text "a")]
        [(some "volume_capabilities", .array []), (some "capacity_range", .null),
          (some "name", .text "a")] :=
      .symm (@Fields.Immaterial.leaveOut _ _ [] _ _ _ hempty (by simp))
    have hwithExtra := @Fields.Immaterial.ignore _ Wire.createVolumeRequestFields []
      [(some "volume_capabilities", .array []), (some "capacity_range", .null),
        (some "name", .text "a")] "x" (.array [.natural 1]) (by decide)
    exact .trans (.reorder (.swap ..)) (.trans hlonger hwithExtra)

/-- The conditions on fields are met, and yet the object is refused. -/
theorem name_without_text_is_refused :
    Json.parse namelessMember = some (.object [(none, .natural 1)]) ∧
      Wire.mountAccessFields.Admits [(none, .natural 1)] ∧
      Wire.mountAccess.decode namelessMember = none ∧
      ¬ ((Wire.mountAccess.decode namelessMember).isSome ↔
        Wire.mountAccessFields.Admits [(none, .natural 1)]) := by
  have hadmits : Wire.mountAccessFields.Admits [(none, .natural 1)] :=
    ⟨fun name _ => by simp, nofun, fun name j hj => by simp at hj⟩
  have hdecode : Wire.mountAccess.decode namelessMember = none := by
    rw [Form.decode, parse_namelessMember]
    rfl
  refine ⟨parse_namelessMember, hadmits, hdecode, fun h => ?_⟩
  rw [hdecode] at h
  exact absurd (h.2 hadmits) (by decide)

end Sample
end NfsProvisioner
