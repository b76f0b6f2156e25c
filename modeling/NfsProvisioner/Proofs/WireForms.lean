import NfsProvisioner.Proofs.MemberOrder
import NfsProvisioner.Wire.Message

/-!
# Wire forms read what they write

A form is faithful if it writes JSON that can be read back and makes the same value out of it again,
in whatever order the members of its objects stand. Each way to build a form keeps this, with a
condition where the ways of writing could be confused: an optional value must not be written as
`null` itself, the fields of a record and the values of a choice must have different names. All
forms of messages, and of what is in them, are faithful.
-/
namespace NfsProvisioner

variable {α β : Type}

theorem mapM_map_eq_some {read : β → Option α} {write : α → β}
    (h : ∀ a, read (write a) = some a) (as : List α) : (as.map write).mapM read = some as := by
  induction as with
  | nil => rfl
  | cons a as ih => simp [h a, ih]

theorem mapM_of_forall₂ {related : α → β → Prop} {read : β → Option α} {as : List α}
    {bs : List β} (h : List.Forall₂ related as bs)
    (hread : ∀ a b, related a b → read b = some a) : bs.mapM read = some as := by
  induction h with
  | nil => rfl
  | cons hab _ ih => simp [hread _ _ hab, ih]

namespace Form

structure Faithful (f : Form α) : Prop where
  legible : ∀ a, (f.write a).Legible
  reads : ∀ a j, (f.write a).Reordered j → f.read j = some a

theorem Faithful.reads_self {f : Form α} (h : f.Faithful) (a : α) : f.read (f.write a) = some a :=
  h.reads a _ (h.legible a).reordered_self

/-- What is written as text is read back, also if the members of objects stand in another order. -/
def RoundTrips (f : Form α) : Prop :=
  ∀ a, f.decode (f.encode a) = some a ∧
    ∀ j, (f.write a).Reordered j → f.decode j.render = some a

theorem Faithful.decode_render {f : Form α} (h : f.Faithful) {a : α} {j : Json}
    (hj : (f.write a).Reordered j) : f.decode j.render = some a := by
  rw [decode, Json.parse_render ((h.legible a).of_reordered hj)]
  exact h.reads a j hj

theorem Faithful.roundTrips {f : Form α} (h : f.Faithful) : f.RoundTrips :=
  fun a => ⟨h.decode_render (h.legible a).reordered_self, fun _ => h.decode_render⟩

/-- Texts that are read as the same value were written for one value. -/
theorem RoundTrips.eq_of_decode_eq {f : Form α} (h : f.RoundTrips) {a b : α} {j k : Json}
    (ha : (f.write a).Reordered j) (hb : (f.write b).Reordered k)
    (heq : f.decode j.render = f.decode k.render) : a = b := by
  rw [(h a).2 j ha, (h b).2 k hb] at heq
  exact Option.some.inj heq

theorem Faithful.map {f : Form α} (h : f.Faithful) {forth : α → β} {back : β → α}
    (hback : ∀ b, forth (back b) = b) : (f.map forth back).Faithful where
  legible b := h.legible (back b)
  reads b j hj := by simp [Form.map, h.reads (back b) j hj, hback]

theorem faithful_text : text.Faithful where
  legible := .text
  reads s j hj := by
    rw [hj.of_text]
    rfl

theorem faithful_bool : bool.Faithful where
  legible := .bool
  reads b j hj := by
    cases hj
    rfl

theorem faithful_word : word.Faithful where
  legible n := .natural n.toNat
  reads n j hj := by
    cases hj
    change (if n.toNat < UInt64.size then some (UInt64.ofNat n.toNat) else none) = some n
    rw [if_pos n.toNat_lt_size, UInt64.ofNat_toNat]

theorem Faithful.list {f : Form α} (h : f.Faithful) : f.list.Faithful where
  legible as := .array fun item hitem => by
    obtain ⟨a, -, rfl⟩ := List.mem_map.1 hitem
    exact h.legible a
  reads as j hj := by
    cases hj with
    | array hitems => exact mapM_of_forall₂ (List.forall₂_map_left_iff.1 hitems) h.reads

theorem Faithful.option {f : Form α} (h : f.Faithful) (hnull : ∀ a, f.write a ≠ .null) :
    f.option.Faithful where
  legible
    | none => .null
    | some a => h.legible a
  reads
    | none, j, hj => by
      cases hj
      rfl
    | some a, j, hj => by
      have hread := h.reads a j hj
      have hsome := hnull a
      change (f.write a).Reordered j at hj
      generalize f.write a = written at hj hsome
      cases hj with
      | null => exact absurd rfl hsome
      | _ => simp [Form.option, hread]

/-- A map is what its entries say, in any order. -/
theorem ofList_of_perm {m : Std.ExtTreeMap String String} {entries : List (String × String)}
    (h : m.toList.Perm entries) : Std.ExtTreeMap.ofList entries = m := by
  have hdistinct : entries.Pairwise fun a b => ¬ compare a.1 b.1 = .eq :=
    h.pairwise (Std.ExtTreeMap.distinct_keys_toList (t := m)) fun {a b} hne heq =>
      hne (Std.OrientedCmp.eq_symm heq)
  refine Std.ExtTreeMap.ext_getElem? fun name => ?_
  cases hname : m[name]? with
  | some value =>
    have hmem : (name, value) ∈ entries :=
      h.subset (Std.ExtTreeMap.mem_toList_iff_getElem?_eq_some.2 hname)
    exact Std.ExtTreeMap.getElem?_ofList_of_mem Std.ReflCmp.compare_self hdistinct hmem
  | none =>
    refine Std.ExtTreeMap.getElem?_ofList_of_contains_eq_false ?_
    rw [List.contains_eq_mem, decide_eq_false_iff_not]
    intro hmem
    obtain ⟨entry, hentry, rfl⟩ := List.mem_map.1 hmem
    have hvalue := Std.ExtTreeMap.mem_toList_iff_getElem?_eq_some.1 (h.symm.subset hentry)
    cases hname.symm.trans hvalue

/-- The entries of a map may be written in any order. -/
theorem faithful_textMap : textMap.Faithful where
  legible m := .record fun member hmember => by
    obtain ⟨entry, -, rfl⟩ := List.mem_map.1 hmember
    exact .text entry.2
  reads m j hj := by
    change (Json.object (List.map _ (List.map _ m.toList))).Reordered j at hj
    rw [List.map_map] at hj
    obtain ⟨entries, hperm, rfl⟩ := Json.Reordered.of_texts hj
    have hentries : (entries.map fun entry =>
        (some entry.1, Json.text entry.2)).mapM readEntry = some entries :=
      @mapM_map_eq_some _ _ readEntry (fun entry => (some entry.1, Json.text entry.2))
        (fun _ => rfl) entries
    change Option.map _ (List.mapM readEntry _) = some m
    rw [hentries]
    exact congrArg some (ofList_of_perm hperm)

/-- The values of a choice are told apart by their names. -/
theorem faithful_choice {values : List α} {name : α → String} (hall : ∀ a, a ∈ values)
    (hname : ∀ a b, name a = name b → a = b) : (choice values name).Faithful where
  legible a := .text (name a)
  reads a j hj := by
    have hfind : (values.map fun b => Variant.plain (name b) b).find? (·.name == name a) =
        some (.plain (name a) a) := by
      rw [List.find?_map]
      cases hfound : values.find? ((·.name == name a) ∘ fun b => Variant.plain (name b) b) with
      | none => exact absurd (beq_self_eq_true (name a)) (List.find?_eq_none.1 hfound a (hall a))
      | some b =>
        have hsame : (name b == name a) = true := by
          have hb := List.find?_some hfound
          exact hb
        rw [hname b a (beq_iff_eq.1 hsame)]
        rfl
    rw [hj.of_text]
    change ((values.map fun b => Variant.plain (name b) b).find? (·.name == name a)).bind
      Variant.bare = some a
    rw [hfind]
    rfl

end Form

theorem Json.length_named (name : String) (members : List (Option String × Json)) :
    (Json.named name members).length = (members.map Prod.fst).count (some name) := by
  rw [Json.named, List.length_map, List.count_eq_countP, List.countP_map,
    List.countP_eq_length_filter]
  rfl

theorem Json.named_eq_nil_iff {name : String} {members : List (Option String × Json)} :
    Json.named name members = [] ↔ some name ∉ members.map Prod.fst := by
  rw [← List.length_eq_zero_iff, Json.length_named, List.count_eq_zero]

theorem Json.named_append_cons_of_ne {name other : String} (h : other ≠ name)
    (before after : List (Option String × Json)) (j : Json) :
    Json.named name (before ++ (some other, j) :: after) = Json.named name (before ++ after) := by
  simp [Json.named, h]

theorem Json.named_append_cons_self {name : String} {before after : List (Option String × Json)}
    (h : some name ∉ (before ++ after).map Prod.fst) (j : Json) :
    Json.named name (before ++ (some name, j) :: after) = [j] := by
  have hrest := Json.named_eq_nil_iff.2 h
  simp only [Json.named, List.filter_append, List.map_append, List.append_eq_nil_iff] at hrest
  simp [Json.named, hrest]

namespace Field

theorem ofMembers_of_ne {f : Field α} {name : String} (h : name ≠ f.name)
    (before after : List (Option String × Json)) (j : Json) :
    f.ofMembers (before ++ (some name, j) :: after) = f.ofMembers (before ++ after) := by
  rw [ofMembers, Json.named_append_cons_of_ne h, ofMembers]

theorem ofMembers_of_one {f : Field α} {before after : List (Option String × Json)}
    (h : some f.name ∉ (before ++ after).map Prod.fst) (j : Json) :
    f.ofMembers (before ++ (some f.name, j) :: after) = f.form.read j := by
  rw [ofMembers, Json.named_append_cons_self h]

end Field

namespace Fields

def names {α : Type} : Fields α → List String
  | .none => []
  | .cons f rest => f.name :: names rest

/-- The form of each field is faithful. -/
inductive Faithful : {α : Type} → Fields α → Prop
  | none : Faithful .none
  | cons {α β : Type} {f : Field α} {rest : Fields β} (first : f.form.Faithful)
      (others : rest.Faithful) : Faithful (.cons f rest)

theorem mem_names_of_mem_members {fields : Fields α} {a : α} {member : String × Json}
    (h : member ∈ fields.members a) : member.1 ∈ fields.names := by
  induction fields with
  | none => cases h
  | cons f rest ih =>
    rcases List.mem_cons.1 h with rfl | h
    · exact List.mem_cons_self
    · exact List.mem_cons_of_mem f.name (ih h)

theorem Faithful.legible_member {fields : Fields α} (h : fields.Faithful) {a : α}
    {member : String × Json} (hmember : member ∈ fields.members a) : member.2.Legible := by
  induction h with
  | none => cases hmember
  | cons first others ih =>
    rcases List.mem_cons.1 hmember with rfl | hmember
    · exact first.legible a.1
    · exact ih hmember

theorem Faithful.legible {fields : Fields α} (h : fields.Faithful) {a : α} :
    (Json.record (fields.members a)).Legible :=
  .record fun _ => h.legible_member

theorem ofMembers_of_notMem {fields : Fields α} {name : String} (h : name ∉ fields.names)
    (before after : List (Option String × Json)) (j : Json) :
    fields.ofMembers (before ++ (some name, j) :: after) = fields.ofMembers (before ++ after) := by
  induction fields with
  | none => rfl
  | cons f rest ih =>
    obtain ⟨hfirst, hrest⟩ := List.ne_and_not_mem_of_not_mem_cons h
    rw [ofMembers, ofMembers, Field.ofMembers_of_ne hfirst, ih hrest]

/-- The fields are read from their members in any order. -/
theorem Faithful.ofMembers_reordered {fields : Fields α} (h : fields.Faithful)
    (hnames : fields.names.Nodup) (a : α) {changed members : List (Option String × Json)}
    (hchanged : Json.MembersReordered (Json.labelled (fields.members a)) changed)
    (horder : changed.Perm members) : fields.ofMembers members = some a := by
  induction h generalizing changed members with
  | none => rfl
  | @cons _ _ f rest first others ih =>
    obtain ⟨hfirst, hrest⟩ := List.nodup_cons.1 hnames
    cases hchanged with
    | @cons _ _ j _ changed hj hchanged =>
      obtain ⟨before, after, rfl, hothers⟩ := exists_of_cons_perm horder
      have hone : some f.name ∉ (before ++ after).map Prod.fst := by
        intro hmem
        have hnamed : some f.name ∈ (Json.labelled (rest.members a.2)).map Prod.fst :=
          hchanged.names_eq ▸ (hothers.map Prod.fst).mem_iff.2 hmem
        rw [Json.names_labelled] at hnamed
        obtain ⟨name, hname, heq⟩ := List.mem_map.1 hnamed
        obtain ⟨member, hmember, rfl⟩ := List.mem_map.1 hname
        exact hfirst (Option.some.inj heq ▸ mem_names_of_mem_members hmember)
      simp only [ofMembers, Field.ofMembers_of_one hone, first.reads a.1 j hj,
        ofMembers_of_notMem hfirst, ih hrest a.2 hchanged hothers]
      rfl

theorem Faithful.reads {fields : Fields α} (h : fields.Faithful) (hnames : fields.names.Nodup)
    {a : α} {j : Json} (hj : (Json.record (fields.members a)).Reordered j) :
    fields.read j = some a := by
  cases hj with
  | @object _ changed members hchanged horder =>
    have hlabels : changed.map Prod.fst = ((fields.members a).map Prod.fst).map some :=
      hchanged.names_eq.trans (Json.names_labelled _)
    have hnamed : changed.all (·.1.isSome) = true := by
      rw [List.all_eq_true]
      intro member hmember
      obtain ⟨name, -, hname⟩ := List.mem_map.1 (hlabels ▸ List.mem_map_of_mem hmember)
      rw [← hname]
      rfl
    rw [read, ← horder.all_eq, if_pos hnamed]
    exact h.ofMembers_reordered hnames a hchanged horder

end Fields

theorem Fields.Faithful.record {fields : Fields α} (h : fields.Faithful)
    (hnames : fields.names.Nodup) {make : α → β} {parts : β → α}
    (hparts : ∀ b, make (parts b) = b) : (Form.record fields make parts).Faithful where
  legible _ := h.legible
  reads b j hj := by
    change (fields.read j).map make = some b
    rw [h.reads hnames hj, Option.map_some, hparts]

theorem Json.Legible.variant {name : String} {payload : Json} (h : payload.Legible) :
    (Json.variant name payload).Legible :=
  .record fun member hmember => by
    obtain rfl := List.mem_singleton.1 hmember
    exact h

/-- A variant that carries something is read if what it carries is. -/
theorem Variant.read_carrying {variants : List (Variant α)} {name : String}
    {read : Json → Option β} {make : β → α} {payload j : Json} {b : β}
    (hj : (Json.variant name payload).Reordered j)
    (hread : ∀ payload', payload.Reordered payload' → read payload' = some b)
    (hvariant : variants.find? (·.name == name) =
      some (.carrying name fun j => (read j).map make)) :
    Variant.read variants j = some (make b) := by
  obtain ⟨payload', hpayload, rfl⟩ := hj.of_variant
  change (variants.find? (·.name == name)).bind (·.withPayload payload') = _
  rw [hvariant]
  exact congrArg (Option.map make) (hread payload' hpayload)

namespace Wire

theorem faithful_accessMode : accessMode.Faithful :=
  Form.faithful_choice (fun a => by cases a <;> decide) fun a b h => by
    cases a <;> cases b <;> first | rfl | exact absurd h (by decide)

/-- A set of access modes is what its list says. -/
theorem faithful_accessModes : accessModes.Faithful :=
  faithful_accessMode.list.map fun modes => Std.ExtTreeSet.ext_mem fun mode => by
    rw [Std.ExtTreeSet.mem_ofList, List.contains_iff_mem, Std.ExtTreeSet.mem_toList]

theorem faithful_mountAccessFields : mountAccessFields.Faithful :=
  .cons Form.faithful_text (.cons Form.faithful_text.list .none)

theorem faithful_mountAccess : mountAccess.Faithful :=
  faithful_mountAccessFields.record (by decide) fun _ => rfl

theorem faithful_accessType : accessType.Faithful where
  legible
    | .mount access => .variant (faithful_mountAccess.legible access)
    | .block => .text "Block"
  reads
    | .mount access, j, hj => Variant.read_carrying hj (faithful_mountAccess.reads access) rfl
    | .block, j, hj => by
      rw [hj.of_text]
      rfl

theorem faithful_volumeCapabilityFields : volumeCapabilityFields.Faithful :=
  .cons (faithful_accessMode.option nofun)
    (.cons (faithful_accessType.option fun a => by cases a <;> nofun) .none)

theorem faithful_volumeCapability : volumeCapability.Faithful :=
  faithful_volumeCapabilityFields.record (by decide) fun _ => rfl

theorem faithful_volumeCapabilities : volumeCapabilities.Faithful :=
  (faithful_volumeCapability.option nofun).list

theorem faithful_controllerCapability : controllerCapability.Faithful :=
  Form.faithful_choice (fun a => by cases a <;> decide) fun a b h => by
    cases a <;> cases b <;> first | rfl | exact absurd h (by decide)

theorem faithful_pluginCapability : pluginCapability.Faithful :=
  Form.faithful_choice (fun a => by cases a; decide) fun a b _ => by cases a; cases b; rfl

theorem faithful_pluginInfoFields : pluginInfoFields.Faithful :=
  .cons Form.faithful_text (.cons Form.faithful_text .none)

theorem faithful_pluginInfo : pluginInfo.Faithful :=
  faithful_pluginInfoFields.record (by decide) fun _ => rfl

theorem faithful_driverFields : driverFields.Faithful :=
  .cons Form.faithful_text (.cons Form.faithful_text
    (.cons faithful_accessModes (.cons faithful_controllerCapability.list .none)))

theorem faithful_driver : driver.Faithful :=
  faithful_driverFields.record (by decide) fun _ => rfl

theorem faithful_settingsFields : settingsFields.Faithful :=
  .cons Form.faithful_text (.cons Form.faithful_text.list .none)

theorem faithful_settings : settings.Faithful :=
  faithful_settingsFields.record (by decide) fun _ => rfl

theorem faithful_volumeId : volumeId.Faithful :=
  Form.faithful_text.map fun _ => rfl

theorem faithful_capacityRangeFields : capacityRangeFields.Faithful :=
  .cons Form.faithful_word (.cons Form.faithful_word .none)

theorem faithful_capacityRange : capacityRange.Faithful :=
  faithful_capacityRangeFields.record (by decide) fun _ => rfl

theorem faithful_volumeFields : volumeFields.Faithful :=
  .cons faithful_volumeId (.cons Form.faithful_word (.cons Form.faithful_textMap .none))

theorem faithful_volume : volume.Faithful :=
  faithful_volumeFields.record (by decide) fun _ => rfl

theorem faithful_createVolumeRequestFields : createVolumeRequestFields.Faithful :=
  .cons Form.faithful_text (.cons (faithful_capacityRange.option nofun)
    (.cons faithful_volumeCapabilities (.cons Form.faithful_textMap .none)))

theorem faithful_createVolumeRequest : createVolumeRequest.Faithful :=
  faithful_createVolumeRequestFields.record (by decide) fun _ => rfl

theorem faithful_statusCode : statusCode.Faithful :=
  Form.faithful_choice (fun a => by cases a <;> decide) fun a b h => by
    cases a <;> cases b <;> first | rfl | exact absurd h (by decide)

theorem faithful_malformedIdentifierFields : malformedIdentifierFields.Faithful :=
  .cons Form.faithful_text (.cons Form.faithful_text .none)

theorem faithful_failureFields : failureFields.Faithful :=
  .cons Form.faithful_text (.cons Form.faithful_text .none)

theorem legible_error (e : Error) : (error.write e).Legible := by
  cases e with
  | invalidArgument text | volumeNotFound text | unimplemented text | internal text =>
    exact .variant (.text text)
  | malformedIdentifier id reason => exact .variant faithful_malformedIdentifierFields.legible
  | mountFailed path reason | unmountFailed path reason =>
    exact .variant faithful_failureFields.legible

theorem read_error (e : Error) {j : Json} (hj : (error.write e).Reordered j) :
    error.read j = some e := by
  cases e with
  | invalidArgument text | volumeNotFound text | unimplemented text | internal text =>
    exact Variant.read_carrying hj (Form.faithful_text.reads text) rfl
  | malformedIdentifier id reason =>
    exact Eq.trans (Variant.read_carrying (b := (id, reason, ())) hj
      (fun _ => faithful_malformedIdentifierFields.reads (by decide)) rfl) rfl
  | mountFailed path reason | unmountFailed path reason =>
    exact Eq.trans (Variant.read_carrying (b := (path, reason, ())) hj
      (fun _ => faithful_failureFields.reads (by decide)) rfl) rfl

theorem faithful_error : error.Faithful :=
  ⟨legible_error, fun e _ => read_error e⟩

theorem faithful_validateFields : validateFields.Faithful :=
  .cons faithful_volumeId (.cons faithful_volumeCapabilities .none)

theorem legible_writeRequest (r : Request) : (writeRequest r).Legible := by
  cases r with
  | createVolume request => exact .variant (faithful_createVolumeRequest.legible request)
  | deleteVolume id => exact .variant (faithful_volumeId.legible id)
  | validateVolumeCapabilities id capabilities => exact .variant faithful_validateFields.legible
  | listVolumes | getCapacity | controllerGetCapabilities | probe | getPluginInfo
  | getPluginCapabilities => exact .text _

theorem read_writeRequest (r : Request) {j : Json} (hj : (writeRequest r).Reordered j) :
    Variant.read requestVariants j = some r := by
  cases r with
  | createVolume request =>
    exact Variant.read_carrying hj (faithful_createVolumeRequest.reads request) rfl
  | deleteVolume id => exact Variant.read_carrying hj (faithful_volumeId.reads id) rfl
  | validateVolumeCapabilities id capabilities =>
    exact Eq.trans (Variant.read_carrying (b := (id, capabilities, ())) hj
      (fun _ => faithful_validateFields.reads (by decide)) rfl) rfl
  | listVolumes | getCapacity | controllerGetCapabilities | probe | getPluginInfo
  | getPluginCapabilities =>
    rw [hj.of_text]
    rfl

theorem legible_writeResponse (r : Response) : (writeResponse r).Legible := by
  cases r with
  | volumeCreated v => exact .variant (faithful_volume.legible v)
  | volumeList volumes => exact .variant (faithful_volume.list.legible volumes)
  | capacity bytes => exact .variant (Form.faithful_word.legible bytes)
  | capabilitiesValid valid | probeResult valid =>
    exact .variant (Form.faithful_bool.legible valid)
  | controllerCapabilities capabilities =>
    exact .variant (faithful_controllerCapability.list.legible capabilities)
  | pluginInfo info => exact .variant (faithful_pluginInfo.legible info)
  | pluginCapabilities capabilities =>
    exact .variant (faithful_pluginCapability.list.legible capabilities)
  | ok => exact .text "Ok"
  | error reason => exact .variant (faithful_error.legible reason)

theorem read_writeResponse (r : Response) {j : Json} (hj : (writeResponse r).Reordered j) :
    Variant.read responseVariants j = some r := by
  cases r with
  | volumeCreated v => exact Variant.read_carrying hj (faithful_volume.reads v) rfl
  | volumeList volumes => exact Variant.read_carrying hj (faithful_volume.list.reads volumes) rfl
  | capacity bytes => exact Variant.read_carrying hj (Form.faithful_word.reads bytes) rfl
  | capabilitiesValid valid | probeResult valid =>
    exact Variant.read_carrying hj (Form.faithful_bool.reads valid) rfl
  | controllerCapabilities capabilities =>
    exact Variant.read_carrying hj (faithful_controllerCapability.list.reads capabilities) rfl
  | pluginInfo info => exact Variant.read_carrying hj (faithful_pluginInfo.reads info) rfl
  | pluginCapabilities capabilities =>
    exact Variant.read_carrying hj (faithful_pluginCapability.list.reads capabilities) rfl
  | ok =>
    rw [hj.of_text]
    rfl
  | error reason => exact Variant.read_carrying hj (faithful_error.reads reason) rfl

/-- No response is taken for a request. -/
theorem read_response_as_request (r : Response) {j : Json}
    (hj : (writeResponse r).Reordered j) : Variant.read requestVariants j = none := by
  cases r with
  | ok =>
    rw [hj.of_text]
    rfl
  | _ =>
    obtain ⟨payload, -, rfl⟩ := hj.of_variant
    rfl

theorem faithful_message : message.Faithful where
  legible
    | .request r => legible_writeRequest r
    | .response r => legible_writeResponse r
  reads
    | .request r, j, hj => by
      change ((Variant.read requestVariants j).map Message.request).or _ = _
      rw [read_writeRequest r hj]
      rfl
    | .response r, j, hj => by
      change ((Variant.read requestVariants j).map Message.request).or
        ((Variant.read responseVariants j).map Message.response) = _
      rw [read_response_as_request r hj, read_writeResponse r hj]
      rfl

/-- Every message, and every value that can stand in one, is read back from the text that is written
for it, and so are the driver and the settings. The members of objects may stand in any order, such
as the entries of a map. Texts for two messages are never read as one. -/
theorem every_value_survives_writing :
    message.RoundTrips ∧ error.RoundTrips ∧ driver.RoundTrips ∧ settings.RoundTrips ∧
      createVolumeRequest.RoundTrips ∧ volume.RoundTrips ∧ volumeId.RoundTrips ∧
      capacityRange.RoundTrips ∧ volumeCapabilities.RoundTrips ∧ volumeCapability.RoundTrips ∧
      accessMode.RoundTrips ∧ accessModes.RoundTrips ∧ accessType.RoundTrips ∧
      mountAccess.RoundTrips ∧ controllerCapability.RoundTrips ∧ pluginCapability.RoundTrips ∧
      pluginInfo.RoundTrips ∧ statusCode.RoundTrips ∧
      ∀ (a b : Message) (j k : Json), (message.write a).Reordered j →
        (message.write b).Reordered k → message.decode j.render = message.decode k.render →
          a = b :=
  ⟨faithful_message.roundTrips, faithful_error.roundTrips, faithful_driver.roundTrips,
    faithful_settings.roundTrips, faithful_createVolumeRequest.roundTrips,
    faithful_volume.roundTrips, faithful_volumeId.roundTrips, faithful_capacityRange.roundTrips,
    faithful_volumeCapabilities.roundTrips, faithful_volumeCapability.roundTrips,
    faithful_accessMode.roundTrips, faithful_accessModes.roundTrips,
    faithful_accessType.roundTrips, faithful_mountAccess.roundTrips,
    faithful_controllerCapability.roundTrips, faithful_pluginCapability.roundTrips,
    faithful_pluginInfo.roundTrips, faithful_statusCode.roundTrips,
    fun _ _ _ _ => faithful_message.roundTrips.eq_of_decode_eq⟩

end Wire
end NfsProvisioner
