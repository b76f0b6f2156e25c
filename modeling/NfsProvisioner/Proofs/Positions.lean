import NfsProvisioner.Proofs.NamedFields

/-!
# Records are read by position as by name

An array is read as a record exactly if the object is that gives its items, one after the other, the
names of the fields, and then as the same one. There is one difference: an array cannot go on after
the last field, and what it leaves out has to be left out at the end.
-/
namespace NfsProvisioner

variable {α β : Type}

namespace Fields

theorem mem_names_of_mem_required {fields : Fields α} {name : String}
    (h : name ∈ fields.required) : name ∈ fields.names := by
  induction fields with
  | none => cases h
  | cons f rest ih =>
    rcases mem_required_cons.1 h with ⟨-, rfl⟩ | h
    · exact List.mem_cons_self
    · exact List.mem_cons_of_mem f.name (ih h)

/-- The members that give items the names of the fields. -/
def membersOf (fields : Fields α) (items : List Json) : List (Option String × Json) :=
  Json.labelled (fields.names.zip items)

theorem membersOf_nil (fields : Fields α) : fields.membersOf [] = [] := by
  rw [membersOf, List.zip_nil_right]
  rfl

theorem membersOf_cons (f : Field α) (rest : Fields β) (j : Json) (items : List Json) :
    (Fields.cons f rest).membersOf (j :: items) = (some f.name, j) :: rest.membersOf items :=
  rfl

theorem notMem_membersOf {fields : Fields α} {name : String} (h : name ∉ fields.names)
    (items : List Json) : some name ∉ (fields.membersOf items).map Prod.fst := by
  intro hin
  obtain ⟨member, hmember, heq⟩ := List.mem_map.1 hin
  obtain ⟨⟨known, j⟩, hknown, rfl⟩ := List.mem_map.1 hmember
  obtain rfl := Option.some.inj heq
  exact h (List.of_mem_zip hknown).1

/-- No more items than fields, and all that are left out may be. -/
def Covers (fields : Fields α) (items : List Json) : Prop :=
  items.length ≤ fields.names.length ∧
    ∀ name ∈ fields.names.drop items.length, name ∉ fields.required

/-- The first field does not count among the names of the others. -/
theorem none_required_cons_iff {f : Field α} {rest : Fields β} (h : f.name ∉ rest.names)
    {left : List String} (hleft : ∀ name ∈ left, name ∈ rest.names) :
    (∀ name ∈ left, name ∉ (Fields.cons f rest).required) ↔
      ∀ name ∈ left, name ∉ rest.required := by
  refine forall₂_congr fun name hname => ?_
  have hne : name ≠ f.name := ne_of_mem_of_not_mem (hleft name hname) h
  simp [mem_required_cons, hne]

theorem covers_cons_nil {f : Field α} {rest : Fields β} (h : f.name ∉ rest.names) :
    (Fields.cons f rest).Covers [] ↔ f.absent ≠ Option.none ∧ rest.Covers [] := by
  have hfirst : f.name ∉ (Fields.cons f rest).required ↔ f.absent ≠ Option.none := by
    have hout : f.name ∉ rest.required := mt mem_names_of_mem_required h
    simp [mem_required_cons, hout]
  have hothers := none_required_cons_iff h fun _ => id
  simp [Covers, names, hfirst, hothers]

theorem covers_cons_cons {f : Field α} {rest : Fields β} (h : f.name ∉ rest.names) {j : Json}
    {items : List Json} : (Fields.cons f rest).Covers (j :: items) ↔ rest.Covers items := by
  have hothers := @none_required_cons_iff _ _ f rest h (rest.names.drop items.length)
    fun _ => List.mem_of_mem_drop
  simp [Covers, names, hothers]

/-- Items are read as the members that have the names of the fields in their order. -/
theorem ofItems_eq_some_iff {fields : Fields α} (hnames : fields.names.Nodup) {items : List Json}
    {a : α} : fields.ofItems items = some a ↔
      fields.Covers items ∧ fields.ofMembers (fields.membersOf items) = some a := by
  induction fields generalizing items with
  | none =>
    cases items with
    | nil => simp [ofItems, ofMembers, Covers, names]
    | cons j items => simp [ofItems, Covers, names]
  | cons f rest ih =>
    obtain ⟨hfirst, hrest⟩ := List.nodup_cons.1 hnames
    obtain ⟨a, b⟩ := a
    cases items with
    | nil =>
      rw [ofItems, both_eq_some_iff, ih hrest, covers_cons_nil hfirst, membersOf_nil,
        membersOf_nil, ofMembers, both_eq_some_iff]
      constructor
      · rintro ⟨ha, hcovers, hb⟩
        have habsent : f.absent ≠ Option.none := by simp [ha]
        exact ⟨⟨habsent, hcovers⟩, ha, hb⟩
      · rintro ⟨⟨-, hcovers⟩, ha, hb⟩
        exact ⟨ha, hcovers, hb⟩
    | cons j items =>
      have hfield : f.ofMembers ((some f.name, j) :: rest.membersOf items) = f.form.read j :=
        @Field.ofMembers_of_one _ f [] _ (notMem_membersOf hfirst items) j
      have hothers : rest.ofMembers ((some f.name, j) :: rest.membersOf items) =
          rest.ofMembers (rest.membersOf items) :=
        ofMembers_of_notMem hfirst [] _ j
      rw [ofItems, both_eq_some_iff, ih hrest, covers_cons_cons hfirst, membersOf_cons, ofMembers,
        both_eq_some_iff, hfield, hothers]
      exact and_left_comm

theorem read_array_eq_some_iff {fields : Fields α} (hnames : fields.names.Nodup)
    {items : List Json} {a : α} : fields.read (.array items) = some a ↔
      fields.Covers items ∧ fields.read (.object (fields.membersOf items)) = some a := by
  have htexts : (fields.membersOf items).all (·.1.isSome) = true := by
    simp [membersOf, Json.labelled]
  rw [read, read, if_pos htexts]
  exact ofItems_eq_some_iff hnames

end Fields

namespace Json

/-- A name in quotes and a value, as they are written. -/
def quoted (member : String × String) : String × String :=
  ((text member.1).render, member.2)

theorem isMember_quoted {values : List String} {items : List Json}
    (h : List.Forall₂ (fun value item => parse value = some item) values items)
    (names : List String) :
    List.Forall₂ IsMember ((names.zip values).map quoted) (labelled (names.zip items)) := by
  induction h generalizing names with
  | nil => simp [labelled]
  | cons hitem _ ih =>
    cases names with
    | nil => exact .nil
    | cons name names => exact .cons ⟨isName_render name, hitem⟩ (ih names)

theorem parse_variant {payload : String} {j : Json} (h : parse payload = some j) (name : String) :
    parse (objectText [quoted (name, payload)]) = some (variant name j) :=
  parse_objectText (.cons ⟨isName_render name, h⟩ .nil)

end Json

/-- An array is read as a record exactly if it has no more items than there are fields, the fields
that it does not reach may be left out and the object is read that gives the items the names of the
fields; then both are read as the same value. The items are those that are written between the
brackets, and so are the members of the object. -/
theorem arrays_are_read_as_objects :
    (∀ {α β : Type} {decode : String → Option β} {place : Json → Json} {fields : Fields α}
      {make : α → β} {names required nullable : List String} {defaults : List (String × Json)},
      WireRecord decode place fields make names required nullable defaults →
        ∀ items array, Json.parse array = some (place (.array items)) →
          (names.length < items.length → decode array = none) ∧
          ∀ object,
            Json.parse object = some (place (.object (Json.labelled (names.zip items)))) →
            ∀ b, decode array = some b ↔ items.length ≤ names.length ∧
              (∀ name ∈ names.drop items.length, name ∉ required) ∧ decode object = some b) ∧
      (∀ values items,
        List.Forall₂ (fun value item => Json.parse value = some item) values items →
          Json.parse (Json.arrayText values) = some (.array items) ∧
          ∀ names : List String,
            Json.parse (Json.objectText ((names.zip values).map Json.quoted)) =
              some (.object (Json.labelled (names.zip items)))) ∧
      ∀ name payload j, Json.parse payload = some j →
        Json.parse (Json.objectText [Json.quoted (name, payload)]) = some (.variant name j) := by
  refine ⟨?_, ?_, fun name payload j hpayload => Json.parse_variant hpayload name⟩
  · intro α β decode place fields make names required nullable defaults hrecord items array harray
    obtain rfl := hrecord.names_eq
    obtain rfl := hrecord.required_eq
    have hread {a : α} := @Fields.read_array_eq_some_iff _ fields hrecord.distinct items a
    rw [hrecord.decode_eq harray]
    refine ⟨fun hmore => ?_, fun object hobject b => ?_⟩
    · rw [Option.map_eq_none_iff, Option.eq_none_iff_forall_ne_some]
      intro a ha
      have hcovers := (hread.1 ha).1.1
      omega
    · rw [hrecord.decode_eq hobject, Option.map_eq_some_iff, Option.map_eq_some_iff]
      constructor
      · rintro ⟨a, ha, hmake⟩
        obtain ⟨⟨hfew, hrest⟩, hobject⟩ := hread.1 ha
        exact ⟨hfew, hrest, a, hobject, hmake⟩
      · rintro ⟨hfew, hrest, a, hobject, hmake⟩
        exact ⟨a, hread.2 ⟨⟨hfew, hrest⟩, hobject⟩, hmake⟩
  · exact fun values items h => ⟨Json.parse_arrayText h,
      fun names => Json.parse_objectText (Json.isMember_quoted h names)⟩

namespace Sample

/-- A volume as an array that leaves out its last field. -/
def volumeArray : String :=
  "[\"s1/base/vol1\",1]"

def volumeObject : String :=
  "\x7b\"volume_id\":\"s1/base/vol1\",\"capacity_bytes\":1\x7d"

theorem volume_is_read_from_array :
    Json.parse volumeArray = some (.array [.text "s1/base/vol1", .natural 1]) ∧
      Wire.volume.decode volumeArray = some ⟨⟨"s1/base/vol1"⟩, 1, ∅⟩ := by
  have harray : Json.parse volumeArray = some (.array [.text "s1/base/vol1", .natural 1]) := by
    rfl
  have hobject : Json.parse volumeObject = some (.object
      [(some "volume_id", .text "s1/base/vol1"), (some "capacity_bytes", .natural 1)]) := by
    rfl
  have hread : Wire.volume.decode volumeObject = some ⟨⟨"s1/base/vol1"⟩, 1, ∅⟩ := by
    rw [Form.decode, hobject]
    rfl
  obtain ⟨-, hagree⟩ := arrays_are_read_as_objects.1 .volume _ volumeArray harray
  exact ⟨harray, (hagree volumeObject hobject _).2 ⟨by decide, by decide, hread⟩⟩

end Sample
end NfsProvisioner
