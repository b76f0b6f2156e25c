import NfsProvisioner.Proofs.PlainNames

/-!
# Ids and the volumes that they name

Joining three names with slashes can be undone exactly if the names are plain, and taking an id
apart gives nothing but names that join to that id again. So ids that are accepted and triples of
plain names correspond one to one (`reading_inverts_joining`), and an id kept for years names the
volume that it was made for.
-/
namespace NfsProvisioner

/-- What makes a name plain, spelled out. -/
theorem plainName_iff {name : String} :
    PlainName name ↔ name ≠ "" ∧ '/' ∉ name.toList ∧ name ≠ "." ∧ name ≠ ".." := by
  rw [← isRelativeName_eq_false_iff]
  constructor
  · rintro ⟨hne, hslash, habsolute⟩
    exact ⟨hne, hslash, habsolute⟩
  · rintro ⟨hne, hslash, habsolute⟩
    exact ⟨hne, hslash, habsolute⟩

namespace Placement

variable {p : Placement}

theorem plain_iff : p.Plain ↔ ∀ name ∈ [p.server, p.baseDir, p.name], PlainName name := by
  constructor
  · rintro ⟨hserver, hbaseDir, hname⟩
    simp [hserver, hbaseDir, hname]
  · intro h
    exact ⟨h _ (by simp), h _ (by simp), h _ (by simp)⟩

theorem text_id (p : Placement) : p.id.text = p.server ++ "/" ++ p.baseDir ++ "/" ++ p.name := by
  simp [id, String.intercalate_cons_cons, String.append_assoc]

/-- Names without slashes are found again between the slashes of their id. -/
theorem tokens_id (h : ∀ name ∈ [p.server, p.baseDir, p.name], '/' ∉ name.toList) :
    p.id.tokens = [p.server, p.baseDir, p.name] := by
  have hne : p.id.text ≠ "" := by
    intro hempty
    have hlength := congrArg String.length hempty
    rw [text_id] at hlength
    simp at hlength
  have hsplit : Text.splitText '/' p.id.text = [p.server, p.baseDir, p.name] :=
    Text.splitText_intercalate (List.cons_ne_nil _ _) h
  rw [VolumeId.tokens, if_neg hne, hsplit]

/-- The id of a volume with plain names is read back. -/
theorem read_id (h : p.Plain) : p.id.read = .ok p := by
  have hall := plain_iff.1 h
  have hempty : [p.server, p.baseDir, p.name].findIdx? String.isEmpty = none := by
    rw [List.findIdx?_eq_none_iff]
    intro name hname
    exact String.isEmpty_eq_false_iff.2 (hall name hname).nonempty
  have hrelative : [p.server, p.baseDir, p.name].findIdx? isRelativeName = none := by
    rw [List.findIdx?_eq_none_iff]
    exact fun name hname => (hall name hname).absolute
  rw [VolumeId.read, tokens_id fun name hname => (hall name hname).slashless]
  simp only [hempty, hrelative]

end Placement

namespace VolumeId

variable {id : VolumeId} {p : Placement}

/-- Joining what was read gives the id again. -/
theorem id_of_read (h : id.read = .ok p) : p.id = id := by
  have htokens : id.tokens = [p.server, p.baseDir, p.name] := by
    unfold read at h
    split at h
    · next server baseDir name htokens =>
      split at h
      · cases h
      · cases h
      · obtain rfl := Except.ok.inj h
        exact htokens
    · cases h
  have hpieces : Text.splitText '/' id.text = [p.server, p.baseDir, p.name] := by
    unfold tokens at htokens
    split at htokens
    · cases htokens
    · exact htokens
  have htext : p.id.text = id.text := by
    have hjoin := Text.intercalate_splitText '/' id.text
    rwa [hpieces] at hjoin
  cases id
  exact congrArg VolumeId.mk htext

theorem placement_eq_ok_iff : id.placement = .ok p ↔ id.read = .ok p := by
  unfold placement
  cases id.read with
  | ok q => simp
  | error fault => simp

/-- Ids that are read and triples of plain names correspond one to one. Three names are read back
from the id that joins them exactly if none is empty, holds a slash or is `.` or `..`. Whatever
else is read as an id is the one that joins the names found in it, character for character, and the
volume that it names is the one that lives there, under its own id. An id that is not read is
refused as malformed and reported as it was given. -/
theorem reading_inverts_joining :
    (∀ server baseDir name : String,
      (Placement.mk server baseDir name).id.placement = .ok ⟨server, baseDir, name⟩ ↔
        ∀ segment ∈ [server, baseDir, name],
          segment ≠ "" ∧ '/' ∉ segment.toList ∧ segment ≠ "." ∧ segment ≠ "..") ∧
    ∀ id : VolumeId,
      match id.placement with
      | .ok p =>
        p.id = id ∧ id.text = p.server ++ "/" ++ p.baseDir ++ "/" ++ p.name ∧
          id.locator = .ok p.locator ∧
          ∀ segment ∈ [p.server, p.baseDir, p.name],
            segment ≠ "" ∧ '/' ∉ segment.toList ∧ segment ≠ "." ∧ segment ≠ ".."
      | .error e => id.locator = .error e ∧ ∃ reason, e = .malformedIdentifier id.text reason := by
  constructor
  · intro server baseDir name
    rw [placement_eq_ok_iff]
    constructor
    · intro h segment hsegment
      exact plainName_iff.1 (Placement.plain_iff.1 (plain_of_read h) segment hsegment)
    · intro h
      exact Placement.read_id (Placement.plain_iff.2 fun segment hsegment =>
        plainName_iff.2 (h segment hsegment))
  · intro id
    cases hplacement : id.placement with
    | ok p =>
      have hread := placement_eq_ok_iff.1 hplacement
      have hid := id_of_read hread
      have hlocator : id.locator = .ok ⟨id, p⟩ := by
        rw [locator, hplacement]
        rfl
      refine ⟨hid, ?_, ?_, fun segment hsegment => ?_⟩
      · rw [← hid]
        exact p.text_id
      · rw [hlocator, Placement.locator, hid]
      · exact plainName_iff.1 (Placement.plain_iff.1 (plain_of_read hread) segment hsegment)
    | error e =>
      refine ⟨?_, ?_⟩
      · rw [locator, hplacement]
        rfl
      · unfold placement at hplacement
        split at hplacement
        · cases hplacement
        · next fault _ => exact ⟨fault.message, (Except.error.inj hplacement).symm⟩

end VolumeId
end NfsProvisioner
