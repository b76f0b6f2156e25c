import NfsProvisioner.Volume.Basic
import NfsProvisioner.Wire.Capability

/-!
# Wire forms of volumes and of requests for them
-/
namespace NfsProvisioner.Wire

def volumeId : Form VolumeId :=
  Form.text.map VolumeId.mk VolumeId.text

def capacityRangeFields : Fields (UInt64 × UInt64 × Unit) :=
  .cons ⟨"required_bytes", .word, some 0⟩ (.cons ⟨"limit_bytes", .word, some 0⟩ .none)

def capacityRange : Form CapacityRange :=
  .record capacityRangeFields (fun (requiredBytes, limitBytes, ()) => ⟨requiredBytes, limitBytes⟩)
    fun r => (r.requiredBytes, r.limitBytes, ())

def volumeFields : Fields (VolumeId × UInt64 × TextMap × Unit) :=
  .cons ⟨"volume_id", volumeId, none⟩ (.cons ⟨"capacity_bytes", .word, none⟩
    (.cons ⟨"volume_context", .textMap, some ∅⟩ .none))

def volume : Form Volume :=
  .record volumeFields (fun (id, capacityBytes, context, ()) => ⟨id, capacityBytes, context⟩)
    fun v => (v.id, v.capacityBytes, v.context, ())

def createVolumeRequestFields :
    Fields (String × Option CapacityRange × List (Option VolumeCapability) × TextMap × Unit) :=
  .cons ⟨"name", .text, none⟩ (.cons ⟨"capacity_range", .option capacityRange, some none⟩
    (.cons ⟨"volume_capabilities", volumeCapabilities, some []⟩
      (.cons ⟨"parameters", .textMap, some ∅⟩ .none)))

def createVolumeRequest : Form CreateVolumeRequest :=
  .record createVolumeRequestFields
    (fun (name, capacityRange, capabilities, parameters, ()) =>
      ⟨name, capacityRange, capabilities, parameters⟩)
    fun r => (r.name, r.capacityRange, r.capabilities, r.parameters, ())

end NfsProvisioner.Wire
