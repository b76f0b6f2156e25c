import NfsProvisioner.Capability.Basic
import NfsProvisioner.Wire.Form

/-!
# Wire forms of capabilities
-/
namespace NfsProvisioner

def AccessMode.wireName : AccessMode → String
  | singleNodeWriter => "SingleNodeWriter"
  | singleNodeReaderOnly => "SingleNodeReaderOnly"
  | multiNodeReaderOnly => "MultiNodeReaderOnly"
  | multiNodeSingleWriter => "MultiNodeSingleWriter"
  | multiNodeMultiWriter => "MultiNodeMultiWriter"

namespace Wire

def accessMode : Form AccessMode :=
  .choice AccessMode.all AccessMode.wireName

/-- A set of access modes. It is written in order, and read in any order and with repetitions. -/
def accessModes : Form AccessModes :=
  (Form.list accessMode).map (fun modes => Std.ExtTreeSet.ofList modes) Std.ExtTreeSet.toList

def mountAccessFields : Fields (String × List String × Unit) :=
  .cons ⟨"fs_type", .text, some ""⟩ (.cons ⟨"mount_flags", .list .text, some []⟩ .none)

def mountAccess : Form MountAccess :=
  .record mountAccessFields (fun (fsType, mountFlags, ()) => ⟨fsType, mountFlags⟩)
    fun m => (m.fsType, m.mountFlags, ())

def accessType : Form AccessType where
  write
    | .mount access => .variant "Mount" (mountAccess.write access)
    | .block => .text "Block"
  read := Variant.read
    [.carrying "Mount" fun j => (mountAccess.read j).map .mount, .plain "Block" .block]

def volumeCapabilityFields : Fields (Option AccessMode × Option AccessType × Unit) :=
  .cons ⟨"access_mode", .option accessMode, some none⟩
    (.cons ⟨"access_type", .option accessType, some none⟩ .none)

def volumeCapability : Form VolumeCapability :=
  .record volumeCapabilityFields (fun (accessMode, accessType, ()) => ⟨accessMode, accessType⟩)
    fun c => (c.accessMode, c.accessType, ())

/-- Capabilities as a caller lists them. A blank entry is `null`. -/
def volumeCapabilities : Form (List (Option VolumeCapability)) :=
  .list (.option volumeCapability)

end Wire
end NfsProvisioner
