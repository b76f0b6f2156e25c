import Std.Data.ExtTreeMap
import NfsProvisioner.Capability.Basic
import NfsProvisioner.Volume.Placement

/-!
# Volumes and requests for them

What callers send to have a volume made, and what they get back.
-/
namespace NfsProvisioner

/-- Texts by name. -/
abbrev TextMap := Std.ExtTreeMap String String

/-- How many bytes a volume should and may hold. -/
structure CapacityRange where
  requiredBytes : UInt64 := 0
  limitBytes : UInt64 := 0
deriving DecidableEq, Repr

structure Volume where
  id : VolumeId
  /-- The size that was asked for. It is reported back and not enforced. -/
  capacityBytes : UInt64
  /-- What a node needs to know to mount the volume. -/
  context : TextMap := ∅
deriving DecidableEq

structure CreateVolumeRequest where
  name : String
  capacityRange : Option CapacityRange := none
  /-- An entry that the caller left blank is kept as such, so that it can be refused. -/
  capabilities : List (Option VolumeCapability) := []
  parameters : TextMap := ∅
deriving DecidableEq

/-- The number of bytes that a request asks for. -/
def CreateVolumeRequest.requiredBytes (r : CreateVolumeRequest) : UInt64 :=
  (r.capacityRange.map CapacityRange.requiredBytes).getD 0

namespace Placement

/-- Names of the entries in a volume's context. -/
def serverAttribute : String := "server"

def shareAttribute : String := "share"

/-- What a node needs to know to mount the volume: the server and the path on it. -/
def context (p : Placement) : TextMap :=
  Std.ExtTreeMap.ofList [(serverAttribute, p.server), (shareAttribute, p.sharePath)]

/-- The volume as callers see it. -/
def toVolume (p : Placement) (capacityBytes : UInt64) : Volume :=
  ⟨p.id, capacityBytes, p.context⟩

end Placement
end NfsProvisioner
