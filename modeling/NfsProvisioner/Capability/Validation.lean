import NfsProvisioner.Driver
import NfsProvisioner.Error

/-!
# Which capabilities are accepted

A volume on an NFS export is always used as a mounted file system, so a capability is accepted when
it asks for that and for an access mode of the driver. Of several faults the first one counts.
-/
namespace NfsProvisioner

/-- Why capabilities are refused. -/
inductive CapabilityFault where
  | noneGiven
  | missing
  | modeNotSet
  | modeNotSupported (mode : AccessMode)
  | typeNotSet
  | blockAccess
deriving DecidableEq, Repr

def CapabilityFault.message : CapabilityFault → String
  | noneGiven => "volume capabilities must be provided"
  | missing => "volume capability must be provided"
  | modeNotSet => "volume capability access mode not set"
  | modeNotSupported mode => "driver does not support access mode: " ++ mode.displayName
  | typeNotSet => "volume capability access type not set"
  | blockAccess => "driver only supports mount access type volume capability"

def CapabilityFault.toError (fault : CapabilityFault) : Error :=
  .invalidArgument fault.message

namespace Driver

/-- The first fault of a capability, if it has one. -/
def capabilityFault? (d : Driver) : Option VolumeCapability → Option CapabilityFault
  | none => some .missing
  | some ⟨none, _⟩ => some .modeNotSet
  | some ⟨some mode, accessType⟩ =>
    if !d.supports mode then some (.modeNotSupported mode)
    else match accessType with
      | none => some .typeNotSet
      | some .block => some .blockAccess
      | some (.mount _) => none

/-- The first fault of the capabilities that a volume is asked for with. -/
def capabilitiesFault? (d : Driver) : List (Option VolumeCapability) → Option CapabilityFault
  | [] => some .noneGiven
  | capabilities => capabilities.findSome? d.capabilityFault?

def validateCapability (d : Driver) (capability : Option VolumeCapability) : Except Error Unit :=
  match d.capabilityFault? capability with
  | some fault => .error fault.toError
  | none => .ok ()

def validateCapabilities (d : Driver) (capabilities : List (Option VolumeCapability)) :
    Except Error Unit :=
  match d.capabilitiesFault? capabilities with
  | some fault => .error fault.toError
  | none => .ok ()

end Driver
end NfsProvisioner
